import UcVfs.Framework.Flags
import UcVfs.Vfs.Types
import Mathlib.Logic.Function.Basic

/-!
# Opening a file on littlefs

`_open` of `littlefs_vfs.c` with `lfs_file_opencfg_` of `lfs.c`. Paths lead to a name in one
directory and the name is valid; buffers and space suffice, and the configuration has no
attributes. What a descriptor has changed reaches the directory when it is synced: a file that was
truncated is empty for the descriptor alone.
-/

namespace UcVfs.Littlefs

open Framework

def LFS_ERR_OK : Int := 0
def LFS_ERR_IO : Int := -5
def LFS_ERR_CORRUPT : Int := -84
def LFS_ERR_NOENT : Int := -2
def LFS_ERR_EXIST : Int := -17
def LFS_ERR_NOTDIR : Int := -20
def LFS_ERR_ISDIR : Int := -21
def LFS_ERR_NOTEMPTY : Int := -39
def LFS_ERR_BADF : Int := -9
def LFS_ERR_INVAL : Int := -22
def LFS_ERR_NOSPC : Int := -28
def LFS_ERR_NOMEM : Int := -12

def LFS_O_RDONLY : Nat := 1
def LFS_O_WRONLY : Nat := 2
def LFS_O_RDWR : Nat := 3
def LFS_O_CREAT : Nat := 0x0100
def LFS_O_EXCL : Nat := 0x0200
def LFS_O_TRUNC : Nat := 0x0400
def LFS_O_APPEND : Nat := 0x0800
def LFS_F_DIRTY : Nat := 0x010000
def LFS_F_ERRED : Nat := 0x080000

/-- The cases of `littlefs_err_to_errno`. -/
def errnoCases : List (Int × Int) :=
  [(LFS_ERR_OK,0),( LFS_ERR_IO,- EIO),(LFS_ERR_CORRUPT,-ENODEV),(LFS_ERR_NOENT,-ENOENT),
    (LFS_ERR_EXIST,-EEXIST),(LFS_ERR_NOTDIR,-ENOTDIR),(LFS_ERR_ISDIR,-EISDIR),
    (LFS_ERR_NOTEMPTY,-ENOTEMPTY),(LFS_ERR_BADF,-EBADF),(LFS_ERR_INVAL,-EINVAL),
    (LFS_ERR_NOSPC,-ENOSPC),(LFS_ERR_NOMEM,-ENOMEM)]

def littlefsErrToErrno (err : Int) : Int := (errnoCases.lookup err).getD err

theorem littlefsErrToErrno_neg {err : Int} (h : err < 0) : littlefsErrToErrno err < 0 := by
  have hcases : ∀ e ∈ errnoCases,e.1 < 0 → e.2 < 0 := by decide
  rw [littlefsErrToErrno]
  cases hlookup : errnoCases.lookup err with
  | none => exact h
  | some res =>
    obtain ⟨before,after,hmem,-⟩ := List.lookup_eq_some_iff.mp hlookup
    exact hcases (err,res) (by rw [hmem]; simp) h

/-- What is no error is handed on. -/
theorem littlefsErrToErrno_nonneg {res : Int} (h : 0 ≤ res) : littlefsErrToErrno res = res := by
  have hcases : ∀ e ∈ errnoCases,0 ≤ e.1 → e.2 = e.1 := by decide
  rw [littlefsErrToErrno]
  cases hlookup : errnoCases.lookup res with
  | none => rfl
  | some ret =>
    obtain ⟨before,after,hmem,-⟩ := List.lookup_eq_some_iff.mp hlookup
    exact hcases (res,ret) (by rw [hmem]; simp) h

inductive LfsType
  | reg
  | dir
  deriving DecidableEq

structure LfsEntry where
  type : LfsType
  data : List UInt8
  deriving DecidableEq

abbrev LfsDir (Name : Type) := Name → Option LfsEntry

/-- `lfs_file_t`: `id` is the slot of its entry, `data` the contents that it sees. -/
structure LfsFile (Name : Type) where
  id : Name
  flags : Nat
  data : List UInt8

variable {Name : Type} [DecidableEq Name]

/-- The label `cleanup`: nothing of a file with an error is written when it is closed. -/
def cleanup (err : Int) (file : LfsFile Name) (dir : LfsDir Name) :
    Int × LfsFile Name × LfsDir Name :=
  (err,{ file with flags := file.flags ||| LFS_F_ERRED },dir)

def lfsFileOpencfg (path : Name) (flags : Nat) (dir : LfsDir Name) :
    Int × LfsFile Name × LfsDir Name :=
  let file : LfsFile Name := ⟨path,flags,[]⟩
  match dir path with
  | none =>
    if flags &&& LFS_O_CREAT = 0 then
      cleanup LFS_ERR_NOENT file dir
    else
      (LFS_ERR_OK,file,Function.update dir path (some ⟨.reg,[]⟩))
  | some e =>
    if flags &&& LFS_O_EXCL ≠ 0 then
      cleanup LFS_ERR_EXIST file dir
    else if e.type ≠ .reg then
      cleanup LFS_ERR_ISDIR file dir
    else if flags &&& LFS_O_TRUNC ≠ 0 then
      (LFS_ERR_OK,{ file with flags := file.flags ||| LFS_F_DIRTY },dir)
    else
      (LFS_ERR_OK,{ file with data := e.data },dir)

/-- The translation of the open flags. -/
def openFlags (flags : Nat) : Nat :=
  let lFlags := 0
  let lFlags := if flags &&& O_ACCMODE = O_RDONLY then lFlags ||| LFS_O_RDONLY else lFlags
  let lFlags := if flags &&& O_APPEND = O_APPEND then lFlags ||| LFS_O_APPEND else lFlags
  let lFlags := if flags &&& O_TRUNC = O_TRUNC then lFlags ||| LFS_O_TRUNC else lFlags
  let lFlags := if flags &&& O_CREAT = O_CREAT then lFlags ||| LFS_O_CREAT else lFlags
  let lFlags := if flags &&& O_ACCMODE = O_WRONLY then lFlags ||| LFS_O_WRONLY else lFlags
  let lFlags := if flags &&& O_ACCMODE = O_RDWR then lFlags ||| LFS_O_RDWR else lFlags
  if flags &&& O_EXCL = O_EXCL then lFlags ||| LFS_O_EXCL else lFlags

def open_ (name : Name) (flags : Nat) (dir : LfsDir Name) : Int × LfsFile Name × LfsDir Name :=
  let (ret,fp,dir) := lfsFileOpencfg name (openFlags flags) dir
  (littlefsErrToErrno ret,fp,dir)

/-- The contents of the regular files. -/
def LfsDir.files (dir : LfsDir Name) (name : Name) : Option (List UInt8) :=
  (dir name).map LfsEntry.data

section Opening

variable {path : Name} {flags : Nat} {dir : LfsDir Name} {e : LfsEntry}

theorem files_update (dir : LfsDir Name) (name : Name) (e : LfsEntry) :
    LfsDir.files (Function.update dir name (some e)) =
      Function.update (LfsDir.files dir) name (some e.data) := by
  funext other
  by_cases he : other = name
  · subst he
    simp [LfsDir.files]
  · simp [LfsDir.files,Function.update_of_ne he]

variable (flags) in
theorem lfsFileOpencfg_absent (hfile : dir path = none) :
    lfsFileOpencfg path flags dir =
      if AnyFlag flags LFS_O_CREAT then
        (LFS_ERR_OK,⟨path,flags,[]⟩,Function.update dir path (some ⟨.reg,[]⟩))
      else
        (LFS_ERR_NOENT,⟨path,flags ||| LFS_F_ERRED,[]⟩,dir) := by
  by_cases hcreat : flags &&& LFS_O_CREAT = 0
  · simp [lfsFileOpencfg,hfile,hcreat,cleanup]
  · simp [lfsFileOpencfg,hfile,hcreat]

variable (flags) in
theorem lfsFileOpencfg_exists (hfile : dir path = some e) (hreg : e.type = .reg) :
    lfsFileOpencfg path flags dir =
      if AnyFlag flags LFS_O_EXCL then
        (LFS_ERR_EXIST,⟨path,flags ||| LFS_F_ERRED,[]⟩,dir)
      else if AnyFlag flags LFS_O_TRUNC then
        (LFS_ERR_OK,⟨path,flags ||| LFS_F_DIRTY,[]⟩,dir)
      else
        (LFS_ERR_OK,⟨path,flags,e.data⟩,dir) := by
  simp [lfsFileOpencfg,hfile,hreg,cleanup]

end Opening

end UcVfs.Littlefs
