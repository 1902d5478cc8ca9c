import UcVfs.Fatfs.Adapter
import UcVfs.Fatfs.RootDir
import UcVfs.Framework.Flags
import UcVfs.Littlefs.Open
import UcVfs.Spiffs.Open

/-!
# One meaning of open flags

What opening a file promises, and how the three adapters keep it: each translates the flags
bit by bit and leaves the rest to its filesystem.
-/

namespace UcVfs

open Framework

variable {Name : Type} [DecidableEq Name]

/-- The contents of the files by name. -/
abbrev Files (Name : Type) := Name → Option (List UInt8)

/-- What `vfs_open` promises of its result, of the contents that the descriptor sees, and of the
files on the volume. A file that is emptied is empty for the descriptor; the volume may hold what was
in it until the descriptor is synced. -/
inductive OpenSpec (flags : Nat) (name : Name) (before : Files Name) :
    Int → Option (List UInt8) → Files Name → Prop
  | absent (hfile : before name = none) (hcreat : ¬AllFlags flags O_CREAT) :
      OpenSpec flags name before (-ENOENT) none before
  | exists_ (hfile : before name ≠ none) (hcreat : AllFlags flags O_CREAT)
      (hexcl : AllFlags flags O_EXCL) : OpenSpec flags name before (-EEXIST) none before
  | create (hfile : before name = none) (hcreat : AllFlags flags O_CREAT) {fd : Int}
      (hfd : 0 ≤ fd) :
      OpenSpec flags name before fd (some []) (Function.update before name (some []))
  | truncate {old : List UInt8} (hfile : before name = some old)
      (hexcl : ¬(AllFlags flags O_CREAT ∧ AllFlags flags O_EXCL)) (htrunc : AllFlags flags O_TRUNC)
      {fd : Int} (hfd : 0 ≤ fd) {stored : List UInt8} (hstored : stored = [] ∨ stored = old) :
      OpenSpec flags name before fd (some []) (Function.update before name (some stored))
  | keep {contents : List UInt8} (hfile : before name = some contents)
      (hexcl : ¬(AllFlags flags O_CREAT ∧ AllFlags flags O_EXCL)) (htrunc : ¬AllFlags flags O_TRUNC)
      {fd : Int} (hfd : 0 ≤ fd) : OpenSpec flags name before fd (some contents) before

inductive Backend
  | fatfs
  | littlefs
  | spiffs
  deriving DecidableEq

namespace Backend

abbrev Volume (Name : Type) : Backend → Type
  | fatfs => RootDir Name
  | littlefs => Littlefs.LfsDir Name
  | spiffs => Spiffs.Objects Name

abbrev File (Name : Type) : Backend → Type
  | fatfs => FilObj Name
  | littlefs => Littlefs.LfsFile Name
  | spiffs => Spiffs.ObjectFd Name

def files : (b : Backend) → b.Volume Name → Files Name
  | fatfs,vol => RootDir.files vol
  | littlefs,vol => Littlefs.LfsDir.files vol
  | spiffs,vol => vol

/-- What reading through an open file gives. -/
def contents : (b : Backend) → b.File Name → b.Volume Name → List UInt8
  | fatfs,fp,_ => FilObj.data fp
  | littlefs,file,_ => Littlefs.LfsFile.data file
  | spiffs,fd,fs => Spiffs.ObjectFd.contents fd fs

/-- A volume of files that may be written, as the adapters leave it. -/
def OnlyFiles : (b : Backend) → b.Volume Name → Prop
  | fatfs,vol => ∀ name e,vol name = some e → e.Plain
  | littlefs,vol => ∀ name e,vol name = some e → e.type = .reg
  | spiffs,_ => True

/-- The driver function `_open`. -/
def open_ (handle : Nat) (name : Name) (flags : Nat) :
    (b : Backend) → b.Volume Name → Int × Option (b.File Name) × b.Volume Name
  | fatfs,dir =>
    let ((res,fp),dir) := fOpen ⟨none,0,0,0,[]⟩ name (Fatfs.openFlags flags) dir
    (fatfsErrToErrno res,some fp,dir)
  | littlefs,dir =>
    let (res,fp,dir) := Littlefs.open_ name flags dir
    (res,some fp,dir)
  | spiffs,fs => Spiffs.open_ name flags handle fs

/-- The end of `vfs_open`, for the descriptor `fd` that was allocated. -/
def vfsOpen (b : Backend) (fd handle : Nat) (name : Name) (flags : Nat) (vol : b.Volume Name) :
    Int × Option (b.File Name) × b.Volume Name :=
  let (res,file,vol) := b.open_ handle name flags vol
  if res < 0 then (res,none,vol) else (fd,file,vol)

/-- What the descriptor sees, when there is one. -/
def seen (b : Backend) (opened : Int × Option (b.File Name) × b.Volume Name) : Option (List UInt8) :=
  opened.2.1.map fun file => b.contents file opened.2.2

/-- `vfs_open` keeps its promise. -/
def Keeps (b : Backend) (fd handle : Nat) (name : Name) (flags : Nat) (vol : b.Volume Name) : Prop :=
  OpenSpec flags name (b.files vol) (b.vfsOpen fd handle name flags vol).1
    (b.seen (b.vfsOpen fd handle name flags vol)) (b.files (b.vfsOpen fd handle name flags vol).2.2)

end Backend

/-! The translations, bit by bit. -/

section Translations

variable (flags : Nat)

theorem Fatfs.openFlags_eq :
    Fatfs.openFlags flags = setFlags
      [(flags &&& O_ACCMODE = O_RDONLY,FA_READ),(flags &&& O_ACCMODE = O_WRONLY,FA_WRITE),
        (flags &&& O_ACCMODE = O_RDWR,FA_READ ||| FA_WRITE),
        (flags &&& O_APPEND = O_APPEND,FA_OPEN_APPEND),
        (flags &&& O_TRUNC = O_TRUNC,FA_CREATE_ALWAYS),
        (flags &&& O_CREAT = O_CREAT ∧ flags &&& O_EXCL = O_EXCL,FA_CREATE_NEW),
        (flags &&& O_CREAT = O_CREAT ∧ ¬flags &&& O_EXCL = O_EXCL,FA_OPEN_ALWAYS)] 0 := by
  simp only [Fatfs.openFlags,setFlags,decide_eq_true_eq]
  by_cases hcreat : flags &&& O_CREAT = O_CREAT
  · by_cases hexcl : flags &&& O_EXCL = O_EXCL
    · simp [hcreat,hexcl]
    · simp [hcreat,hexcl]
  · simp [hcreat,FA_OPEN_EXISTING]

theorem Littlefs.openFlags_eq :
    Littlefs.openFlags flags = setFlags
      [(flags &&& O_ACCMODE = O_RDONLY,LFS_O_RDONLY),(flags &&& O_APPEND = O_APPEND,LFS_O_APPEND),
        (flags &&& O_TRUNC = O_TRUNC,LFS_O_TRUNC),(flags &&& O_CREAT = O_CREAT,LFS_O_CREAT),
        (flags &&& O_ACCMODE = O_WRONLY,LFS_O_WRONLY),(flags &&& O_ACCMODE = O_RDWR,LFS_O_RDWR),
        (flags &&& O_EXCL = O_EXCL,LFS_O_EXCL)] 0 := by
  simp only [Littlefs.openFlags,setFlags,decide_eq_true_eq]

theorem Spiffs.openFlags_eq :
    Spiffs.openFlags flags = setFlags
      [(flags &&& O_ACCMODE = O_RDONLY,SPIFFS_O_RDONLY),
        (flags &&& O_APPEND = O_APPEND,SPIFFS_O_APPEND),
        (flags &&& O_TRUNC = O_TRUNC,SPIFFS_O_TRUNC),(flags &&& O_CREAT = O_CREAT,SPIFFS_O_CREAT),
        (flags &&& O_ACCMODE = O_WRONLY,SPIFFS_O_WRONLY),
        (flags &&& O_ACCMODE = O_RDWR,SPIFFS_O_RDWR),
        (flags &&& O_EXCL = O_EXCL,SPIFFS_O_EXCL)] 0 := by
  simp only [Spiffs.openFlags,setFlags,decide_eq_true_eq]

theorem Fatfs.openFlags_and :
    Fatfs.openFlags flags &&& (FA_READ ||| FA_WRITE ||| FA_CREATE_ALWAYS ||| FA_CREATE_NEW |||
      FA_OPEN_ALWAYS ||| FA_OPEN_APPEND) = Fatfs.openFlags flags := by
  rw [Fatfs.openFlags_eq]
  apply setFlags_and
  simp [FA_READ,FA_WRITE,FA_OPEN_APPEND,FA_CREATE_ALWAYS,FA_CREATE_NEW,FA_OPEN_ALWAYS]

theorem Fatfs.openFlags_createNew :
    AnyFlag (Fatfs.openFlags flags) FA_CREATE_NEW ↔
      AllFlags flags O_CREAT ∧ AllFlags flags O_EXCL := by
  rw [show FA_CREATE_NEW = 2 ^ 2 from rfl,Fatfs.openFlags_eq,anyFlag_setFlags]
  simp [FA_READ,FA_WRITE,FA_OPEN_APPEND,FA_CREATE_ALWAYS,FA_CREATE_NEW,FA_OPEN_ALWAYS,AllFlags,
    Nat.testBit]

theorem Fatfs.openFlags_createAlways :
    AnyFlag (Fatfs.openFlags flags) FA_CREATE_ALWAYS ↔ AllFlags flags O_TRUNC := by
  rw [show FA_CREATE_ALWAYS = 2 ^ 3 from rfl,Fatfs.openFlags_eq,anyFlag_setFlags]
  simp [FA_READ,FA_WRITE,FA_OPEN_APPEND,FA_CREATE_ALWAYS,FA_CREATE_NEW,FA_OPEN_ALWAYS,AllFlags,
    Nat.testBit]

theorem Fatfs.openFlags_openAlways :
    AnyFlag (Fatfs.openFlags flags) FA_OPEN_ALWAYS ↔
      AllFlags flags O_APPEND ∨ AllFlags flags O_CREAT ∧ ¬AllFlags flags O_EXCL := by
  rw [show FA_OPEN_ALWAYS = 2 ^ 4 from rfl,Fatfs.openFlags_eq,anyFlag_setFlags]
  simp [FA_READ,FA_WRITE,FA_OPEN_APPEND,FA_CREATE_ALWAYS,FA_CREATE_NEW,FA_OPEN_ALWAYS,AllFlags,
    Nat.testBit]

/-- FatFs may create a file for more flags than `O_CREAT`. -/
theorem Fatfs.openFlags_creates :
    AnyFlag (Fatfs.openFlags flags) (FA_CREATE_ALWAYS ||| FA_OPEN_ALWAYS ||| FA_CREATE_NEW) ↔
      AllFlags flags O_CREAT ∨ AllFlags flags O_APPEND ∨ AllFlags flags O_TRUNC := by
  rw [anyFlag_or,anyFlag_or,Fatfs.openFlags_createAlways,Fatfs.openFlags_openAlways,
    Fatfs.openFlags_createNew]
  tauto

theorem Littlefs.openFlags_creat :
    AnyFlag (Littlefs.openFlags flags) LFS_O_CREAT ↔ AllFlags flags O_CREAT := by
  rw [show LFS_O_CREAT = 2 ^ 8 from rfl,Littlefs.openFlags_eq,anyFlag_setFlags]
  simp [LFS_O_RDONLY,LFS_O_APPEND,LFS_O_TRUNC,LFS_O_CREAT,LFS_O_WRONLY,LFS_O_RDWR,LFS_O_EXCL,
    AllFlags,Nat.testBit]

theorem Littlefs.openFlags_excl :
    AnyFlag (Littlefs.openFlags flags) LFS_O_EXCL ↔ AllFlags flags O_EXCL := by
  rw [show LFS_O_EXCL = 2 ^ 9 from rfl,Littlefs.openFlags_eq,anyFlag_setFlags]
  simp [LFS_O_RDONLY,LFS_O_APPEND,LFS_O_TRUNC,LFS_O_CREAT,LFS_O_WRONLY,LFS_O_RDWR,LFS_O_EXCL,
    AllFlags,Nat.testBit]

theorem Littlefs.openFlags_trunc :
    AnyFlag (Littlefs.openFlags flags) LFS_O_TRUNC ↔ AllFlags flags O_TRUNC := by
  rw [show LFS_O_TRUNC = 2 ^ 10 from rfl,Littlefs.openFlags_eq,anyFlag_setFlags]
  simp [LFS_O_RDONLY,LFS_O_APPEND,LFS_O_TRUNC,LFS_O_CREAT,LFS_O_WRONLY,LFS_O_RDWR,LFS_O_EXCL,
    AllFlags,Nat.testBit]

theorem Spiffs.openFlags_creat :
    AnyFlag (Spiffs.openFlags flags) SPIFFS_O_CREAT ↔ AllFlags flags O_CREAT := by
  rw [show SPIFFS_O_CREAT = 2 ^ 2 from rfl,Spiffs.openFlags_eq,anyFlag_setFlags]
  simp [SPIFFS_O_RDONLY,SPIFFS_O_APPEND,SPIFFS_O_TRUNC,SPIFFS_O_CREAT,SPIFFS_O_WRONLY,
    SPIFFS_O_RDWR,SPIFFS_O_EXCL,AllFlags,Nat.testBit]

theorem Spiffs.openFlags_excl :
    AnyFlag (Spiffs.openFlags flags) SPIFFS_O_EXCL ↔ AllFlags flags O_EXCL := by
  rw [show SPIFFS_O_EXCL = 2 ^ 6 from rfl,Spiffs.openFlags_eq,anyFlag_setFlags]
  simp [SPIFFS_O_RDONLY,SPIFFS_O_APPEND,SPIFFS_O_TRUNC,SPIFFS_O_CREAT,SPIFFS_O_WRONLY,
    SPIFFS_O_RDWR,SPIFFS_O_EXCL,AllFlags,Nat.testBit]

theorem Spiffs.openFlags_trunc :
    AnyFlag (Spiffs.openFlags flags) SPIFFS_O_TRUNC ↔ AllFlags flags O_TRUNC := by
  rw [show SPIFFS_O_TRUNC = 2 ^ 1 from rfl,Spiffs.openFlags_eq,anyFlag_setFlags]
  simp [SPIFFS_O_RDONLY,SPIFFS_O_APPEND,SPIFFS_O_TRUNC,SPIFFS_O_CREAT,SPIFFS_O_WRONLY,
    SPIFFS_O_RDWR,SPIFFS_O_EXCL,AllFlags,Nat.testBit]

theorem Spiffs.openFlags_creat_excl :
    AllFlags (Spiffs.openFlags flags) (SPIFFS_O_CREAT ||| SPIFFS_O_EXCL) ↔
      AllFlags flags O_CREAT ∧ AllFlags flags O_EXCL := by
  rw [allFlags_or]
  apply and_congr
  · rw [← Spiffs.openFlags_creat]
    exact allFlags_two_pow _ 2
  · rw [← Spiffs.openFlags_excl]
    exact allFlags_two_pow _ 6

end Translations

section Backends

variable {flags : Nat} {name : Name}

theorem OpenSpec.of_absent {before after : Files Name} {res : Int} {seen : Option (List UInt8)}
    (h : OpenSpec flags name before res seen after) (hfile : before name = none)
    (hcreat : ¬AllFlags flags O_CREAT) : res = -ENOENT := by
  cases h with
  | absent => rfl
  | create _ hcreat' => exact absurd hcreat' hcreat
  | exists_ hfile' => exact absurd hfile hfile'
  | truncate hfile' | keep hfile' =>
    rw [hfile] at hfile'
    cases hfile'

theorem Backend.vfsOpen_ok {b : Backend} {vol vol' : b.Volume Name} {fd handle : Nat} {res : Int}
    {file : Option (b.File Name)} (hopen : b.open_ handle name flags vol = (res,file,vol'))
    (hres : 0 ≤ res) : b.vfsOpen fd handle name flags vol = ((fd : Int),file,vol') := by
  simp only [vfsOpen,hopen,if_neg (not_lt.mpr hres)]

theorem Backend.vfsOpen_err {b : Backend} {vol vol' : b.Volume Name} {fd handle : Nat} {res : Int}
    {file : Option (b.File Name)} (hopen : b.open_ handle name flags vol = (res,file,vol'))
    (hres : res < 0) : b.vfsOpen fd handle name flags vol = (res,none,vol') := by
  simp only [vfsOpen,hopen,if_pos hres]

private theorem fatfs_ok {dir : RootDir Name} {e : DirEntry} (fd handle : Nat)
    (hres : (createOrOpen name (Fatfs.openFlags flags) dir).1 = .ok)
    (hentry : (createOrOpen name (Fatfs.openFlags flags) dir).2.2 name = some e) :
    let opened := Backend.fatfs.vfsOpen fd handle name flags dir
    opened.1 = (fd : Int) ∧ Backend.fatfs.seen opened = some e.data ∧
      opened.2.2 = (createOrOpen name (Fatfs.openFlags flags) dir).2.2 := by
  have hmask := Fatfs.openFlags_and flags
  have hopen := fOpen_eq dir name ⟨none,0,0,0,[]⟩ hmask
  rw [hres] at hopen
  have hcall : Backend.fatfs.open_ handle name flags dir =
      (0,some (fOpen ⟨none,0,0,0,[]⟩ name (Fatfs.openFlags flags) dir).1.2,
        (createOrOpen name (Fatfs.openFlags flags) dir).2.2) := by
    simp only [Backend.open_,hopen.1,hopen.2,fatfsErrToErrno]
  rw [Backend.vfsOpen_ok hcall le_rfl]
  exact ⟨rfl,congrArg some (fOpen_data _ hmask hres hentry),rfl⟩

private theorem fatfs_err {dir : RootDir Name} {r : FResult} (fd handle : Nat)
    (hres : (createOrOpen name (Fatfs.openFlags flags) dir).1 = r) (hr : r ≠ .ok) :
    Backend.fatfs.vfsOpen fd handle name flags dir =
      (fatfsErrToErrno r,none,(createOrOpen name (Fatfs.openFlags flags) dir).2.2) := by
  have hopen := fOpen_eq dir name ⟨none,0,0,0,[]⟩ (Fatfs.openFlags_and flags)
  rw [hres] at hopen
  have hcall : Backend.fatfs.open_ handle name flags dir = (fatfsErrToErrno r,
      some (fOpen ⟨none,0,0,0,[]⟩ name (Fatfs.openFlags flags) dir).1.2,
        (createOrOpen name (Fatfs.openFlags flags) dir).2.2) := by
    simp only [Backend.open_,hopen.1,hopen.2]
  exact Backend.vfsOpen_err hcall (fatfsErrToErrno_neg hr)

theorem files_update_empty (dir : RootDir Name) (name : Name) :
    RootDir.files (Function.update dir name (some .empty)) =
      Function.update dir.files name (some []) := by
  funext other
  by_cases he : other = name
  · subst he
    simp [RootDir.files,DirEntry.data,DirEntry.empty]
  · simp [RootDir.files,Function.update_of_ne he]

/-- FatFs keeps the promise unless it creates a file that it was not asked to create. -/
theorem fatfs_keeps {dir : RootDir Name} (hdir : Backend.fatfs.OnlyFiles dir) (fd handle : Nat) :
    Backend.fatfs.Keeps fd handle name flags dir ↔
      ¬(Backend.fatfs.files dir name = none ∧ ¬AllFlags flags O_CREAT ∧
        (AllFlags flags O_APPEND ∨ AllFlags flags O_TRUNC)) := by
  have hcreates := Fatfs.openFlags_creates flags
  rw [Backend.Keeps]
  cases hfile : dir name with
  | none =>
    have hnone : Backend.fatfs.files dir name = none := by
      simp [Backend.files,RootDir.files,hfile]
    have hopen := createOrOpen_absent (Fatfs.openFlags flags) hfile
    by_cases hcreate : AnyFlag (Fatfs.openFlags flags)
        (FA_CREATE_ALWAYS ||| FA_OPEN_ALWAYS ||| FA_CREATE_NEW)
    · rw [if_pos hcreate] at hopen
      obtain ⟨hres,hseen,hvol⟩ :=
        fatfs_ok (e := .empty) fd handle (by rw [hopen]) (by rw [hopen]; simp)
      rw [hres,hseen,hvol,hopen]
      by_cases hcreat : AllFlags flags O_CREAT
      · apply iff_of_true
        · rw [Backend.files,Backend.files,files_update_empty]
          exact .create hnone hcreat (by omega)
        · exact fun h => h.2.1 hcreat
      · have hother := (hcreates.mp hcreate).resolve_left hcreat
        simp only [hnone,hcreat,hother,not_false_eq_true,and_true,not_true_eq_false,iff_false]
        intro hspec
        have hres := hspec.of_absent hnone hcreat
        simp only [ENOENT] at hres
        omega
    · rw [if_neg hcreate] at hopen
      have herr := fatfs_err (r := .noFile) fd handle (by rw [hopen]) (by decide)
      rw [herr,hopen]
      rw [hcreates,not_or] at hcreate
      simp only [hcreate.2,and_false,not_false_eq_true,iff_true]
      exact .absent hnone hcreate.1
  | some e =>
    have hsome : Backend.fatfs.files dir name = some e.data := by
      simp [Backend.files,RootDir.files,hfile]
    have hthere : Backend.fatfs.files dir name ≠ none := by simp [hsome]
    simp only [hthere,false_and,not_false_eq_true,iff_true]
    have hopen := createOrOpen_exists (Fatfs.openFlags flags) hfile (hdir name e hfile)
    have hnew := Fatfs.openFlags_createNew flags
    have halways := Fatfs.openFlags_createAlways flags
    by_cases hexcl : AllFlags flags O_CREAT ∧ AllFlags flags O_EXCL
    · rw [if_pos (hnew.mpr hexcl)] at hopen
      have herr := fatfs_err (r := .exist) fd handle (by rw [hopen]) (by decide)
      rw [herr,hopen]
      exact .exists_ hthere hexcl.1 hexcl.2
    · rw [if_neg (hnew.not.mpr hexcl)] at hopen
      by_cases htrunc : AllFlags flags O_TRUNC
      · rw [if_pos (halways.mpr htrunc)] at hopen
        obtain ⟨hres,hseen,hvol⟩ :=
          fatfs_ok (e := .empty) fd handle (by rw [hopen]) (by rw [hopen]; simp)
        rw [hres,hseen,hvol,hopen,Backend.files,Backend.files,files_update_empty]
        exact .truncate hsome hexcl htrunc (by omega) (Or.inl rfl)
      · rw [if_neg (halways.not.mpr htrunc)] at hopen
        obtain ⟨hres,hseen,hvol⟩ :=
          fatfs_ok fd handle (by rw [hopen]) (by rw [hopen]; exact hfile)
        rw [hres,hseen,hvol,hopen]
        exact .keep hsome hexcl htrunc (by omega)

private theorem littlefs_ok {dir dir' : Littlefs.LfsDir Name} {file : Littlefs.LfsFile Name}
    (fd handle : Nat) (hopen : Littlefs.lfsFileOpencfg name (Littlefs.openFlags flags) dir =
      (Littlefs.LFS_ERR_OK,file,dir')) :
    Backend.littlefs.vfsOpen fd handle name flags dir = ((fd : Int),some file,dir') := by
  have hcall : Backend.littlefs.open_ handle name flags dir = (0,some file,dir') := by
    simp only [Backend.open_,Littlefs.open_,hopen]
    rfl
  exact Backend.vfsOpen_ok hcall le_rfl

private theorem littlefs_err {dir dir' : Littlefs.LfsDir Name} {file : Littlefs.LfsFile Name}
    {err : Int} (fd handle : Nat)
    (hopen : Littlefs.lfsFileOpencfg name (Littlefs.openFlags flags) dir = (err,file,dir'))
    (herr : Littlefs.littlefsErrToErrno err < 0) :
    Backend.littlefs.vfsOpen fd handle name flags dir =
      (Littlefs.littlefsErrToErrno err,none,dir') := by
  have hcall : Backend.littlefs.open_ handle name flags dir =
      (Littlefs.littlefsErrToErrno err,some file,dir') := by
    simp only [Backend.open_,Littlefs.open_,hopen]
  exact Backend.vfsOpen_err hcall herr

/-- littlefs keeps the promise: what it truncates stays in the directory for the time being. -/
theorem littlefs_keeps {dir : Littlefs.LfsDir Name} (hdir : Backend.littlefs.OnlyFiles dir)
    (hexcl : AllFlags flags O_EXCL → AllFlags flags O_CREAT) (fd handle : Nat) :
    Backend.littlefs.Keeps fd handle name flags dir := by
  have hcreat := Littlefs.openFlags_creat flags
  have hexcl' := Littlefs.openFlags_excl flags
  have htrunc := Littlefs.openFlags_trunc flags
  rw [Backend.Keeps]
  cases hfile : dir name with
  | none =>
    have hnone : Backend.littlefs.files dir name = none := by
      simp [Backend.files,Littlefs.LfsDir.files,hfile]
    have hopen := Littlefs.lfsFileOpencfg_absent (Littlefs.openFlags flags) hfile
    by_cases hc : AllFlags flags O_CREAT
    · rw [if_pos (hcreat.mpr hc)] at hopen
      rw [littlefs_ok fd handle hopen]
      simp only [Backend.seen,Backend.contents,Option.map_some]
      rw [Backend.files,Backend.files,Littlefs.files_update]
      exact .create hnone hc (by omega)
    · rw [if_neg (hcreat.not.mpr hc)] at hopen
      rw [littlefs_err fd handle hopen (by decide)]
      exact .absent hnone hc
  | some e =>
    have hsome : Backend.littlefs.files dir name = some e.data := by
      simp [Backend.files,Littlefs.LfsDir.files,hfile]
    have hopen := Littlefs.lfsFileOpencfg_exists (Littlefs.openFlags flags) hfile
      (hdir name e hfile)
    by_cases hx : AllFlags flags O_EXCL
    · rw [if_pos (hexcl'.mpr hx)] at hopen
      rw [littlefs_err fd handle hopen (by decide)]
      exact .exists_ (by simp [hsome]) (hexcl hx) hx
    · rw [if_neg (hexcl'.not.mpr hx)] at hopen
      by_cases ht : AllFlags flags O_TRUNC
      · rw [if_pos (htrunc.mpr ht)] at hopen
        rw [littlefs_ok fd handle hopen]
        have hsame : Function.update (Backend.littlefs.files dir) name (some e.data) =
            Backend.littlefs.files dir := by
          rw [← hsome,Function.update_eq_self]
        have hspec := OpenSpec.truncate hsome (fun h => hx h.2) ht (Int.natCast_nonneg fd)
          (Or.inr rfl)
        rwa [hsame] at hspec
      · rw [if_neg (htrunc.not.mpr ht)] at hopen
        rw [littlefs_ok fd handle hopen]
        exact .keep hsome (fun h => hx h.2) ht (by omega)

theorem spiffs_keeps (fs : Spiffs.Objects Name) (fd handle : Nat) :
    Backend.spiffs.Keeps fd handle name flags fs := by
  have hcreat := Spiffs.openFlags_creat flags
  have hboth := Spiffs.openFlags_creat_excl flags
  have htrunc := Spiffs.openFlags_trunc flags
  have hfd : (0 : Int) ≤ fd := by omega
  have hok : ∀ {file fs'},Spiffs.spiffsOpen name (Spiffs.openFlags flags) handle fs =
      ((handle : Int),file,fs') →
      Backend.spiffs.vfsOpen fd handle name flags fs = ((fd : Int),file,fs') := fun h =>
    Backend.vfsOpen_ok (b := .spiffs) (Spiffs.open_ok h) (Int.natCast_nonneg handle)
  have herr : ∀ {ret file fs'},Spiffs.spiffsOpen name (Spiffs.openFlags flags) handle fs =
      (ret,file,fs') → ret < 0 → Spiffs.spiffsErrToErrno ret < 0 →
      Backend.spiffs.vfsOpen fd handle name flags fs = (Spiffs.spiffsErrToErrno ret,none,fs') :=
    fun h hret herrno => Backend.vfsOpen_err (b := .spiffs) (Spiffs.open_err hret h) herrno
  rw [Backend.Keeps]
  cases hfile : fs name with
  | none =>
    have hopen := Spiffs.spiffsOpen_absent (Spiffs.openFlags flags) handle hfile
    by_cases hc : AllFlags flags O_CREAT
    · rw [if_pos (hcreat.mpr hc)] at hopen
      rw [hok hopen]
      exact .create hfile hc hfd
    · rw [if_neg (hcreat.not.mpr hc)] at hopen
      rw [herr hopen (by decide) (by decide)]
      exact .absent hfile hc
  | some contents =>
    have hsome : Backend.spiffs.files fs name = some contents := hfile
    have hopen := Spiffs.spiffsOpen_exists (Spiffs.openFlags flags) handle
      (Option.isSome_iff_exists.mpr ⟨contents,hfile⟩)
    by_cases hexcl : AllFlags flags O_CREAT ∧ AllFlags flags O_EXCL
    · rw [if_pos (hboth.mpr hexcl)] at hopen
      rw [herr hopen (by decide) (by decide)]
      exact .exists_ (by simp [hsome]) hexcl.1 hexcl.2
    · rw [if_neg (hboth.not.mpr hexcl)] at hopen
      by_cases ht : AllFlags flags O_TRUNC
      · rw [if_pos (htrunc.mpr ht)] at hopen
        rw [hok hopen]
        simp only [Backend.seen,Backend.contents,Option.map_some,Spiffs.objectTruncate_contents]
        rw [Spiffs.objectTruncate_objects hfile]
        exact .truncate hsome hexcl ht hfd (Or.inl rfl)
      · rw [if_neg (htrunc.not.mpr ht)] at hopen
        rw [hok hopen]
        simp only [Backend.seen,Backend.contents,Option.map_some,Spiffs.objectOpenByPage_contents,
          hfile,Option.getD_some]
        exact .keep hsome hexcl ht hfd

end Backends

/-- A volume with two files. -/
def twoFiles : Littlefs.LfsDir Char
  | 'a' => some ⟨.reg,[104,105]⟩
  | 'b' => some ⟨.reg,[33]⟩
  | _ => none

theorem onlyFiles_twoFiles : Backend.littlefs.OnlyFiles twoFiles := by
  intro name e h
  unfold twoFiles at h
  split at h
  · cases h
    rfl
  · cases h
    rfl
  · cases h

def emptyDir : RootDir Char := fun _ => none

theorem onlyFiles_emptyDir : Backend.fatfs.OnlyFiles emptyDir := by
  intro name e h
  cases h

end UcVfs
