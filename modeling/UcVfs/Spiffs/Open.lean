import UcVfs.Framework.Flags
import UcVfs.Vfs.Types
import Mathlib.Logic.Function.Basic

/-!
# Opening a file on SPIFFS

`_open` of `spiffs_vfs.c` with `SPIFFS_open` of `spiffs_hydrogen.c`. Names are not too long;
descriptors, object ids and pages suffice.
-/

namespace UcVfs.Spiffs

open Framework

def SPIFFS_OK : Int := 0
def SPIFFS_ERR_NOT_FOUND : Int := -10002
def SPIFFS_ERR_FILE_EXISTS : Int := -10030

def SPIFFS_O_APPEND : Nat := 1 <<< 0
def SPIFFS_O_TRUNC : Nat := 1 <<< 1
def SPIFFS_O_CREAT : Nat := 1 <<< 2
def SPIFFS_O_RDONLY : Nat := 1 <<< 3
def SPIFFS_O_WRONLY : Nat := 1 <<< 4
def SPIFFS_O_RDWR : Nat := SPIFFS_O_RDONLY ||| SPIFFS_O_WRONLY
def SPIFFS_O_EXCL : Nat := 1 <<< 6

/-- The cases of `spiffs_err_to_errno`. -/
def errnoCases : List (Int × Int) :=
  [(-10000,-EINVAL),(-10001,-ENOSPC),(SPIFFS_ERR_NOT_FOUND,-ENOENT),(-10003,0),
    (-10004,-ENOENT),(-10026,-EBUSY),(-10027,- EIO),(-10028,-ENOSPC),(-10029,0),
    (SPIFFS_ERR_FILE_EXISTS,-EEXIST),(-10031,-ENOENT),(-10032,-EROFS),(-10033,10033),
    (-10034,-ENOSPC),(-10035,-ENODEV),(-10036,-ENAMETOOLONG),(-10005,-ENODEV),
    (-10006,-ENODEV),(-10007,-ENFILE),(-10008,-ENOENT),(-10009,-ENOENT),(-10010,-EBADF),
    (-10011,-ENOENT),(-10012,-ENOENT),(-10013,- EIO),(-10014,- EIO),(-10015,- EIO),
    (-10016,- EIO),(-10017,- EIO),(-10018,- EIO),(-10019,- EIO),(-10020,- EIO),
    (-10021,-EACCES),(-10022,-EACCES),(-10023,-EEXIST),(-10024,-ENODEV),(-10025,-ENODEV)]

def spiffsErrToErrno (err : Int) : Int :=
  if 0 ≤ err then err else (errnoCases.lookup err).getD err

/-- The objects of a volume that are files, by name. -/
abbrev Objects (Name : Type) := Name → Option (List UInt8)

/-- `spiffs_fd` as it is opened: `obj` is the object that it reads, `size` 0 also for
`SPIFFS_UNDEFINED_LEN`. -/
structure ObjectFd (Name : Type) where
  obj : Name
  flags : Nat
  size : Nat

variable {Name : Type} [DecidableEq Name]

def objectOpenByPage (path : Name) (flags : Nat) (fs : Objects Name) : ObjectFd Name :=
  ⟨path,flags,((fs path).getD []).length⟩

def objectTruncate (fd : ObjectFd Name) (fs : Objects Name) : ObjectFd Name × Objects Name :=
  if fd.size = 0 then (fd,fs) else ({ fd with size := 0 },Function.update fs fd.obj (some []))

/-- `fileNbr` is the descriptor that `spiffs_fd_find_new` finds. -/
def spiffsOpen (path : Name) (flags fileNbr : Nat) (fs : Objects Name) :
    Int × Option (ObjectFd Name) × Objects Name :=
  let res := if (fs path).isSome then SPIFFS_OK else SPIFFS_ERR_NOT_FOUND
  if flags &&& SPIFFS_O_CREAT = 0 ∧ res < SPIFFS_OK then
    (res,none,fs)
  else if res = SPIFFS_OK ∧
      flags &&& (SPIFFS_O_CREAT ||| SPIFFS_O_EXCL) = SPIFFS_O_CREAT ||| SPIFFS_O_EXCL then
    (SPIFFS_ERR_FILE_EXISTS,none,fs)
  else if flags &&& SPIFFS_O_CREAT ≠ 0 ∧ res = SPIFFS_ERR_NOT_FOUND then
    let fs := Function.update fs path (some [])
    let flags := flags &&& (0xFFFF ^^^ SPIFFS_O_TRUNC)
    (fileNbr,some (objectOpenByPage path flags fs),fs)
  else if res < SPIFFS_OK then
    (res,none,fs)
  else
    let fd := objectOpenByPage path flags fs
    if flags &&& SPIFFS_O_TRUNC ≠ 0 then
      let (fd,fs) := objectTruncate fd fs
      (fileNbr,some fd,fs)
    else
      (fileNbr,some fd,fs)

/-- The translation of the open flags. -/
def openFlags (flags : Nat) : Nat :=
  let sFlags := 0
  let sFlags := if flags &&& O_ACCMODE = O_RDONLY then sFlags ||| SPIFFS_O_RDONLY else sFlags
  let sFlags := if flags &&& O_APPEND = O_APPEND then sFlags ||| SPIFFS_O_APPEND else sFlags
  let sFlags := if flags &&& O_TRUNC = O_TRUNC then sFlags ||| SPIFFS_O_TRUNC else sFlags
  let sFlags := if flags &&& O_CREAT = O_CREAT then sFlags ||| SPIFFS_O_CREAT else sFlags
  let sFlags := if flags &&& O_ACCMODE = O_WRONLY then sFlags ||| SPIFFS_O_WRONLY else sFlags
  let sFlags := if flags &&& O_ACCMODE = O_RDWR then sFlags ||| SPIFFS_O_RDWR else sFlags
  if flags &&& O_EXCL = O_EXCL then sFlags ||| SPIFFS_O_EXCL else sFlags

def open_ (name : Name) (flags fileNbr : Nat) (fs : Objects Name) :
    Int × Option (ObjectFd Name) × Objects Name :=
  let (ret,fd,fs) := spiffsOpen name (openFlags flags) fileNbr fs
  if 0 ≤ ret then (ret,fd,fs) else (spiffsErrToErrno ret,fd,fs)

/-- What reading through a descriptor gives. -/
def ObjectFd.contents (fd : ObjectFd Name) (fs : Objects Name) : List UInt8 :=
  ((fs fd.obj).getD []).take fd.size

section Opening

variable {path : Name} {flags fileNbr : Nat} {fs : Objects Name}

omit [DecidableEq Name] in
theorem objectOpenByPage_contents (path : Name) (flags : Nat) (fs : Objects Name) :
    (objectOpenByPage path flags fs).contents fs = (fs path).getD [] :=
  List.take_length

/-- A file without bytes is left as it is. -/
theorem objectTruncate_objects {contents : List UInt8} (hfile : fs path = some contents)
    (flags : Nat) : (objectTruncate (objectOpenByPage path flags fs) fs).2 =
      Function.update fs path (some []) := by
  by_cases hsize : (objectOpenByPage path flags fs).size = 0
  · have hempty : contents = [] := by
      simpa [objectOpenByPage,hfile] using hsize
    rw [objectTruncate,if_pos hsize,← hempty,← hfile,Function.update_eq_self]
  · rw [objectTruncate,if_neg hsize]
    rfl

theorem objectTruncate_contents (fd : ObjectFd Name) (fs : Objects Name) :
    (objectTruncate fd fs).1.contents (objectTruncate fd fs).2 = [] := by
  by_cases hsize : fd.size = 0
  · rw [objectTruncate,if_pos hsize,ObjectFd.contents,hsize,List.take_zero]
  · rw [objectTruncate,if_neg hsize]
    rfl

variable (flags fileNbr) in
theorem spiffsOpen_absent (hfile : fs path = none) :
    spiffsOpen path flags fileNbr fs =
      if AnyFlag flags SPIFFS_O_CREAT then
        ((fileNbr : Int),some ⟨path,flags &&& (0xFFFF ^^^ SPIFFS_O_TRUNC),0⟩,
          Function.update fs path (some []))
      else (SPIFFS_ERR_NOT_FOUND,none,fs) := by
  by_cases hcreat : flags &&& SPIFFS_O_CREAT = 0
  · simp [spiffsOpen,hfile,hcreat,SPIFFS_OK,SPIFFS_ERR_NOT_FOUND]
  · simp [spiffsOpen,hfile,hcreat,SPIFFS_OK,SPIFFS_ERR_NOT_FOUND,objectOpenByPage]

variable (flags fileNbr) in
theorem spiffsOpen_exists (hfile : (fs path).isSome) :
    spiffsOpen path flags fileNbr fs =
      if AllFlags flags (SPIFFS_O_CREAT ||| SPIFFS_O_EXCL) then (SPIFFS_ERR_FILE_EXISTS,none,fs)
      else if AnyFlag flags SPIFFS_O_TRUNC then
        ((fileNbr : Int),some (objectTruncate (objectOpenByPage path flags fs) fs).1,
          (objectTruncate (objectOpenByPage path flags fs) fs).2)
      else ((fileNbr : Int),some (objectOpenByPage path flags fs),fs) := by
  simp [spiffsOpen,hfile,SPIFFS_OK,SPIFFS_ERR_NOT_FOUND]

theorem open_ok {fd : Option (ObjectFd Name)} {fs' : Objects Name}
    (h : spiffsOpen path (openFlags flags) fileNbr fs = ((fileNbr : Int),fd,fs')) :
    open_ path flags fileNbr fs = ((fileNbr : Int),fd,fs') := by
  simp [open_,h]

theorem open_err {ret : Int} {fd : Option (ObjectFd Name)} {fs' : Objects Name} (hret : ret < 0)
    (h : spiffsOpen path (openFlags flags) fileNbr fs = (ret,fd,fs')) :
    open_ path flags fileNbr fs = (spiffsErrToErrno ret,fd,fs') := by
  simp [open_,h,hret]

end Opening

end UcVfs.Spiffs
