import UcVfs.Devices.Ramdisk
import UcVfs.Spiffs.Open

/-!
# The SPIFFS adapter

The driver functions of `spiffs_vfs.c` over the functions of `spiffs.h`, which are a parameter
here.
-/

namespace UcVfs

/-- The members of `spiffs_stat` that the adapter looks at. -/
structure SpiffsStat where
  objId : Nat
  size : Nat
  deriving DecidableEq

/-- The members of `struct spiffs_dirent` that the adapter looks at. -/
structure SpiffsDirent where
  objId : Nat
  name : List Char
  deriving DecidableEq

/-- SPIFFS with the disks behind it: directory objects, everything else as one state, and the
functions. A mount object names its `spiffs`; a file is a number, a directory object is
passed in and handed back. -/
structure SpiffsFs (Mnt : Type) where
  Dir : Type
  σ : Type
  mount : Mnt → Fin 2 → σ → Int × σ
  unmount : Mnt → σ → σ
  format : Mnt → Fin 2 → σ → Int × σ
  remove : Mnt → CStr → σ → Int × σ
  rename : Mnt → CStr → CStr → σ → Int × σ
  open_ : Mnt → CStr → Nat → σ → Int × σ
  close : Mnt → Int → σ → Int × σ
  read : Mnt → Int → Nat → σ → (Int × List UInt8) × σ
  write : Mnt → Int → List UInt8 → σ → Int × σ
  lseek : Mnt → Int → Int → Int → σ → Int × σ
  fflush : Mnt → Int → σ → Int × σ
  /-- The record is as it was where the function does not fill it in. -/
  fstat : Mnt → Int → SpiffsStat → σ → (Int × SpiffsStat) × σ
  /-- Whether the pointer that is returned is not null. -/
  opendir : Mnt → CStr → Dir → σ → (Bool × Dir) × σ
  readdir : Dir → SpiffsDirent → σ → ((Bool × SpiffsDirent) × Dir) × σ
  errno : Dir → σ → Int
  closedir : Dir → σ → Int × σ

variable {Mnt : Type} (sp : SpiffsFs Mnt)

/-- The disk numbers of the mounts, SPIFFS, and what uninitialised records on the stack read. -/
structure SpiffsState where
  dno : Mnt → UInt8
  sys : sp.σ
  stackStat : SpiffsStat
  stackDirent : SpiffsDirent

namespace Spiffs.Driver

variable {sp}

/-- SPIFFS returned. -/
def called {α : Type} (s : SpiffsState sp) (ans : α × sp.σ) : α × SpiffsState sp :=
  (ans.1,{ s with sys := ans.2 })

def errno {α : Type} (ans : Int × α) : Int × α := (spiffsErrToErrno ans.1,ans.2)

/-- An unmount comes before the format when there was something to mount. -/
def format (mountp : Mnt) (s : SpiffsState sp) : Int × SpiffsState sp :=
  match ramdiskOpen (s.dno mountp).toNat with
  | none => (-ENODEV,s)
  | some disk =>
    let (ret,sys) := sp.mount mountp disk s.sys
    let sys := if ret = 0 then sp.unmount mountp sys else sys
    errno (called s (sp.format mountp disk sys))

def mount (mountp : Mnt) (s : SpiffsState sp) : Int × SpiffsState sp :=
  match ramdiskOpen (s.dno mountp).toNat with
  | none => (-ENODEV,s)
  | some disk => errno (called s (sp.mount mountp disk s.sys))

def umount (mountp : Mnt) (s : SpiffsState sp) : Int × SpiffsState sp :=
  (0,{ s with sys := sp.unmount mountp s.sys })

def unlink (mountp : Mnt) (name : CStr) (s : SpiffsState sp) : Int × SpiffsState sp :=
  errno (called s (sp.remove mountp name s.sys))

def rename (mountp : Mnt) (fromPath toPath : CStr) (s : SpiffsState sp) :
    Int × SpiffsState sp :=
  errno (called s (sp.rename mountp fromPath toPath s.sys))

/-- The file number goes into `private_data.value`. -/
def open_ (mp : Mnt) (value : Int) (name : CStr) (flags : Nat) (s : SpiffsState sp) :
    (Int × Int) × SpiffsState sp :=
  let (ret,s) := called s (sp.open_ mp name (openFlags flags) s.sys)
  if ret ≥ 0 then ((ret,ret),s) else ((spiffsErrToErrno ret,value),s)

def close (mp : Mnt) (value : Int) (s : SpiffsState sp) : Int × SpiffsState sp :=
  errno (called s (sp.close mp value s.sys))

def write (mp : Mnt) (value : Int) (src : List UInt8) (s : SpiffsState sp) :
    Int × SpiffsState sp :=
  errno (called s (sp.write mp value src s.sys))

/-- Returns the bytes that were stored as well. -/
def read (mp : Mnt) (value : Int) (nbytes : Nat) (s : SpiffsState sp) :
    (Int × List UInt8) × SpiffsState sp :=
  let (ans,s) := called s (sp.read mp value nbytes s.sys)
  (errno ans,s)

def SPIFFS_SEEK_SET : Int := 0
def SPIFFS_SEEK_CUR : Int := 1
def SPIFFS_SEEK_END : Int := 2

/-- Anything else is taken for `SPIFFS_SEEK_SET`. -/
def seekWhence (whence : Int) : Int :=
  let sWhence := 0
  if whence = SEEK_SET then SPIFFS_SEEK_SET
  else if whence = SEEK_CUR then SPIFFS_SEEK_CUR
  else if whence = SEEK_END then SPIFFS_SEEK_END
  else sWhence

def lseek (mp : Mnt) (value off whence : Int) (s : SpiffsState sp) : Int × SpiffsState sp :=
  errno (called s (sp.lseek mp value off (seekWhence whence) s.sys))

def fsync (mp : Mnt) (value : Int) (s : SpiffsState sp) : Int × SpiffsState sp :=
  errno (called s (sp.fflush mp value s.sys))

/-- An error is handed on as it is. -/
def fstat (mp : Mnt) (value : Int) (buf : Stat) (s : SpiffsState sp) :
    (Int × Stat) × SpiffsState sp :=
  let ((ret,stat),s) := called s (sp.fstat mp value s.stackStat s.sys)
  if ret < 0 then
    ((ret,buf),s)
  else
    ((spiffsErrToErrno ret,
      { buf with ino := stat.objId, size := Int.bmod stat.size (2 ^ 32), mode := S_IFREG }),s)

def opendir (mp : Mnt) (d : sp.Dir) (dirname : CStr) (s : SpiffsState sp) :
    (Int × sp.Dir) × SpiffsState sp :=
  let ((res,d),s) := called s (sp.opendir mp dirname d s.sys)
  if res then ((0,d),s) else ((-ENOENT,d),s)

def SPIFFS_ERR_INTERNAL : Int := -10050

/-- The first character of the name is skipped. -/
def readdir (d : sp.Dir) (entry : Dirent) (s : SpiffsState sp) :
    ((Int × Dirent) × sp.Dir) × SpiffsState sp :=
  let (((ret,e),d),s) := called s (sp.readdir d s.stackDirent s.sys)
  let err := sp.errno d s.sys
  if ¬ret ∧ err ≠ SPIFFS_OK ∧ err > SPIFFS_ERR_INTERNAL then
    (((- EIO,entry),d),s)
  else if ret then
    (((1,⟨e.objId,strncpy entry.name (e.name.drop 1) VFS_NAME_MAX⟩),d),s)
  else
    (((0,entry),d),s)

def closedir (d : sp.Dir) (s : SpiffsState sp) : Int × SpiffsState sp :=
  errno (called s (sp.closedir d s.sys))

end Spiffs.Driver

end UcVfs
