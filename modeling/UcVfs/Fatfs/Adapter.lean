import UcVfs.Fatfs.Api
import UcVfs.Fatfs.Printf
import UcVfs.Framework.Program

/-!
# The FatFs adapter

The driver functions of `fatfs_vfs.c` as programs. Writing the path buffer of a mount and
calling FatFs are separate actions; a call that is given the buffer reads it when it is made.
-/

namespace UcVfs

open Framework

def FATFS_MAX_VOL_STR_LEN : Nat := 6
def FATFS_MAX_ABS_PATH_SIZE : Nat := FATFS_MAX_VOL_STR_LEN + VFS_NAME_MAX + 1
def TEST_FATFS_MAX_VOL_STR_LEN : Nat := 14
def FATFS_YEAR_OFFSET : Int := 1980
def EPOCH_YEAR_OFFSET : Int := 1970

/-- `fatfs_desc_t` with the disk number of its mount; the `FATFS` record is behind FatFs. -/
structure FatfsDesc where
  dno : Nat
  volIdx : Nat
  absPathStrBuff : List Char

/-- `fatfs_file_desc_t`. -/
structure FatfsFileDesc (Fil : Type) where
  file : Fil
  fname : List Char

/-- A FatFs function that was given a path. -/
inductive FatCall
  | mount (path : CStr)
  | unmount (path : CStr)
  | mkfs (path : CStr)
  | open_ (path : CStr) (mode : Nat)
  | stat (path : CStr)
  | unlink (path : CStr)
  | rename (pathOld pathNew : CStr)
  | mkdir (path : CStr)
  | opendir (path : CStr)
  deriving DecidableEq

variable {Mnt : Type} (ff : FatFs Mnt)

/-- The descriptors of the mounts, `work_mtx`, FatFs, and the calls with a path made so far,
latest first. -/
structure FatState where
  descs : Mnt → FatfsDesc
  workMtx : Nat
  sys : ff.σ
  calls : List FatCall

inductive FatAct
  | buildAbsPath (m : Mnt) (name : CStr)
  | desc (m : Mnt)
  | lockWork
  | unlockWork
  | openDisk (m : Mnt)
  | clear (m : Mnt)
  | mount (m : Mnt)
  | unmount (m : Mnt)
  | mkfs (volumeStr : CStr)
  | open_ (m : Mnt) (mode : Nat) (fp : ff.Fil)
  | close (fp : ff.Fil)
  | read (btr : Nat) (fp : ff.Fil)
  | write (buff : List UInt8) (fp : ff.Fil)
  | sync (fp : ff.Fil)
  | lseek (ofs : Nat) (fp : ff.Fil)
  | stat (m : Mnt)
  | unlink (m : Mnt)
  | rename (m : Mnt) (pathNew : CStr)
  | mkdir (m : Mnt)
  | opendir (m : Mnt) (dp : ff.Dir)
  | readdir (dp : ff.Dir)
  | closedir (dp : ff.Dir)

variable {ff}

abbrev FatAct.Resp : FatAct ff → Type
  | buildAbsPath _ _ | lockWork | unlockWork | clear _ => Unit
  | desc _ => FatfsDesc
  | openDisk _ => Bool
  | mount _ | unmount _ | mkfs _ | unlink _ | rename _ _ | mkdir _ => FResult
  | open_ _ _ _ | close _ | sync _ | lseek _ _ => FResult × ff.Fil
  | read _ _ => (FResult × List UInt8) × ff.Fil
  | write _ _ => (FResult × Nat) × ff.Fil
  | stat _ => FResult × FilInfo
  | opendir _ _ | closedir _ => FResult × ff.Dir
  | readdir _ => (FResult × FilInfo) × ff.Dir

/-- The string in the path buffer. -/
def FatfsDesc.absPath (d : FatfsDesc) : CStr := CStr.ofList d.absPathStrBuff

/-- `_build_abs_path`. -/
def FatfsDesc.buildAbsPath (d : FatfsDesc) (name : CStr) : FatfsDesc :=
  let format := [.lit ['/'],.str name]
  { d with absPathStrBuff := snprintf d.absPathStrBuff FATFS_MAX_ABS_PATH_SIZE format }

namespace FatState

/-- FatFs returned from a call that was given a path. -/
def called (s : FatState ff) (call : FatCall) (sys : ff.σ) : FatState ff :=
  { s with sys := sys, calls := call :: s.calls }

end FatState

section Exec

variable [DecidableEq Mnt]

/-- `none` is a mutex that is released but not held. -/
def FatAct.exec : (x : FatAct ff) → FatState ff → Option (x.Resp × FatState ff)
  | buildAbsPath m name,s => some ((),
      { s with descs := Function.update s.descs m ((s.descs m).buildAbsPath name) })
  | desc m,s => some (s.descs m,s)
  | lockWork,s => some ((),{ s with workMtx := s.workMtx + 1 })
  | unlockWork,s =>
    match s.workMtx with
    | 0 => none
    | depth + 1 => some ((),{ s with workMtx := depth })
  | openDisk m,s =>
    let (found,sys) := ff.openDisk (s.descs m).dno s.sys
    some (found,{ s with sys := sys })
  | clear m,s => some ((),{ s with sys := ff.clear m s.sys })
  | mount m,s =>
    let path := (s.descs m).absPath
    let (res,sys) := ff.mount m path s.sys
    some (res,s.called (.mount path) sys)
  | unmount m,s =>
    let path := (s.descs m).absPath
    let (res,sys) := ff.unmount path s.sys
    some (res,s.called (.unmount path) sys)
  | mkfs volumeStr,s =>
    let (res,sys) := ff.mkfs volumeStr s.sys
    some (res,s.called (.mkfs volumeStr) sys)
  | open_ m mode fp,s =>
    let path := (s.descs m).absPath
    let (res,fp,sys) := ff.open_ path mode fp s.sys
    some ((res,fp),s.called (.open_ path mode) sys)
  | close fp,s =>
    let (res,fp,sys) := ff.close fp s.sys
    some ((res,fp),{ s with sys := sys })
  | read btr fp,s =>
    let (res,fp,sys) := ff.read btr fp s.sys
    some ((res,fp),{ s with sys := sys })
  | write buff fp,s =>
    let (res,fp,sys) := ff.write buff fp s.sys
    some ((res,fp),{ s with sys := sys })
  | sync fp,s =>
    let (res,fp,sys) := ff.sync fp s.sys
    some ((res,fp),{ s with sys := sys })
  | lseek ofs fp,s =>
    let (res,fp,sys) := ff.lseek ofs fp s.sys
    some ((res,fp),{ s with sys := sys })
  | stat m,s =>
    let path := (s.descs m).absPath
    let (res,sys) := ff.stat path s.sys
    some (res,s.called (.stat path) sys)
  | unlink m,s =>
    let path := (s.descs m).absPath
    let (res,sys) := ff.unlink path s.sys
    some (res,s.called (.unlink path) sys)
  | rename m pathNew,s =>
    let path := (s.descs m).absPath
    let (res,sys) := ff.rename path pathNew s.sys
    some (res,s.called (.rename path pathNew) sys)
  | mkdir m,s =>
    let path := (s.descs m).absPath
    let (res,sys) := ff.mkdir path s.sys
    some (res,s.called (.mkdir path) sys)
  | opendir m dp,s =>
    let path := (s.descs m).absPath
    let (res,dp,sys) := ff.opendir path dp s.sys
    some ((res,dp),s.called (.opendir path) sys)
  | readdir dp,s =>
    let (res,dp,sys) := ff.readdir dp s.sys
    some ((res,dp),{ s with sys := sys })
  | closedir dp,s =>
    let (res,dp,sys) := ff.closedir dp s.sys
    some ((res,dp),{ s with sys := sys })

end Exec

/-! The driver functions. A file or directory object is handed back with the result. -/

abbrev FatProg (ff : FatFs Mnt) (ρ : Type) := Prog (@FatAct.Resp Mnt ff) ρ

namespace Fatfs

abbrev act (x : FatAct ff) : FatProg ff x.Resp := Prog.act x

def init (mountp : Mnt) : FatProg ff Int := do
  let fatDisk ← act (.openDisk mountp)
  if fatDisk then pure 0 else pure (-EINVAL)

/-- Returns with the mutex held when there is no such disk, as the source does. -/
def format (mountp : Mnt) : FatProg ff Int := do
  act .lockWork
  let err ← init mountp
  if err ≠ 0 then
    pure (-EINVAL)
  else
    let fsDesc ← act (.desc mountp)
    let volumeStr := snprintf (List.replicate TEST_FATFS_MAX_VOL_STR_LEN nul)
      TEST_FATFS_MAX_VOL_STR_LEN [.uint fsDesc.volIdx,.lit [':','/']]
    let res ← act (.mkfs (CStr.ofList volumeStr))
    act .unlockWork
    pure (fatfsErrToErrno res)

def mount (mountp : Mnt) : FatProg ff Int := do
  let err ← init mountp
  if err ≠ 0 then
    pure (-ENOMEM)
  else
    act (.buildAbsPath mountp (CStr.ofList []))
    act (.clear mountp)
    let res ← act (.mount mountp)
    pure (fatfsErrToErrno res)

def umount (mountp : Mnt) : FatProg ff Int := do
  act (.buildAbsPath mountp (CStr.ofList []))
  let res ← act (.unmount mountp)
  if res = .ok then
    act (.clear mountp)
    pure (fatfsErrToErrno res)
  else
    pure (fatfsErrToErrno res)

def unlink (mountp : Mnt) (name : CStr) : FatProg ff Int := do
  act (.buildAbsPath mountp name)
  let res ← act (.unlink mountp)
  pure (fatfsErrToErrno res)

/-- The destination goes into a buffer on the stack, behind a drive prefix. -/
def rename (mountp : Mnt) (fromPath toPath : CStr) : FatProg ff Int := do
  act (.buildAbsPath mountp fromPath)
  let fsDesc ← act (.desc mountp)
  let fatfsAbsPathTo := snprintf (List.replicate FATFS_MAX_ABS_PATH_SIZE nul)
    FATFS_MAX_ABS_PATH_SIZE [.uint fsDesc.volIdx,.lit [':','/'],.str toPath]
  let res ← act (.rename mountp (CStr.ofList fatfsAbsPathTo))
  pure (fatfsErrToErrno res)

/-- The translation of the open flags. -/
def openFlags (flags : Nat) : Nat :=
  let fatfsFlags := 0
  let fatfsFlags := if flags &&& O_ACCMODE = O_RDONLY then fatfsFlags ||| FA_READ else fatfsFlags
  let fatfsFlags := if flags &&& O_ACCMODE = O_WRONLY then fatfsFlags ||| FA_WRITE else fatfsFlags
  let fatfsFlags :=
    if flags &&& O_ACCMODE = O_RDWR then fatfsFlags ||| (FA_READ ||| FA_WRITE) else fatfsFlags
  let fatfsFlags :=
    if flags &&& O_APPEND = O_APPEND then fatfsFlags ||| FA_OPEN_APPEND else fatfsFlags
  let fatfsFlags :=
    if flags &&& O_TRUNC = O_TRUNC then fatfsFlags ||| FA_CREATE_ALWAYS else fatfsFlags
  if flags &&& O_CREAT = O_CREAT then
    if flags &&& O_EXCL = O_EXCL then fatfsFlags ||| FA_CREATE_NEW
    else fatfsFlags ||| FA_OPEN_ALWAYS
  else
    fatfsFlags ||| FA_OPEN_EXISTING

def open_ (mp : Mnt) (fd : FatfsFileDesc ff.Fil) (name : CStr) (flags : Nat) :
    FatProg ff (Int × FatfsFileDesc ff.Fil) := do
  act (.buildAbsPath mp name)
  let fsDesc ← act (.desc mp)
  let fname := strncpy fd.fname fsDesc.absPathStrBuff VFS_NAME_MAX
  let (res,file) ← act (.open_ mp (openFlags flags) fd.file)
  pure (fatfsErrToErrno res,⟨file,fname⟩)

def close (fd : FatfsFileDesc ff.Fil) : FatProg ff (Int × FatfsFileDesc ff.Fil) := do
  let (res,file) ← act (.close fd.file)
  pure (fatfsErrToErrno res,{ fd with file := file })

def write (fd : FatfsFileDesc ff.Fil) (src : List UInt8) :
    FatProg ff (Int × FatfsFileDesc ff.Fil) := do
  let ((res,bw),file) ← act (.write src fd.file)
  if res ≠ .ok then
    pure (fatfsErrToErrno res,{ fd with file := file })
  else
    pure (bw,{ fd with file := file })

def fsync (fd : FatfsFileDesc ff.Fil) : FatProg ff (Int × FatfsFileDesc ff.Fil) := do
  let (res,file) ← act (.sync fd.file)
  pure (fatfsErrToErrno res,{ fd with file := file })

def read (fd : FatfsFileDesc ff.Fil) (nbytes : Nat) :
    FatProg ff ((Int × List UInt8) × FatfsFileDesc ff.Fil) := do
  let ((res,data),file) ← act (.read nbytes fd.file)
  if res ≠ .ok then
    pure ((fatfsErrToErrno res,data),{ fd with file := file })
  else
    pure ((data.length,data),{ fd with file := file })

/-- A value stored into a signed 32-bit `off_t`. -/
def toOff (n : Int) : Int := n.bmod (2 ^ 32)

/-- The end of `_lseek`; `f_lseek` takes its offset as an unsigned 32-bit number. -/
def seekTo (fd : FatfsFileDesc ff.Fil) (newPos : Int) :
    FatProg ff (Int × FatfsFileDesc ff.Fil) := do
  let (res,file) ← act (.lseek (newPos % 2 ^ 32).toNat fd.file)
  if res = .ok then
    pure (newPos,{ fd with file := file })
  else
    pure (fatfsErrToErrno res,{ fd with file := file })

def lseek (fd : FatfsFileDesc ff.Fil) (off whence : Int) :
    FatProg ff (Int × FatfsFileDesc ff.Fil) :=
  if whence = SEEK_SET then seekTo fd off
  else if whence = SEEK_CUR then seekTo fd (toOff (ff.tell fd.file + off))
  else if whence = SEEK_END then seekTo fd (toOff (ff.size fd.file + off))
  else pure (fatfsErrToErrno .invalidParameter,fd)

def daysForMonth : List Int := [0,31,59,90,120,151,181,212,243,273,304,334]

/-- Whether a 32-bit signed integer holds the value. -/
def fitsInt (n : Int) : Bool := -2 ^ 31 ≤ n && n < 2 ^ 31

/-- `_fatfs_time_to_timespec`; `none` when the month is no index of the table or the result
overflows the target's `long`. -/
def timeToTimespec (fdate ftime : Nat) : Option Int :=
  let year : Int := (fdate >>> 9 &&& 0x7F : Nat) + FATFS_YEAR_OFFSET - EPOCH_YEAR_OFFSET
  let month : Int := (fdate >>> 5 &&& 0x0F : Nat) - 1
  let day : Int := (fdate &&& 0x1F : Nat) - 1
  let hour : Int := (ftime >>> 11 &&& 0x1F : Nat)
  let min : Int := (ftime >>> 5 &&& 0x3F : Nat)
  let sec : Int := (ftime &&& 0x1F : Nat) * 2
  let leapYears : Int := (year - 1 - EPOCH_YEAR_OFFSET - 2).tdiv 4 - (year - 1 - 1900).tdiv 100 +
    (year - 1 - 1600).tdiv 400
  if month < 0 then
    none
  else
    match daysForMonth[month.toNat]? with
    | none => none
    | some days =>
      let daysSinceEpoch := (year - EPOCH_YEAR_OFFSET) * 365 + days + leapYears + day
      let daysSinceEpoch :=
        if month > 2 ∧ year.tmod 4 = 0 ∧ (year.tmod 100 ≠ 0 ∨ year.tmod 400 = 0) then
          daysSinceEpoch + 1
        else
          daysSinceEpoch
      let time := ((daysSinceEpoch * 24 + hour) * 60 + min) * 60 + sec
      if fitsInt (daysSinceEpoch * 24 + hour) && fitsInt ((daysSinceEpoch * 24 + hour) * 60 + min)
        && fitsInt time then some time else none

/-- What `_fstat` makes of a directory entry; 0 stands for a time that is not computed. -/
def statOf (fi : FilInfo) : Stat where
  ino := 0
  size := toOff fi.fsize
  mtime := (timeToTimespec fi.fdate fi.ftime).getD 0
  mode :=
    let stMode := if fi.fattrib &&& AM_DIR ≠ 0 then S_IFDIR else S_IFREG
    let stMode := stMode ||| (S_IRUSR ||| S_IRGRP ||| S_IROTH)
    if fi.fattrib &&& AM_RDO ≠ 0 then stMode ^^^ (S_IWUSR ||| S_IWGRP ||| S_IWOTH) else stMode

/-- Looks up the path that the buffer of the mount holds; leaves `buf` alone on an error. -/
def fstat (mp : Mnt) (buf : Stat) : FatProg ff (Int × Stat) := do
  let (res,fi) ← act (.stat mp)
  if res ≠ .ok then
    pure (fatfsErrToErrno res,buf)
  else
    pure (fatfsErrToErrno res,{ statOf fi with ino := buf.ino })

def opendir (mp : Mnt) (dir : ff.Dir) (dirname : CStr) : FatProg ff (Int × ff.Dir) := do
  act (.buildAbsPath mp dirname)
  let (res,dir) ← act (.opendir mp dir)
  pure (fatfsErrToErrno res,dir)

/-- Returns what is left in `entry` as well. -/
def readdir (dir : ff.Dir) (entry : Dirent) : FatProg ff ((Int × Dirent) × ff.Dir) := do
  let ((res,fi),dir) ← act (.readdir dir)
  if res = .ok then
    if fi.fname.headD nul = nul then
      pure ((0,entry),dir)
    else
      pure ((1,⟨0,strncpy entry.name fi.fname VFS_NAME_MAX⟩),dir)
  else
    pure ((fatfsErrToErrno res,entry),dir)

def closedir (dir : ff.Dir) : FatProg ff (Int × ff.Dir) := do
  let (res,dir) ← act (.closedir dir)
  pure (fatfsErrToErrno res,dir)

def mkdir (mountp : Mnt) (name : CStr) : FatProg ff Int := do
  act (.buildAbsPath mountp name)
  let res ← act (.mkdir mountp)
  pure (fatfsErrToErrno res)

def rmdir (mountp : Mnt) (name : CStr) : FatProg ff Int := do
  act (.buildAbsPath mountp name)
  let res ← act (.unlink mountp)
  pure (fatfsErrToErrno res)

/-- `vfs_sysop_stat_from_fstat` for this driver: a file is opened and closed again, and what
cannot be opened may be a directory. -/
def stat (mountp : Mnt) (path : CStr) (buf : Stat) : FatProg ff (Int × Stat) := do
  let (err,file) ← open_ mountp ⟨ff.zeroFil,[]⟩ path 0
  if err < 0 then
    let (res,dir) ← opendir mountp ff.zeroDir path
    if res < 0 then
      pure (err,buf)
    else
      let _ ← closedir dir
      pure (0,{ buf with mode := S_IFDIR })
  else
    let (err,buf) ← fstat mountp buf
    let _ ← close file
    pure (err,buf)

end Fatfs

end UcVfs
