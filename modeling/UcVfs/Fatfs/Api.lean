import UcVfs.Vfs.Types

/-!
# The interface of FatFs

Result codes, flags and records of `ff.h`, and the functions that the adapter calls. The
functions are a parameter here: what the adapter does with them does not depend on how they
work.
-/

namespace UcVfs

/-- `FRESULT`. -/
inductive FResult
  | ok
  | diskErr
  | intErr
  | notReady
  | noFile
  | noPath
  | invalidName
  | denied
  | exist
  | invalidObject
  | writeProtected
  | invalidDrive
  | notEnabled
  | noFilesystem
  | mkfsAborted
  | timeout
  | locked
  | notEnoughCore
  | tooManyOpenFiles
  | invalidParameter
  deriving DecidableEq

/-- `EBADFD` is not among the target's error numbers. -/
def fatfsErrToErrno : FResult → Int
  | .ok => 0
  | .diskErr => - EIO
  | .intErr => - EIO
  | .notReady => -ENODEV
  | .noFile => -ENOENT
  | .noPath => -ENOENT
  | .invalidName => -ENOENT
  | .denied => -EACCES
  | .exist => -EEXIST
  | .invalidObject => -EINVAL
  | .writeProtected => -EACCES
  | .invalidDrive => - ENXIO
  | .notEnabled => -ENODEV
  | .noFilesystem => -ENODEV
  | .mkfsAborted => -EINVAL
  | .timeout => -EBUSY
  | .locked => -EACCES
  | .notEnoughCore => -ENOMEM
  | .tooManyOpenFiles => -ENFILE
  | .invalidParameter => -EINVAL

@[simp] theorem fatfsErrToErrno_eq_zero {r : FResult} : fatfsErrToErrno r = 0 ↔ r = .ok := by
  cases r <;> decide

theorem fatfsErrToErrno_neg {r : FResult} (h : r ≠ .ok) : fatfsErrToErrno r < 0 := by
  cases r with
  | ok => exact absurd rfl h
  | _ => decide

/-! Access and open mode flags of `f_open`. -/

def FA_READ : Nat := 0x01
def FA_WRITE : Nat := 0x02
def FA_OPEN_EXISTING : Nat := 0x00
def FA_CREATE_NEW : Nat := 0x04
def FA_CREATE_ALWAYS : Nat := 0x08
def FA_OPEN_ALWAYS : Nat := 0x10
def FA_OPEN_APPEND : Nat := 0x30

/-! Attribute bits of a directory entry. -/

def AM_RDO : Nat := 0x01
def AM_DIR : Nat := 0x10
def AM_ARC : Nat := 0x20

namespace Fatfs

/-- The sector size. -/
def SS : ℕ := 512

end Fatfs

/-- `FILINFO`. -/
structure FilInfo where
  fsize : Nat
  fdate : Nat
  ftime : Nat
  fattrib : Nat
  fname : List Char
  deriving DecidableEq

/-- FatFs with the disks behind it: file and directory objects, everything else as one state,
and the API functions. A mount object names its `FATFS` record; a file or directory object
is passed in and handed back. -/
structure FatFs (Mnt : Type) where
  Fil : Type
  Dir : Type
  σ : Type
  zeroFil : Fil
  zeroDir : Dir
  /-- `fat_disk = ramdisk_open(dno)`, and whether there is such a disk. -/
  openDisk : Nat → σ → Bool × σ
  /-- `memset` of the `FATFS` record. -/
  clear : Mnt → σ → σ
  mount : Mnt → CStr → σ → FResult × σ
  unmount : CStr → σ → FResult × σ
  mkfs : CStr → σ → FResult × σ
  open_ : CStr → Nat → Fil → σ → FResult × Fil × σ
  close : Fil → σ → FResult × Fil × σ
  read : Nat → Fil → σ → (FResult × List UInt8) × Fil × σ
  write : List UInt8 → Fil → σ → (FResult × Nat) × Fil × σ
  sync : Fil → σ → FResult × Fil × σ
  lseek : Nat → Fil → σ → FResult × Fil × σ
  tell : Fil → Nat
  size : Fil → Nat
  stat : CStr → σ → (FResult × FilInfo) × σ
  unlink : CStr → σ → FResult × σ
  rename : CStr → CStr → σ → FResult × σ
  mkdir : CStr → σ → FResult × σ
  opendir : CStr → Dir → σ → FResult × Dir × σ
  readdir : Dir → σ → (FResult × FilInfo) × Dir × σ
  closedir : Dir → σ → FResult × Dir × σ

end UcVfs
