import UcVfs.Vfs.Clist
import Mathlib.Algebra.Order.Ring.Int
import Mathlib.Data.Fintype.Basic

/-!
# Data model of the VFS layer

The records of `vfs.h` and the global state of `vfs.c`. Drivers are tables of optional
callbacks over an arbitrary driver state; a null function pointer is `none`.
-/

namespace UcVfs

def nul : Char := '\x00'

/-- A NUL-terminated string: the characters before the terminator. -/
@[ext] structure CStr where
  chars : List Char
  noNul : nul ∉ chars
  deriving DecidableEq

namespace CStr

def ofList (cs : List Char) : CStr where
  chars := cs.takeWhile (· ≠ nul)
  noNul := by
    intro h
    have hall := List.all_eq_true.mp (List.all_takeWhile (p := (· ≠ nul)) (l := cs)) nul h
    simp at hall

def length (p : CStr) : Nat := p.chars.length

/-- `p[i]`, for `i` up to and including the terminator. -/
def at_ (p : CStr) (i : Nat) : Char := p.chars.getD i nul

/-- `p + n`, for `n` up to the length. -/
def drop (p : CStr) (n : Nat) : CStr where
  chars := p.chars.drop n
  noNul := fun h => p.noNul (List.mem_of_mem_drop h)

/-- `strncmp(a, b, n) == 0`. -/
def strncmpEq (a b : CStr) (n : Nat) : Bool :=
  (a.chars ++ [nul]).take n == (b.chars ++ [nul]).take n

def root : CStr := ⟨['/'],by decide⟩

end CStr

/-- Copies at most `n` characters and fills up to `n` with NUL. -/
def strncpy (dst src : List Char) (n : Nat) : List Char :=
  let chars := (src.takeWhile (· ≠ nul)).take n
  chars ++ List.replicate (n - chars.length) nul ++ dst.drop n

/-! `errno.h` of the target's C library. -/

def EPERM : Int := 1
def ENOENT : Int := 2
def EIO : Int := 5
def ENXIO : Int := 6
def E2BIG : Int := 7
def EBADF : Int := 9
def ENOMEM : Int := 12
def EACCES : Int := 13
def EFAULT : Int := 14
def EBUSY : Int := 16
def EEXIST : Int := 17
def EXDEV : Int := 18
def ENODEV : Int := 19
def ENOTDIR : Int := 20
def EISDIR : Int := 21
def EINVAL : Int := 22
def ENFILE : Int := 23
def ENOSPC : Int := 28
def EROFS : Int := 30
def ENOTEMPTY : Int := 90
def ENAMETOOLONG : Int := 91
def ENOTSUP : Int := 134
def EOVERFLOW : Int := 139

/-! `fcntl.h` of the target's C library. -/

def O_RDONLY : Nat := 0
def O_WRONLY : Nat := 1
def O_RDWR : Nat := 2
def O_ACCMODE : Nat := 3
def O_APPEND : Nat := 0x0008
def O_CREAT : Nat := 0x0200
def O_TRUNC : Nat := 0x0400
def O_EXCL : Nat := 0x0800

def SEEK_SET : Int := 0
def SEEK_CUR : Int := 1
def SEEK_END : Int := 2

/-- A 32-bit `off_t`. -/
abbrev OffT := {off : Int // -2 ^ 31 ≤ off ∧ off < 2 ^ 31}

/-- What an addition of `off_t` leaves. C does not define an overflow; on the target it wraps. -/
def wrapOff (n : Int) : Int := n.bmod (2 ^ 32)

/-! `sys/stat.h` of the target's C library. -/

def S_IFDIR : Nat := 0o040000
def S_IFREG : Nat := 0o100000
def S_IRUSR : Nat := 0o400
def S_IRGRP : Nat := 0o040
def S_IROTH : Nat := 0o004
def S_IWUSR : Nat := 0o200
def S_IWGRP : Nat := 0o020
def S_IWOTH : Nat := 0o002

def VFS_MAX_OPEN_FILES : Nat := 16
def VFS_NAME_MAX : Nat := 31
def VFS_FS_FLAG_WANT_ABS_PATH : Nat := 1

/-- What a system is made of: finitely many mount objects, DIR objects and tasks, what the
drivers keep behind their callbacks, and the contents of the `private_data` unions. Storing a
null `ptr` overwrites one member of the union; `memset` zeroes all of it. -/
structure World where
  Mnt : Type
  Dir : Type
  Task : Type
  Drv : Type
  Priv : Type
  nullPtr : Priv → Priv
  zeroed : Priv
  decMnt : DecidableEq Mnt
  finMnt : Fintype Mnt
  decDir : DecidableEq Dir
  finDir : Fintype Dir
  decTask : DecidableEq Task
  finTask : Fintype Task

attribute [instance] World.decMnt World.finMnt World.decDir World.finDir World.decTask
  World.finTask

/-- The members of `struct stat` that a driver fills in. -/
structure Stat where
  ino : Nat
  mode : Nat
  size : Int
  mtime : Int
  deriving DecidableEq

def Stat.zero : Stat := ⟨0,0,0,0⟩

structure Dirent where
  ino : Nat
  name : List Char
  deriving DecidableEq

def Dirent.zero : Dirent := ⟨0,[]⟩

variable (W : World)

/-- What a file callback is asked; `write` carries the bytes of its source. -/
inductive FileReq
  | open_ (name : CStr) (flags mode : Nat)
  | close
  | fstat
  | lseek (off whence : Int)
  | read (nbytes : Nat)
  | write (src : List UInt8)
  | fsync

/-- What a file callback leaves: its result, the bytes or the record it stored for the
caller, and the members of the file object that it may change. -/
structure FileAns where
  res : Int
  data : List UInt8
  stat : Stat
  pos : Int
  priv : W.Priv
  drv : W.Drv

/-- `readdir` carries what the caller's record holds. -/
inductive DirReq
  | opendir (dirname : CStr)
  | readdir (entry : Dirent)
  | closedir

structure DirAns where
  res : Int
  entry : Dirent
  priv : W.Priv
  drv : W.Drv

inductive FsReq
  | format
  | mount
  | umount
  | rename (fromPath toPath : CStr)
  | unlink (name : CStr)
  | mkdir (name : CStr) (mode : Nat)
  | rmdir (name : CStr)
  | stat (path : CStr)
  deriving DecidableEq

structure FsAns where
  res : Int
  stat : Stat
  drv : W.Drv

/-- The part of `vfs_file_t` that a callback can see: its mount, flags, position and data. -/
structure FileView where
  mp : Option W.Mnt
  flags : Nat
  pos : Int
  priv : W.Priv

structure DirView where
  mp : Option W.Mnt
  priv : W.Priv

/-- `vfs_file_ops_t`. -/
structure FileOps where
  open_ : Option (CStr → Nat → Nat → FileView W → W.Drv → FileAns W)
  close : Option (FileView W → W.Drv → FileAns W)
  fstat : Option (FileView W → W.Drv → FileAns W)
  lseek : Option (Int → Int → FileView W → W.Drv → FileAns W)
  read : Option (Nat → FileView W → W.Drv → FileAns W)
  write : Option (List UInt8 → FileView W → W.Drv → FileAns W)
  fsync : Option (FileView W → W.Drv → FileAns W)

/-- `vfs_dir_ops_t`. -/
structure DirOps where
  opendir : Option (CStr → DirView W → W.Drv → DirAns W)
  readdir : Option (Dirent → DirView W → W.Drv → DirAns W)
  closedir : Option (DirView W → W.Drv → DirAns W)

/-- `vfs_file_system_ops_t`. -/
structure FsOps where
  format : Option (W.Mnt → W.Drv → FsAns W)
  mount : Option (W.Mnt → W.Drv → FsAns W)
  umount : Option (W.Mnt → W.Drv → FsAns W)
  rename : Option (CStr → CStr → W.Mnt → W.Drv → FsAns W)
  unlink : Option (CStr → W.Mnt → W.Drv → FsAns W)
  mkdir : Option (CStr → Nat → W.Mnt → W.Drv → FsAns W)
  rmdir : Option (CStr → W.Mnt → W.Drv → FsAns W)
  stat : Option (CStr → W.Mnt → W.Drv → FsAns W)

variable {W}

/-- The function pointer that a request goes through, applied to the request. -/
def FileOps.callback (ops : FileOps W) : FileReq → Option (FileView W → W.Drv → FileAns W)
  | .open_ name flags mode => ops.open_.map fun f => f name flags mode
  | .close => ops.close
  | .fstat => ops.fstat
  | .lseek off whence => ops.lseek.map fun f => f off whence
  | .read nbytes => ops.read.map fun f => f nbytes
  | .write src => ops.write.map fun f => f src
  | .fsync => ops.fsync

def DirOps.callback (ops : DirOps W) : DirReq → Option (DirView W → W.Drv → DirAns W)
  | .opendir dirname => ops.opendir.map fun f => f dirname
  | .readdir entry => ops.readdir.map fun f => f entry
  | .closedir => ops.closedir

def FsOps.callback (ops : FsOps W) : FsReq → Option (W.Mnt → W.Drv → FsAns W)
  | .format => ops.format
  | .mount => ops.mount
  | .umount => ops.umount
  | .rename fromPath toPath => ops.rename.map fun f => f fromPath toPath
  | .unlink name => ops.unlink.map fun f => f name
  | .mkdir name mode => ops.mkdir.map fun f => f name mode
  | .rmdir name => ops.rmdir.map fun f => f name
  | .stat path => ops.stat.map fun f => f path

variable (W)

/-- `vfs_file_system_t`. -/
structure FileSystem where
  fOp : Option (FileOps W)
  dOp : Option (DirOps W)
  fsOp : Option (FsOps W)
  flags : Nat

/-- `vfs_mount_t`. Its `list_entry` lives in the heap of the mount list; `private_data` and
`dno` are behind the driver state. -/
structure Mount where
  fs : Option (FileSystem W)
  mountPoint : Option CStr
  mountPointLen : Nat
  openFiles : UInt16

/-- `vfs_file_t`. -/
structure File where
  fOp : Option (FileOps W)
  mp : Option W.Mnt
  flags : Nat
  pos : Int
  tcb : Option W.Task
  priv : W.Priv

/-- `vfs_DIR`. -/
structure DirObj where
  dOp : Option (DirOps W)
  mp : Option W.Mnt
  priv : W.Priv

/-- One driver callback that was made, with its result. -/
inductive Call
  | fs (m : W.Mnt) (req : FsReq) (res : Int)
  | file (fd : Fin VFS_MAX_OPEN_FILES) (req : FileReq) (res : Int)
  | dir (d : W.Dir) (req : DirReq) (res : Int)

/-- The static data of `vfs.c`, the mount and DIR objects, the drivers behind them, and how
deep each mutex is nested. `calls` records the driver callbacks made so far, latest first. -/
structure State where
  mounts : W.Mnt → Mount W
  mountsList : Clist W.Mnt
  files : Fin VFS_MAX_OPEN_FILES → File W
  dirs : W.Dir → DirObj W
  drv : W.Drv
  mountMutex : Nat
  openMutex : Nat
  calls : List (Call W)

variable {W}

/-- The callback that `mountp->fs->fs_op` has for a request, when there is one. -/
def FileSystem.fsCallback (fs : FileSystem W) (req : FsReq) :
    Option (W.Mnt → W.Drv → FsAns W) := fs.fsOp.bind (·.callback req)

namespace State

def modifyMount (s : State W) (m : W.Mnt) (f : Mount W → Mount W) :
    State W := { s with mounts := Function.update s.mounts m (f (s.mounts m)) }

/-- `mountp->open_files++`. -/
def pin (s : State W) (m : W.Mnt) : State W :=
  s.modifyMount m fun o => { o with openFiles := o.openFiles + 1 }

/-- `mountp->open_files--`. -/
def unpin (s : State W) (m : W.Mnt) : State W :=
  s.modifyMount m fun o => { o with openFiles := o.openFiles - 1 }

def modifyFile (s : State W) (fd : Fin VFS_MAX_OPEN_FILES) (f : File W → File W) : State W :=
  { s with files := Function.update s.files fd (f (s.files fd)) }

def setDir (s : State W) (d : W.Dir) (obj : DirObj W) : State W :=
  { s with dirs := Function.update s.dirs d obj }

/-- A callback returned: the driver's state and the record of the call. -/
def returned (s : State W) (drv : W.Drv) (call : Call W) : State W :=
  { s with drv := drv, calls := call :: s.calls }

def lockMount (s : State W) : State W := { s with mountMutex := s.mountMutex + 1 }

/-- Unlocking a mutex that is not held is a fault. -/
def unlockMount (s : State W) : Option (State W) :=
  match s.mountMutex with
  | 0 => none
  | depth + 1 => some { s with mountMutex := depth }

def lockOpen (s : State W) : State W := { s with openMutex := s.openMutex + 1 }

def unlockOpen (s : State W) : Option (State W) :=
  match s.openMutex with
  | 0 => none
  | depth + 1 => some { s with openMutex := depth }

end State

end UcVfs
