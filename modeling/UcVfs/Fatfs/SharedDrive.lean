import UcVfs.Fatfs.Adapter
import UcVfs.Fatfs.Volumes
import UcVfs.Vfs.Actions

/-!
# Several FatFS mounts on the single drive

The calls of `vfs.c` about FatFS mounts, one after the other and with the paths already resolved,
over the adapter, the drive and the table of open files, which all mounts share.
-/

namespace UcVfs

open Framework

/-- What a `vfs_file_t` keeps of an open file. -/
structure VfsHandle (c : FatCore) (Mnt : Type) [DecidableEq Mnt] where
  flags : Nat
  fd : FatfsFileDesc (c.fatFs Mnt).Fil

/-- A `vfs_file_t` in use. -/
structure VfsFile (c : FatCore) (Mnt : Type) [DecidableEq Mnt] where
  mp : Mnt
  handle : VfsHandle c Mnt

variable (c : FatCore) (Mnt : Type) [DecidableEq Mnt]

structure FatVfs where
  fat : FatState (c.fatFs Mnt)
  mounted : Mnt → Bool
  openFiles : Mnt → Nat
  /-- `_vfs_open_files`. -/
  files : Fd → Option (VfsFile c Mnt)

/-- A call about a mount, or about a path below its mount point. -/
inductive VfsOp
  | format
  | mount
  | umount (force : Bool)
  | open_ (name : CStr) (flags : Nat)
  | unlink (name : CStr)
  | rename (fromPath toPath : CStr)
  deriving DecidableEq

/-- A call about a descriptor. -/
inductive FdOp
  | read (count : Nat)
  | write (src : List UInt8)
  | close
  deriving DecidableEq

/-- No driver sees a rename from one mount to another. -/
inductive VfsCall (Mnt : Type)
  | on (m : Mnt) (op : VfsOp)
  | fd (fd : Int) (op : FdOp)
  | renameAcross (mFrom mTo : Mnt) (hne : mFrom ≠ mTo) (fromPath toPath : CStr)

/-- What a call returns, and the bytes that it stored. -/
structure VolResult where
  res : Int
  data : List UInt8 := []
  deriving DecidableEq

variable {c Mnt}

/-- The first free entry of the table. -/
def firstFree {α : Type} (files : Fd → Option α) : Option Fd :=
  (List.finRange VFS_MAX_OPEN_FILES).find? fun fd => (files fd).isNone

namespace FatVfs

/-- A driver function runs; `next` is what the call goes on to do with its result. -/
def drive {ρ : Type} (s : FatVfs c Mnt) (p : FatProg (c.fatFs Mnt) ρ)
    (next : ρ → FatVfs c Mnt → VolResult × FatVfs c Mnt) : Option (VolResult × FatVfs c Mnt) :=
  (p.run FatAct.exec s.fat).map fun v => next v.1 { s with fat := v.2 }

def setFile (s : FatVfs c Mnt) (i : Fd) (file : Option (VfsFile c Mnt)) : FatVfs c Mnt :=
  { s with files := Function.update s.files i file }

def setOpenFiles (s : FatVfs c Mnt) (m : Mnt) (openFiles : Nat) : FatVfs c Mnt :=
  { s with openFiles := Function.update s.openFiles m openFiles }

/-- `_find_mount` fails. -/
def noMount (s : FatVfs c Mnt) : Option (VolResult × FatVfs c Mnt) := some (⟨-ENOENT,[]⟩,s)

/-- `_fd_is_valid` fails, or the access mode forbids the call. -/
def badFd (s : FatVfs c Mnt) : Option (VolResult × FatVfs c Mnt) := some (⟨-EBADF,[]⟩,s)

/-- `_fd_is_valid`: the entry of a descriptor that is in use. -/
def file (s : FatVfs c Mnt) (fd : Int) : Option (Fd × VfsFile c Mnt) :=
  if h : 0 ≤ fd ∧ fd.toNat < VFS_MAX_OPEN_FILES then
    (s.files ⟨fd.toNat,h.2⟩).map fun file => (⟨fd.toNat,h.2⟩,file)
  else
    none

def vfsFormat (m : Mnt) (s : FatVfs c Mnt) : Option (VolResult × FatVfs c Mnt) :=
  if s.mounted m then some (⟨-EBUSY,[]⟩,s)
  else s.drive (Fatfs.format m) fun res s => (⟨res,[]⟩,s)

def vfsMount (m : Mnt) (s : FatVfs c Mnt) : Option (VolResult × FatVfs c Mnt) :=
  if s.mounted m then some (⟨-EBUSY,[]⟩,s)
  else s.drive (Fatfs.mount m) fun res s =>
    if res < 0 then (⟨res,[]⟩,s)
    else (⟨0,[]⟩,{ s with mounted := Function.update s.mounted m true })

def vfsUmount (m : Mnt) (force : Bool) (s : FatVfs c Mnt) :
    Option (VolResult × FatVfs c Mnt) :=
  if ¬s.mounted m then some (⟨-EINVAL,[]⟩,s)
  else if 0 < s.openFiles m ∧ ¬force then some (⟨-EBUSY,[]⟩,s)
  else s.drive (Fatfs.umount m) fun res s =>
    if res < 0 then (⟨res,[]⟩,s)
    else (⟨0,[]⟩,{ s with mounted := Function.update s.mounted m false })

/-- The entry that is taken is given back when the driver cannot open the file. -/
def vfsOpen (m : Mnt) (name : CStr) (flags : Nat) (s : FatVfs c Mnt) :
    Option (VolResult × FatVfs c Mnt) :=
  if ¬s.mounted m then s.noMount
  else
    match firstFree s.files with
    | none => some (⟨-ENFILE,[]⟩,s)
    | some i => s.drive (Fatfs.open_ m ⟨(c.fatFs Mnt).zeroFil,[]⟩ name flags) fun r s =>
      if r.1 < 0 then (⟨r.1,[]⟩,s)
      else (⟨(i : Nat),[]⟩,(s.setFile i (some ⟨m,flags,r.2⟩)).setOpenFiles m (s.openFiles m + 1))

def vfsUnlink (m : Mnt) (name : CStr) (s : FatVfs c Mnt) : Option (VolResult × FatVfs c Mnt) :=
  if ¬s.mounted m then s.noMount
  else s.drive (Fatfs.unlink m name) fun res s => (⟨res,[]⟩,s)

/-- Both paths are below the same mount point. -/
def vfsRename (m : Mnt) (fromPath toPath : CStr) (s : FatVfs c Mnt) :
    Option (VolResult × FatVfs c Mnt) :=
  if ¬s.mounted m then s.noMount
  else s.drive (Fatfs.rename m fromPath toPath) fun res s => (⟨res,[]⟩,s)

def vfsRead (fd : Int) (count : Nat) (s : FatVfs c Mnt) : Option (VolResult × FatVfs c Mnt) :=
  match s.file fd with
  | none => s.badFd
  | some (i,⟨m,h⟩) =>
    if h.flags &&& O_ACCMODE ≠ O_RDONLY ∧ h.flags &&& O_ACCMODE ≠ O_RDWR then s.badFd
    else s.drive (Fatfs.read h.fd count) fun r s =>
      (⟨r.1.1,r.1.2⟩,s.setFile i (some ⟨m,{ h with fd := r.2 }⟩))

def vfsWrite (fd : Int) (src : List UInt8) (s : FatVfs c Mnt) :
    Option (VolResult × FatVfs c Mnt) :=
  match s.file fd with
  | none => s.badFd
  | some (i,⟨m,h⟩) =>
    if h.flags &&& O_ACCMODE ≠ O_WRONLY ∧ h.flags &&& O_ACCMODE ≠ O_RDWR then s.badFd
    else s.drive (Fatfs.write h.fd src) fun r s =>
      (⟨r.1,[]⟩,s.setFile i (some ⟨m,{ h with fd := r.2 }⟩))

/-- The descriptor is freed whatever the driver says. -/
def vfsClose (fd : Int) (s : FatVfs c Mnt) : Option (VolResult × FatVfs c Mnt) :=
  match s.file fd with
  | none => s.badFd
  | some (i,⟨m,h⟩) => s.drive (Fatfs.close h.fd) fun r s =>
    (⟨r.1,[]⟩,(s.setFile i none).setOpenFiles m (s.openFiles m - 1))

end FatVfs

def VfsOp.exec (m : Mnt) : VfsOp → FatVfs c Mnt → Option (VolResult × FatVfs c Mnt)
  | format,s => s.vfsFormat m
  | mount,s => s.vfsMount m
  | umount force,s => s.vfsUmount m force
  | open_ name flags,s => s.vfsOpen m name flags
  | unlink name,s => s.vfsUnlink m name
  | rename fromPath toPath,s => s.vfsRename m fromPath toPath

def FdOp.exec (fd : Int) : FdOp → FatVfs c Mnt → Option (VolResult × FatVfs c Mnt)
  | read count,s => s.vfsRead fd count
  | write src,s => s.vfsWrite fd src
  | close,s => s.vfsClose fd

def VfsCall.exec : VfsCall Mnt → FatVfs c Mnt → Option (VolResult × FatVfs c Mnt)
  | on m op,s => op.exec m s
  | fd i op,s => op.exec i s
  | renameAcross mFrom mTo _ _ _,s =>
    if ¬s.mounted mFrom ∨ ¬s.mounted mTo then s.noMount else some (⟨-EXDEV,[]⟩,s)

end UcVfs
