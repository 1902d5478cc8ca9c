import UcVfs.Fatfs.SharedDrive
import Mathlib.Algebra.BigOperators.Group.Finset.Basic
import Mathlib.Data.Fintype.Basic

/-!
# Files numbered by their mounts

The calls as if the mounts shared no table of open files: a descriptor is the number of the open of
its mount that made it. Of the table only its size is left, which bounds how many files are open.
-/

namespace UcVfs

open Framework
open scoped BigOperators

variable (c : FatCore) (Mnt : Type) [DecidableEq Mnt]

structure NumberedVfs where
  fat : FatState (c.fatFs Mnt)
  mounted : Mnt → Bool
  openFiles : Mnt → Nat
  /-- How many opens of the mount have succeeded. -/
  opened : Mnt → Nat
  handles : Mnt → Nat → Option (VfsHandle c Mnt)

/-- A call about one mount, of its descriptor `k` or of a path below its mount point. -/
inductive VolOp
  | format
  | mount
  | umount (force : Bool)
  | open_ (name : CStr) (flags : Nat)
  | read (k count : Nat)
  | write (k : Nat) (src : List UInt8)
  | close (k : Nat)
  | unlink (name : CStr)
  | rename (fromPath toPath : CStr)
  deriving DecidableEq

variable {c Mnt}

namespace NumberedVfs

/-- A driver function runs; `next` is what the call goes on to do with its result. -/
def drive {ρ : Type} (s : NumberedVfs c Mnt) (p : FatProg (c.fatFs Mnt) ρ)
    (next : ρ → NumberedVfs c Mnt → VolResult × NumberedVfs c Mnt) :
    Option (VolResult × NumberedVfs c Mnt) :=
  (p.run FatAct.exec s.fat).map fun v => next v.1 { s with fat := v.2 }

def setHandle (s : NumberedVfs c Mnt) (m : Mnt) (k : Nat) (h : Option (VfsHandle c Mnt)) :
    NumberedVfs c Mnt :=
  { s with handles := Function.update s.handles m (Function.update (s.handles m) k h) }

section Handles

variable (s : NumberedVfs c Mnt) {m n : Mnt} {k j : Nat} (h : Option (VfsHandle c Mnt))

theorem setHandle_handles_self : (s.setHandle m k h).handles m k = h := by
  simp [setHandle]

theorem setHandle_handles_ne (hne : ¬(n = m ∧ j = k)) :
    (s.setHandle m k h).handles n j = s.handles n j := by
  by_cases hn : n = m
  · subst hn
    have hj : j ≠ k := fun hj => hne ⟨rfl,hj⟩
    simp [setHandle,hj]
  · simp [setHandle,hn]

end Handles

def setCounts (s : NumberedVfs c Mnt) (m : Mnt) (openFiles opened : Nat) : NumberedVfs c Mnt :=
  { s with
    openFiles := Function.update s.openFiles m openFiles
    opened := Function.update s.opened m opened }

def noMount (s : NumberedVfs c Mnt) : Option (VolResult × NumberedVfs c Mnt) :=
  some (⟨-ENOENT,[]⟩,s)

def badFd (s : NumberedVfs c Mnt) : Option (VolResult × NumberedVfs c Mnt) := some (⟨-EBADF,[]⟩,s)

def vfsFormat (m : Mnt) (s : NumberedVfs c Mnt) : Option (VolResult × NumberedVfs c Mnt) :=
  if s.mounted m then some (⟨-EBUSY,[]⟩,s)
  else s.drive (Fatfs.format m) fun res s => (⟨res,[]⟩,s)

def vfsMount (m : Mnt) (s : NumberedVfs c Mnt) : Option (VolResult × NumberedVfs c Mnt) :=
  if s.mounted m then some (⟨-EBUSY,[]⟩,s)
  else s.drive (Fatfs.mount m) fun res s =>
    if res < 0 then (⟨res,[]⟩,s)
    else (⟨0,[]⟩,{ s with mounted := Function.update s.mounted m true })

def vfsUmount (m : Mnt) (force : Bool) (s : NumberedVfs c Mnt) :
    Option (VolResult × NumberedVfs c Mnt) :=
  if ¬s.mounted m then some (⟨-EINVAL,[]⟩,s)
  else if 0 < s.openFiles m ∧ ¬force then some (⟨-EBUSY,[]⟩,s)
  else s.drive (Fatfs.umount m) fun res s =>
    if res < 0 then (⟨res,[]⟩,s)
    else (⟨0,[]⟩,{ s with mounted := Function.update s.mounted m false })

def vfsUnlink (m : Mnt) (name : CStr) (s : NumberedVfs c Mnt) :
    Option (VolResult × NumberedVfs c Mnt) :=
  if ¬s.mounted m then s.noMount
  else s.drive (Fatfs.unlink m name) fun res s => (⟨res,[]⟩,s)

/-- Both paths are below the same mount point. -/
def vfsRename (m : Mnt) (fromPath toPath : CStr) (s : NumberedVfs c Mnt) :
    Option (VolResult × NumberedVfs c Mnt) :=
  if ¬s.mounted m then s.noMount
  else s.drive (Fatfs.rename m fromPath toPath) fun res s => (⟨res,[]⟩,s)

def vfsRead (m : Mnt) (k count : Nat) (s : NumberedVfs c Mnt) :
    Option (VolResult × NumberedVfs c Mnt) :=
  match s.handles m k with
  | none => s.badFd
  | some h =>
    if h.flags &&& O_ACCMODE ≠ O_RDONLY ∧ h.flags &&& O_ACCMODE ≠ O_RDWR then s.badFd
    else s.drive (Fatfs.read h.fd count) fun r s =>
      (⟨r.1.1,r.1.2⟩,s.setHandle m k (some { h with fd := r.2 }))

def vfsWrite (m : Mnt) (k : Nat) (src : List UInt8) (s : NumberedVfs c Mnt) :
    Option (VolResult × NumberedVfs c Mnt) :=
  match s.handles m k with
  | none => s.badFd
  | some h =>
    if h.flags &&& O_ACCMODE ≠ O_WRONLY ∧ h.flags &&& O_ACCMODE ≠ O_RDWR then s.badFd
    else s.drive (Fatfs.write h.fd src) fun r s =>
      (⟨r.1,[]⟩,s.setHandle m k (some { h with fd := r.2 }))

/-- The descriptor is freed whatever the driver says. -/
def vfsClose (m : Mnt) (k : Nat) (s : NumberedVfs c Mnt) :
    Option (VolResult × NumberedVfs c Mnt) :=
  match s.handles m k with
  | none => s.badFd
  | some h => s.drive (Fatfs.close h.fd) fun r s =>
    (⟨r.1,[]⟩,(s.setHandle m k none).setCounts m (s.openFiles m - 1) (s.opened m))

variable [Fintype Mnt]

/-- As many files are open as the table has entries. -/
def TableFull (s : NumberedVfs c Mnt) : Prop := VFS_MAX_OPEN_FILES ≤ ∑ m,s.openFiles m

instance (s : NumberedVfs c Mnt) : Decidable s.TableFull := inferInstanceAs (Decidable (_ ≤ _))

def vfsOpen (m : Mnt) (name : CStr) (flags : Nat) (s : NumberedVfs c Mnt) :
    Option (VolResult × NumberedVfs c Mnt) :=
  if ¬s.mounted m then s.noMount
  else if s.TableFull then some (⟨-ENFILE,[]⟩,s)
  else s.drive (Fatfs.open_ m ⟨(c.fatFs Mnt).zeroFil,[]⟩ name flags) fun r s =>
    if r.1 < 0 then (⟨r.1,[]⟩,s)
    else (⟨s.opened m,[]⟩,(s.setHandle m (s.opened m) (some ⟨flags,r.2⟩)).setCounts m
      (s.openFiles m + 1) (s.opened m + 1))

end NumberedVfs

def VolOp.exec [Fintype Mnt] (m : Mnt) :
    VolOp → NumberedVfs c Mnt → Option (VolResult × NumberedVfs c Mnt)
  | format,s => s.vfsFormat m
  | mount,s => s.vfsMount m
  | umount force,s => s.vfsUmount m force
  | open_ name flags,s => s.vfsOpen m name flags
  | read k count,s => s.vfsRead m k count
  | write k src,s => s.vfsWrite m k src
  | close k,s => s.vfsClose m k
  | unlink name,s => s.vfsUnlink m name
  | rename fromPath toPath,s => s.vfsRename m fromPath toPath

end UcVfs
