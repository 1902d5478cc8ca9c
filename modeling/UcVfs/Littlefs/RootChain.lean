import UcVfs.Framework.Enumeration
import UcVfs.Littlefs.Adapter

/-!
# The root directory of a littlefs volume

`lfs_dir_read_` of `lfs.c`, over the metadata pairs of a directory as `lfs_dir_fetch` finds them
on the disk.
-/

namespace UcVfs

open Framework

namespace Littlefs

def LFS_NAME_MAX : Nat := 255

/-- The ids of the metadata pairs, one after the other, each with what `lfs_dir_getinfo` says
about it; `none` is `LFS_ERR_NOENT`. A pair that was split off has an id. -/
structure RootChain where
  pairs : List (List (Option LfsInfo))
  split_nonempty : ∀ m ∈ pairs.tail,m ≠ []

def RootChain.entries (t : RootChain) : List LfsInfo := t.pairs.flatten.filterMap id

/-- `lfs_dir_t`; `m` says which metadata pair it has. -/
structure DirObj where
  pos : ℕ
  m : ℕ
  id : ℕ
  deriving DecidableEq

/-- `memset`, and `strcpy` of a short name. -/
def pseudoEntry (name : List Char) : LfsInfo :=
  ⟨LFS_TYPE_DIR,0,name ++ List.replicate (LFS_NAME_MAX + 1 - name.length) nul⟩

def dot : LfsInfo := pseudoEntry ['.']
def dotdot : LfsInfo := pseudoEntry ['.','.']

/-- `lfs_dir_read_`, where no block is bad. -/
def lfsDirRead (t : RootChain) (dir : DirObj) : (Int × LfsInfo) × DirObj :=
  if dir.pos = 0 then ((1,dot),{ dir with pos := dir.pos + 1 })
  else if dir.pos = 1 then ((1,dotdot),{ dir with pos := dir.pos + 1 })
  else
    match findInBlocks id (t.pairs.drop dir.m) dir.m dir.id with
    | some (info,m,i) => ((1,info),⟨dir.pos + 1,m,i + 1⟩)
    | none => ((0,⟨0,0,List.replicate (LFS_NAME_MAX + 1) nul⟩),⟨dir.pos,t.pairs.length,0⟩)

/-- What lies ahead of a directory object. -/
def RootChain.ahead (t : RootChain) (dir : DirObj) : List LfsInfo :=
  [dot,dotdot].drop dir.pos ++ (fromPlace t.pairs dir.m dir.id).filterMap id

theorem RootChain.ahead_start (t : RootChain) : t.ahead ⟨0,0,0⟩ = dot :: dotdot :: t.entries := by
  rw [ahead,fromPlace_zero]
  rfl

/-- `lfs_dir_read_` reports what comes first, or the end. -/
theorem lfsDirRead_spec (t : RootChain) (dir : DirObj) :
    (lfsDirRead t dir).1.1 = 0 ∧ t.ahead dir = [] ∨
      (lfsDirRead t dir).1.1 = 1 ∧
        t.ahead dir = (lfsDirRead t dir).1.2 :: t.ahead (lfsDirRead t dir).2 := by
  obtain ⟨pos,m,i⟩ := dir
  match pos with
  | 0 => exact Or.inr ⟨rfl,rfl⟩
  | 1 => exact Or.inr ⟨rfl,rfl⟩
  | pos + 2 =>
    have hahead : ∀ dir : DirObj,2 ≤ dir.pos →
        t.ahead dir = (fromPlace t.pairs dir.m dir.id).filterMap id := by
      intro dir hpos
      rw [RootChain.ahead,List.drop_of_length_le hpos]
      rfl
    have hread : lfsDirRead t ⟨pos + 2,m,i⟩ =
        match findInBlocks id (t.pairs.drop m) m i with
        | some (info,m,i) => ((1,info),⟨pos + 3,m,i + 1⟩)
        | none => ((0,⟨0,0,List.replicate (LFS_NAME_MAX + 1) nul⟩),⟨pos + 2,t.pairs.length,0⟩) := rfl
    rw [hread]
    rcases findInBlocks_spec id t.pairs m i with ⟨hfind,hnone⟩ | ⟨info,m',i',hfind,hsome⟩
    · left
      rw [hfind,hahead _ (Nat.le_add_left 2 pos)]
      exact ⟨rfl,hnone⟩
    · right
      rw [hfind,hahead _ (Nat.le_add_left 2 pos),hsome]
      exact ⟨rfl,congrArg _ (hahead ⟨pos + 3,m',i' + 1⟩ (Nat.le_add_left 2 (pos + 1))).symm⟩

end Littlefs

end UcVfs
