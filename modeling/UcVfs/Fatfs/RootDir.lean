import UcVfs.Fatfs.Api
import UcVfs.Framework.Flags
import Mathlib.Logic.Function.Basic

/-!
# Files in a directory of a FAT volume

`f_open`, `f_sync` and their neighbours of `ff.c` where the path leads to a name in one
directory, the name is valid, and neither the disk nor the directory is full. Clusters and
sectors are not modelled: an entry has the contents of its chain.
-/

namespace UcVfs

open Framework

/-! Flags of a file object that no caller passes. -/

def FA_SEEKEND : Nat := 0x20
def FA_MODIFIED : Nat := 0x40

/-- A directory entry with the data of its cluster chain, of which `fileSize` bytes count. -/
structure DirEntry where
  attr : Nat
  fileSize : Nat
  chain : List UInt8
  deriving DecidableEq

namespace DirEntry

def data (e : DirEntry) : List UInt8 := e.chain.take e.fileSize

/-- As `f_open` leaves the entry of a new or overwritten file. -/
def empty : DirEntry := ⟨AM_ARC,0,[]⟩

/-- Neither a directory nor read-only. -/
def Plain (e : DirEntry) : Prop := e.attr &&& (AM_RDO ||| AM_DIR) = 0

instance (e : DirEntry) : Decidable e.Plain := inferInstanceAs (Decidable (_ = _))

end DirEntry

abbrev RootDir (Name : Type) := Name → Option DirEntry

/-- `FIL`: `dirPtr` is where the entry of the file is, `buf` the data that the object sees. -/
structure FilObj (Name : Type) where
  dirPtr : Option Name
  flag : Nat
  fptr : Nat
  objsize : Nat
  buf : List UInt8

/-- The contents that the object sees. -/
def FilObj.data {Name : Type} (fp : FilObj Name) : List UInt8 := fp.buf.take fp.objsize

variable {Name : Type} [DecidableEq Name]

/-- The part of `f_open` that looks the file up, creates or empties it. -/
def createOrOpen (name : Name) (mode : Nat) (dir : RootDir Name) :
    FResult × Nat × RootDir Name :=
  if mode &&& (FA_CREATE_ALWAYS ||| FA_OPEN_ALWAYS ||| FA_CREATE_NEW) ≠ 0 then
    let (res,mode,dir) : FResult × Nat × RootDir Name :=
      match dir name with
      | none => (.ok,mode ||| FA_CREATE_ALWAYS,Function.update dir name (some ⟨0,0,[]⟩))
      | some e =>
        if e.attr &&& (AM_RDO ||| AM_DIR) ≠ 0 then (.denied,mode,dir)
        else if mode &&& FA_CREATE_NEW ≠ 0 then (.exist,mode,dir)
        else (.ok,mode,dir)
    if res = .ok ∧ mode &&& FA_CREATE_ALWAYS ≠ 0 then
      (res,mode,Function.update dir name (some .empty))
    else
      (res,mode,dir)
  else
    match dir name with
    | none => (.noFile,mode,dir)
    | some e =>
      if e.attr &&& AM_DIR ≠ 0 then (.noFile,mode,dir)
      else if mode &&& FA_WRITE ≠ 0 ∧ e.attr &&& AM_RDO ≠ 0 then (.denied,mode,dir)
      else (.ok,mode,dir)

def fOpen (fp : FilObj Name) (name : Name) (mode : Nat) (dir : RootDir Name) :
    (FResult × FilObj Name) × RootDir Name :=
  let mode := mode &&&
    (FA_READ ||| FA_WRITE ||| FA_CREATE_ALWAYS ||| FA_CREATE_NEW ||| FA_OPEN_ALWAYS |||
      FA_OPEN_APPEND)
  let (res,mode,dir) := createOrOpen name mode dir
  if res = .ok then
    let mode := if mode &&& FA_CREATE_ALWAYS ≠ 0 then mode ||| FA_MODIFIED else mode
    let e := (dir name).getD .empty
    let fptr := if mode &&& FA_SEEKEND ≠ 0 ∧ 0 < e.fileSize then e.fileSize else 0
    ((res,⟨some name,mode,fptr,e.fileSize,e.chain⟩),dir)
  else
    ((res,fp),dir)

/-- The entry is found again by its place, not by its name. -/
def fSync (fp : FilObj Name) (dir : RootDir Name) : (FResult × FilObj Name) × RootDir Name :=
  match fp.dirPtr with
  | none => ((.invalidObject,fp),dir)
  | some name =>
    if fp.flag &&& FA_MODIFIED ≠ 0 then
      let e := (dir name).getD .empty
      ((.ok,{ fp with flag := fp.flag &&& (0xFF ^^^ FA_MODIFIED) }),
        Function.update dir name (some ⟨e.attr ||| AM_ARC,fp.objsize,fp.buf⟩))
    else
      ((.ok,fp),dir)

def fClose (fp : FilObj Name) (dir : RootDir Name) : (FResult × FilObj Name) × RootDir Name :=
  let ((res,fp),dir) := fSync fp dir
  if res = .ok then ((res,{ fp with dirPtr := none }),dir) else ((res,fp),dir)

/-- The contents of the files. -/
def RootDir.files (dir : RootDir Name) (name : Name) : Option (List UInt8) :=
  (dir name).map DirEntry.data

section Opening

variable {dir : RootDir Name} {name : Name} {mode : Nat} {e : DirEntry}

theorem DirEntry.Plain.not_dir (h : e.Plain) : ¬AnyFlag e.attr AM_DIR := by
  intro hdir
  exact (anyFlag_or e.attr AM_RDO AM_DIR).mpr (Or.inr hdir) h

theorem DirEntry.Plain.not_readOnly (h : e.Plain) : ¬AnyFlag e.attr AM_RDO := by
  intro hrdo
  exact (anyFlag_or e.attr AM_RDO AM_DIR).mpr (Or.inl hrdo) h

variable (mode) in
/-- A file is created for every mode but that of opening an existing one. -/
theorem createOrOpen_absent (hfile : dir name = none) :
    createOrOpen name mode dir =
      if AnyFlag mode (FA_CREATE_ALWAYS ||| FA_OPEN_ALWAYS ||| FA_CREATE_NEW) then
        (.ok,mode ||| FA_CREATE_ALWAYS,Function.update dir name (some .empty))
      else
        (.noFile,mode,dir) := by
  have hset : AnyFlag (mode ||| FA_CREATE_ALWAYS) FA_CREATE_ALWAYS := anyFlag_or_self (by decide)
  simp only [createOrOpen,hfile,true_and,if_pos hset,Function.update_idem]

variable (mode) in
theorem createOrOpen_exists (hfile : dir name = some e) (hplain : e.Plain) :
    createOrOpen name mode dir =
      if AnyFlag mode FA_CREATE_NEW then (.exist,mode,dir)
      else if AnyFlag mode FA_CREATE_ALWAYS then
        (.ok,mode,Function.update dir name (some .empty))
      else
        (.ok,mode,dir) := by
  have hplain' : ¬AnyFlag e.attr (AM_RDO ||| AM_DIR) := not_not.mpr hplain
  simp only [createOrOpen,hfile,if_neg hplain',if_neg hplain.not_dir,hplain.not_readOnly,and_false,
    if_false]
  by_cases hcreate : AnyFlag mode (FA_CREATE_ALWAYS ||| FA_OPEN_ALWAYS ||| FA_CREATE_NEW)
  · rw [if_pos hcreate]
    by_cases hnew : AnyFlag mode FA_CREATE_NEW
    · simp [if_pos hnew]
    · simp only [if_neg hnew,true_and]
  · rw [if_neg hcreate]
    rw [anyFlag_or,anyFlag_or,not_or,not_or] at hcreate
    rw [if_neg hcreate.2,if_neg hcreate.1.1]

variable (fp : FilObj Name)
  (hmask : mode &&& (FA_READ ||| FA_WRITE ||| FA_CREATE_ALWAYS ||| FA_CREATE_NEW |||
    FA_OPEN_ALWAYS ||| FA_OPEN_APPEND) = mode)

include hmask

variable (name dir) in
/-- Opening is the lookup; filling in the file object touches nothing else. -/
theorem fOpen_eq : (fOpen fp name mode dir).1.1 = (createOrOpen name mode dir).1 ∧
    (fOpen fp name mode dir).2 = (createOrOpen name mode dir).2.2 := by
  rw [fOpen,hmask]
  dsimp only
  by_cases hres : (createOrOpen name mode dir).1 = .ok
  · rw [if_pos hres]
    exact ⟨rfl,rfl⟩
  · rw [if_neg hres]
    exact ⟨rfl,rfl⟩

/-- The file object sees the entry that the lookup left. -/
theorem fOpen_data (hres : (createOrOpen name mode dir).1 = .ok)
    (hentry : (createOrOpen name mode dir).2.2 name = some e) :
    (fOpen fp name mode dir).1.2.data = e.data := by
  rw [fOpen,hmask]
  dsimp only
  rw [if_pos hres,hentry,Option.getD_some]
  rfl

end Opening

end UcVfs
