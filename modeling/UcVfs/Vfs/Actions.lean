import UcVfs.Vfs.Mounts
import UcVfs.Framework.Program

/-!
# Atomic actions of the VFS layer

An action is a region under `_mount_mutex` or `_open_mutex`, a driver callback made outside
them, or one access to a table, a mount or a DIR object.
-/

namespace UcVfs

open Framework

abbrev Fd := Fin VFS_MAX_OPEN_FILES

instance : NeZero VFS_MAX_OPEN_FILES := ⟨by decide⟩

inductive Action (W : World)
  /-- A null dereference. -/
  | fault
  | findMount (name : CStr)
  | mount (mountp : Option W.Mnt)
  | formatCheck (mountp : Option W.Mnt)
  | umountCheck (mountp : Option W.Mnt)
  | umount (m : W.Mnt) (force : Bool)
  | initFd (fOp : Option (FileOps W)) (mountp : W.Mnt) (flags : Nat)
  | fs (m : W.Mnt)
  | fsCall (m : W.Mnt) (req : FsReq)
  | unpin (m : W.Mnt)
  | file (fd : Fd)
  | fileCall (fd : Fd) (req : FileReq)
  | setPos (fd : Fd) (pos : Int)
  | clearTcb (fd : Fd)
  | dir (d : W.Dir)
  | initDir (d : W.Dir) (mountp : W.Mnt) (dOp : DirOps W)
  | dirCall (d : W.Dir) (req : DirReq)
  | clearDir (d : W.Dir)

structure FileRet where
  res : Int
  data : List UInt8
  stat : Stat

structure DirRet where
  res : Int
  entry : Dirent

structure FsRet where
  res : Int
  stat : Stat

/-- What an action answers. -/
abbrev Action.Resp {W : World} : Action W → Type
  | fault => Empty
  | findMount _ => Except Int (W.Mnt × Nat)
  | mount _ | formatCheck _ | umountCheck _ | umount _ _ => Int
  | initFd _ _ _ => Except Int Fd
  | fs _ => Option (FileSystem W)
  | fsCall _ _ => FsRet
  | unpin _ | setPos _ _ | clearTcb _ | initDir _ _ _ | clearDir _ => Unit
  | file _ => File W
  | fileCall _ _ => FileRet
  | dir _ => DirObj W
  | dirCall _ _ => DirRet

variable {W : World}

/-- The entry that `_allocate_fd` tries: the first free one for `VFS_ANY_FD`. -/
def candidateFd (fd : Int) (files : Fd → File W) : Nat :=
  if fd < 0 then
    match (List.finRange VFS_MAX_OPEN_FILES).find? fun fd => (files fd).tcb.isNone with
    | some fd => fd
    | none => VFS_MAX_OPEN_FILES
  else
    fd.toNat

def allocateFd (tcb : W.Task) (fd : Int) (s : State W) : Except Int Fd × State W :=
  let fd := candidateFd fd s.files
  if h : fd < VFS_MAX_OPEN_FILES then
    if (s.files ⟨fd,h⟩).tcb.isSome then
      (.error (-EEXIST),s)
    else
      (.ok ⟨fd,h⟩,s.modifyFile ⟨fd,h⟩ fun e => { e with tcb := some tcb })
  else
    (.error (-ENFILE),s)

/-- `_init_fd` with a null `private_data`. -/
def initFd (tcb : W.Task) (fd : Int) (fOp : Option (FileOps W)) (mountp : W.Mnt) (flags : Nat)
    (s : State W) : Except Int Fd × State W :=
  match allocateFd tcb fd s with
  | (.error res,s) => (.error res,s)
  | (.ok fd,s) =>
    (.ok fd,s.modifyFile fd fun e =>
      { e with mp := some mountp, fOp := fOp, flags := flags, pos := 0, priv := W.nullPtr e.priv })

def VFS_ANY_FD : Int := -1

/-- The section of `vfs_open` under `_open_mutex`. -/
def vfsOpenBody (tcb : W.Task) (fOp : Option (FileOps W)) (mountp : W.Mnt) (flags : Nat)
    (s : State W) : Option (Except Int Fd × State W) := do
  let s := s.lockOpen
  let (fd,s) := initFd tcb VFS_ANY_FD fOp mountp flags s
  let s ← s.unlockOpen
  some (fd,s)

def File.view (e : File W) : FileView W := ⟨e.mp,e.flags,e.pos,e.priv⟩

def DirObj.view (o : DirObj W) : DirView W := ⟨o.mp,o.priv⟩

/-- A file callback changes the position and the private data of its own object only. -/
def fileCallback (fd : Fd) (req : FileReq) (callback : FileView W → W.Drv → FileAns W)
    (s : State W) : FileRet × State W :=
  let ans := callback (s.files fd).view s.drv
  (⟨ans.res,ans.data,ans.stat⟩,
    (s.modifyFile fd fun e => { e with pos := ans.pos, priv := ans.priv }).returned ans.drv
      (.file fd req ans.res))

def dirCallback (d : W.Dir) (req : DirReq) (callback : DirView W → W.Drv → DirAns W)
    (s : State W) : DirRet × State W :=
  let ans := callback (s.dirs d).view s.drv
  (⟨ans.res,ans.entry⟩,
    (s.setDir d { s.dirs d with priv := ans.priv }).returned ans.drv (.dir d req ans.res))

def fsCallback (m : W.Mnt) (req : FsReq) (callback : W.Mnt → W.Drv → FsAns W) (s : State W) :
    FsRet × State W :=
  let ans := callback m s.drv
  (⟨ans.res,ans.stat⟩,s.returned ans.drv (.fs m req ans.res))

/-- An action taken by the task `tcb`; a call through a null pointer is a fault. -/
def Action.exec (tcb : W.Task) : (x : Action W) → State W → Option (x.Resp × State W)
  | fault,_ => none
  | findMount name,s => findMountBody name s
  | mount mountp,s => vfsMountBody mountp s
  | formatCheck mountp,s => vfsFormatCheck mountp s
  | umountCheck mountp,s => vfsUmountCheck mountp s
  | umount m force,s => vfsUmountBody m force s
  | initFd fOp mountp flags,s => vfsOpenBody tcb fOp mountp flags s
  | fs m,s => some ((s.mounts m).fs,s)
  | fsCall m req,s => ((s.mounts m).fs.bind (·.fsCallback req)).map (fsCallback m req · s)
  | unpin m,s => some ((),s.unpin m)
  | file fd,s => some (s.files fd,s)
  | fileCall fd req,s => ((s.files fd).fOp.bind (·.callback req)).map (fileCallback fd req · s)
  | setPos fd pos,s => some ((),s.modifyFile fd fun e => { e with pos := pos })
  | clearTcb fd,s => some ((),s.modifyFile fd fun e => { e with tcb := none })
  | dir d,s => some (s.dirs d,s)
  | initDir d mountp dOp,s => some ((),s.setDir d ⟨some dOp,some mountp,W.zeroed⟩)
  | dirCall d req,s => ((s.dirs d).dOp.bind (·.callback req)).map (dirCallback d req · s)
  | clearDir d,s => some ((),s.setDir d ⟨none,none,W.zeroed⟩)

theorem State.modifyFile_modifyFile (s : State W) (fd : Fd) (f g : File W → File W) :
    (s.modifyFile fd f).modifyFile fd g = s.modifyFile fd (g ∘ f) := by
  simp [State.modifyFile]

private theorem candidateFd_any (files : Fd → File W)
    (h : candidateFd VFS_ANY_FD files < VFS_MAX_OPEN_FILES) :
    (files ⟨candidateFd VFS_ANY_FD files,h⟩).tcb = none := by
  have hneg : VFS_ANY_FD < 0 := by decide
  cases hf : (List.finRange VFS_MAX_OPEN_FILES).find? fun fd => (files fd).tcb.isNone with
  | none =>
    have : candidateFd VFS_ANY_FD files = VFS_MAX_OPEN_FILES := by simp [candidateFd,hneg,hf]
    omega
  | some fd =>
    have hc : candidateFd VFS_ANY_FD files = fd := by simp [candidateFd,hneg,hf]
    have hfree := List.find?_some hf
    simpa [hc] using hfree

/-- The object that `_init_fd` makes of an entry. -/
def File.opened (tcb : W.Task) (fOp : Option (FileOps W)) (mountp : W.Mnt) (flags : Nat)
    (e : File W) : File W :=
  ⟨fOp,some mountp,flags,0,some tcb,W.nullPtr e.priv⟩

private theorem candidateFd_full (files : Fd → File W)
    (h : ¬candidateFd VFS_ANY_FD files < VFS_MAX_OPEN_FILES) (f : Fd) : (files f).tcb.isSome := by
  have hneg : VFS_ANY_FD < 0 := by decide
  cases hf : (List.finRange VFS_MAX_OPEN_FILES).find? fun fd => (files fd).tcb.isNone with
  | none => simpa [Option.isSome_iff_ne_none] using List.find?_eq_none.mp hf f (List.mem_finRange f)
  | some fd =>
    have hc : candidateFd VFS_ANY_FD files = fd := by simp [candidateFd,hneg,hf]
    exact absurd (hc ▸ fd.isLt) h

/-- `vfs_open` under `_open_mutex` initialises a free entry, or finds none and does nothing. -/
theorem vfsOpenBody_outcome (tcb : W.Task) (fOp : Option (FileOps W)) (mountp : W.Mnt)
    (flags : Nat) (s : State W) :
    (∀ f,(s.files f).tcb.isSome) ∧
      vfsOpenBody tcb fOp mountp flags s = some (.error (-ENFILE),s) ∨
    ∃ fd,(s.files fd).tcb = none ∧ vfsOpenBody tcb fOp mountp flags s =
      some (.ok fd,s.modifyFile fd (File.opened tcb fOp mountp flags)) := by
  have hfiles : s.lockOpen.files = s.files := rfl
  by_cases h : candidateFd VFS_ANY_FD s.files < VFS_MAX_OPEN_FILES
  · have hfree := candidateFd_any s.files h
    refine Or.inr ⟨⟨_,h⟩,hfree,?_⟩
    simp [vfsOpenBody,initFd,allocateFd,hfiles,h,hfree,State.modifyFile_modifyFile]
    rfl
  · refine Or.inl ⟨candidateFd_full s.files h,?_⟩
    simp [vfsOpenBody,initFd,allocateFd,hfiles,h]
    rfl

end UcVfs
