import UcVfs.Framework.Locks
import UcVfs.Vfs.Operations

/-!
# Inside the locked regions

The regions under `_mount_mutex` and `_open_mutex` as programs over single steps: taking and
giving back a mutex, an access to the list of mounts, and what is done to a mount or a file
object. Running such a program is the atomic action that stands for it.
-/

namespace UcVfs

open Framework

variable {W : World}

/-- The mutexes of `vfs.c`. -/
inductive VfsMutex
  | mount
  | open_
  deriving DecidableEq

/-- A step of a region. `vfs` is an action that is no region. -/
inductive FineAct (W : World)
  | lock (l : VfsMutex)
  | unlock (l : VfsMutex)
  | listHead
  | listFind (m : W.Mnt)
  | listSearch (name : CStr) (last : W.Mnt)
  | listRpush (m : W.Mnt)
  | listRemove (m : W.Mnt)
  | mountObj (m : W.Mnt)
  | setLen (m : W.Mnt) (len : Nat)
  | pin (m : W.Mnt)
  | initFd (fOp : Option (FileOps W)) (mountp : W.Mnt) (flags : Nat)
  | vfs (x : Action W)

abbrev FineAct.Resp : FineAct W → Type
  | lock _ | unlock _ | listRpush _ | setLen _ _ | pin _ => Unit
  | listHead | listFind _ | listRemove _ => Option W.Mnt
  | listSearch _ _ => FindAcc W
  | mountObj _ => Mount W
  | initFd _ _ _ => Except Int Fd
  | vfs x => x.Resp

def FineAct.exec (tcb : W.Task) : (x : FineAct W) → State W → Option (x.Resp × State W)
  | lock .mount,s => some ((),s.lockMount)
  | lock .open_,s => some ((),s.lockOpen)
  | unlock .mount,s => s.unlockMount.map fun s => ((),s)
  | unlock .open_,s => s.unlockOpen.map fun s => ((),s)
  | listHead,s => some (s.mountsList.head,s)
  | listFind m,s => (s.mountsList.find (listBound W) m).map fun node => (node,s)
  | listSearch name last,s =>
    match walk s.mountsList.next last (findMountRound s.mounts name) (listBound W) last
      ⟨none,0⟩ with
    | some (.ok acc) => some (acc,s)
    | _ => none
  | listRpush m,s => some ((),{ s with mountsList := s.mountsList.rpush m })
  | listRemove m,s => (s.mountsList.remove (listBound W) m).map fun (node,mountsList) =>
    (node,{ s with mountsList := mountsList })
  | mountObj m,s => some (s.mounts m,s)
  | setLen m len,s => some ((),s.modifyMount m fun o => { o with mountPointLen := len })
  | pin m,s => some ((),s.pin m)
  | initFd fOp mountp flags,s => some (UcVfs.initFd tcb VFS_ANY_FD fOp mountp flags s)
  | vfs x,s => x.exec tcb s

namespace Fine

abbrev FProg (W : World) (ρ : Type) := Prog (FineAct.Resp (W := W)) ρ

abbrev act (x : FineAct W) : FProg W x.Resp := Prog.act x

def crash {ρ : Type} : FProg W ρ := Prog.step (.vfs .fault) fun r => nomatch r

/-- `mountp->fs`, used as a pointer. -/
def mountFs (m : W.Mnt) : FProg W (FileSystem W) := do
  let o ← act (.mountObj m)
  match o.fs with
  | none => crash
  | some fs => pure fs

def checkMount (mountp : Option W.Mnt) : FProg W Int :=
  match mountp with
  | none => pure (-EINVAL)
  | some m => do
    let o ← act (.mountObj m)
    match o.fs,o.mountPoint with
    | some _,some mountPoint =>
      if mountPoint.at_ 0 ≠ '/' then
        pure (-EINVAL)
      else
        act (.setLen m mountPoint.length)
        act (.lock .mount)
        let found ← act (.listFind m)
        match found with
        | some _ =>
          act (.unlock .mount)
          pure (-EBUSY)
        | none => pure 0
    | _,_ => pure (-EINVAL)

/-- A callback of `fs_op` that a driver does not need to implement; 0 when it is missing. -/
def callFs (fs : FileSystem W) (m : W.Mnt) (req : FsReq) : FProg W Int :=
  match fs.fsCallback req with
  | none => pure 0
  | some _ => do
    let ans ← act (.vfs (.fsCall m req))
    pure ans.res

def vfsMount (mountp : Option W.Mnt) : FProg W Int := do
  let ret ← checkMount mountp
  if ret < 0 then
    pure ret
  else
    match mountp with
    | none => crash
    | some m =>
      let fs ← mountFs m
      let res ← callFs fs m .mount
      if res < 0 then
        act (.unlock .mount)
        pure res
      else
        act (.listRpush m)
        act (.unlock .mount)
        pure 0

def vfsFormatCheck (mountp : Option W.Mnt) : FProg W Int := do
  let ret ← checkMount mountp
  if ret < 0 then
    pure ret
  else
    act (.unlock .mount)
    pure ret

def vfsUmountCheck (mountp : Option W.Mnt) : FProg W Int := do
  let ret ← checkMount mountp
  if ret = 0 then
    act (.unlock .mount)
    pure ret
  else
    pure ret

def vfsUmount (m : W.Mnt) (force : Bool) : FProg W Int := do
  act (.lock .mount)
  let o ← act (.mountObj m)
  if o.openFiles > 0 ∧ ¬force then
    act (.unlock .mount)
    pure (-EBUSY)
  else
    let fs ← mountFs m
    let res ← callFs fs m .umount
    if res < 0 then
      act (.unlock .mount)
      pure res
    else
      let node ← act (.listRemove m)
      match node with
      | none =>
        act (.unlock .mount)
        pure (-EINVAL)
      | some _ =>
        act (.unlock .mount)
        pure 0

def findMount (name : CStr) : FProg W (Except Int (W.Mnt × Nat)) := do
  act (.lock .mount)
  let head ← act .listHead
  match head with
  | none =>
    act (.unlock .mount)
    pure (.error (-ENOENT))
  | some last =>
    let acc ← act (.listSearch name last)
    match acc.mountp with
    | none =>
      act (.unlock .mount)
      pure (.error (-ENOENT))
    | some m =>
      act (.pin m)
      act (.unlock .mount)
      pure (.ok (m,acc.longestMatch))

/-- The section of `vfs_open` under `_open_mutex`. -/
def vfsOpen (fOp : Option (FileOps W)) (mountp : W.Mnt) (flags : Nat) :
    FProg W (Except Int Fd) := do
  act (.lock .open_)
  let fd ← act (.initFd fOp mountp flags)
  act (.unlock .open_)
  pure fd

end Fine

/-- The steps of an action. -/
def Action.fine : (x : Action W) → Prog (FineAct.Resp (W := W)) x.Resp
  | findMount name => Fine.findMount name
  | mount mountp => Fine.vfsMount mountp
  | formatCheck mountp => Fine.vfsFormatCheck mountp
  | umountCheck mountp => Fine.vfsUmountCheck mountp
  | umount m force => Fine.vfsUmount m force
  | initFd fOp mountp flags => Fine.vfsOpen fOp mountp flags
  | fault => Fine.act (.vfs fault)
  | fs m => Fine.act (.vfs (fs m))
  | fsCall m req => Fine.act (.vfs (fsCall m req))
  | unpin m => Fine.act (.vfs (unpin m))
  | file fd => Fine.act (.vfs (file fd))
  | fileCall fd req => Fine.act (.vfs (fileCall fd req))
  | setPos fd pos => Fine.act (.vfs (setPos fd pos))
  | clearTcb fd => Fine.act (.vfs (clearTcb fd))
  | dir d => Fine.act (.vfs (dir d))
  | initDir d mountp dOp => Fine.act (.vfs (initDir d mountp dOp))
  | dirCall d req => Fine.act (.vfs (dirCall d req))
  | clearDir d => Fine.act (.vfs (clearDir d))

section Runs

variable (tcb : W.Task)

theorem checkMount_run (mountp : Option W.Mnt) (s : State W) :
    (Fine.checkMount mountp).run (FineAct.exec tcb) s = checkMount mountp s := by
  cases mountp with
  | none => rfl
  | some m =>
    simp only [Fine.checkMount,checkMount,Prog.run_act_bind,FineAct.exec,Option.bind_some]
    cases (s.mounts m).fs with
    | none => rfl
    | some fs =>
      cases (s.mounts m).mountPoint with
      | none => rfl
      | some p =>
        by_cases hslash : p.at_ 0 ≠ '/'
        · simp only [if_pos hslash]
          rfl
        · simp only [if_neg hslash,Prog.run_act_bind,FineAct.exec,Option.bind_some]
          generalize (s.modifyMount m _).lockMount = s
          cases s.mountsList.find (listBound W) m with
          | none => rfl
          | some found =>
            cases found with
            | none => rfl
            | some node =>
              simp only [Option.map_some,Option.bind_some,Prog.run_act_bind,FineAct.exec]
              cases s.unlockMount with
              | none => rfl
              | some s => rfl

theorem mountFs_run {ρ : Type} (m : W.Mnt) (f : FileSystem W → Fine.FProg W ρ) (s : State W) :
    (Fine.mountFs m >>= f).run (FineAct.exec tcb) s =
      (s.mounts m).fs.bind fun fs => (f fs).run (FineAct.exec tcb) s := by
  rw [Prog.run_bind_eq,Fine.mountFs,Prog.run_act_bind]
  simp only [FineAct.exec,Option.bind_some]
  cases (s.mounts m).fs with
  | none => rfl
  | some fs => rfl

/-- A callback is called with the table that the mount has. -/
theorem callFs_run {ρ : Type} {fs : FileSystem W} {m : W.Mnt} {s : State W}
    (hfs : (s.mounts m).fs = some fs) (req : FsReq) (f : Int → Fine.FProg W ρ) :
    (Fine.callFs fs m req >>= f).run (FineAct.exec tcb) s =
      (f (callFs fs m req s).1).run (FineAct.exec tcb) (callFs fs m req s).2 := by
  rw [Prog.run_bind_eq,Fine.callFs,callFs]
  cases hreq : fs.fsCallback req with
  | none => rfl
  | some callback =>
    simp only [Prog.run_act_bind,FineAct.exec,Action.exec,hfs,Option.bind_some,hreq]
    rfl

theorem unlockMount_run {ρ : Type} (r : ρ) (s : State W) :
    (Fine.act (.unlock .mount) >>= fun _ => pure r).run (FineAct.exec tcb) s =
      s.unlockMount.bind fun s => some (r,s) := by
  rw [Prog.run_act_bind]
  simp only [FineAct.exec]
  cases s.unlockMount with
  | none => rfl
  | some s => rfl

theorem vfsMount_run (mountp : Option W.Mnt) (s : State W) :
    (Fine.vfsMount mountp).run (FineAct.exec tcb) s = vfsMountBody mountp s := by
  unfold Fine.vfsMount vfsMountBody
  rw [Prog.run_bind_eq,checkMount_run]
  cases checkMount mountp s with
  | none => rfl
  | some v =>
    obtain ⟨ret,s⟩ := v
    simp only [Option.bind_some]
    show Prog.run _ (if ret < 0 then _ else _) s = if ret < 0 then _ else _
    by_cases hret : ret < 0
    · rw [if_pos hret,if_pos hret]
      rfl
    · rw [if_neg hret,if_neg hret]
      cases mountp with
      | none => rfl
      | some m =>
        simp only [mountFs_run,Option.bind_eq_bind,Option.bind_some]
        cases hfs : (s.mounts m).fs with
        | none => rfl
        | some fs =>
          simp only [Option.bind_some,callFs_run tcb hfs]
          by_cases hres : (callFs fs m .mount s).1 < 0
          · simp only [if_pos hres]
            exact unlockMount_run tcb _ _
          · simp only [if_neg hres]
            rw [Prog.run_act_bind]
            exact unlockMount_run tcb _ _

theorem vfsFormatCheck_run (mountp : Option W.Mnt) (s : State W) :
    (Fine.vfsFormatCheck mountp).run (FineAct.exec tcb) s = vfsFormatCheck mountp s := by
  unfold Fine.vfsFormatCheck vfsFormatCheck
  rw [Prog.run_bind_eq,checkMount_run]
  cases checkMount mountp s with
  | none => rfl
  | some v =>
    simp only [Option.bind_eq_bind,Option.bind_some]
    by_cases hret : v.1 < 0
    · simp only [if_pos hret]
      rfl
    · simp only [if_neg hret]
      exact unlockMount_run tcb _ _

theorem vfsUmountCheck_run (mountp : Option W.Mnt) (s : State W) :
    (Fine.vfsUmountCheck mountp).run (FineAct.exec tcb) s = vfsUmountCheck mountp s := by
  unfold Fine.vfsUmountCheck vfsUmountCheck
  rw [Prog.run_bind_eq,checkMount_run]
  cases checkMount mountp s with
  | none => rfl
  | some v =>
    simp only [Option.bind_eq_bind,Option.bind_some]
    by_cases hret : v.1 = 0
    · simp only [if_pos hret]
      exact unlockMount_run tcb _ _
    · simp only [if_neg hret]
      rfl

theorem vfsUmount_run (m : W.Mnt) (force : Bool) (s : State W) :
    (Fine.vfsUmount m force).run (FineAct.exec tcb) s = vfsUmountBody m force s := by
  unfold Fine.vfsUmount vfsUmountBody
  simp only [Prog.run_act_bind,FineAct.exec,Option.bind_some]
  generalize s.lockMount = s
  by_cases hbusy : (s.mounts m).openFiles > 0 ∧ ¬force
  · simp only [if_pos hbusy]
    exact unlockMount_run tcb _ _
  · simp only [if_neg hbusy,mountFs_run,Option.bind_eq_bind]
    cases hfs : (s.mounts m).fs with
    | none => rfl
    | some fs =>
      simp only [Option.bind_some,callFs_run tcb hfs]
      by_cases hres : (callFs fs m .umount s).1 < 0
      · simp only [if_pos hres]
        exact unlockMount_run tcb _ _
      · simp only [if_neg hres,Prog.run_act_bind,FineAct.exec]
        cases (callFs fs m .umount s).2.mountsList.remove (listBound W) m with
        | none => rfl
        | some v =>
          obtain ⟨node,mountsList⟩ := v
          cases node with
          | none => exact unlockMount_run tcb _ _
          | some node => exact unlockMount_run tcb _ _

theorem findMount_run (name : CStr) (s : State W) :
    (Fine.findMount name).run (FineAct.exec tcb) s = findMountBody name s := by
  unfold Fine.findMount findMountBody
  simp only [Prog.run_act_bind,FineAct.exec,Option.bind_some]
  generalize s.lockMount = s
  cases s.mountsList.head with
  | none => exact unlockMount_run tcb _ _
  | some last =>
    simp only [Prog.run_act_bind,FineAct.exec]
    cases walk s.mountsList.next last (findMountRound s.mounts name) (listBound W) last
      ⟨none,0⟩ with
    | none => rfl
    | some v =>
      cases v with
      | error e => rfl
      | ok acc =>
        simp only [Option.bind_some]
        cases acc.mountp with
        | none => exact unlockMount_run tcb _ _
        | some m =>
          rw [Prog.run_act_bind]
          exact unlockMount_run tcb _ _

theorem vfsOpen_run (fOp : Option (FileOps W)) (mountp : W.Mnt) (flags : Nat) (s : State W) :
    (Fine.vfsOpen fOp mountp flags).run (FineAct.exec tcb) s =
      vfsOpenBody tcb fOp mountp flags s := by
  unfold Fine.vfsOpen vfsOpenBody
  simp only [Prog.run_act_bind,FineAct.exec,Option.bind_some]
  generalize UcVfs.initFd tcb VFS_ANY_FD fOp mountp flags s.lockOpen = v
  simp only [Option.bind_eq_bind]
  cases v.2.unlockOpen with
  | none => rfl
  | some s => rfl

/-- The steps of an action are the action. -/
theorem fine_run (x : Action W) (s : State W) :
    x.fine.run (FineAct.exec tcb) s = x.exec tcb s := by
  have hvfs (x : Action W) : (Fine.act (.vfs x)).run (FineAct.exec tcb) s = x.exec tcb s := by
    simp only [Fine.act,Prog.act,Prog.run,FineAct.exec]
    cases x.exec tcb s with
    | none => rfl
    | some v => rfl
  cases x with
  | findMount name => exact findMount_run tcb name s
  | mount mountp => exact vfsMount_run tcb mountp s
  | formatCheck mountp => exact vfsFormatCheck_run tcb mountp s
  | umountCheck mountp => exact vfsUmountCheck_run tcb mountp s
  | umount m force => exact vfsUmount_run tcb m force s
  | initFd fOp mountp flags => exact vfsOpen_run tcb fOp mountp flags s
  | _ => exact hvfs _

/-- So are the steps of an operation. -/
theorem fine_prog_run {ρ : Type} (p : VProg W ρ) (s : State W) :
    (p.expand Action.fine).run (FineAct.exec tcb) s = p.run (Action.exec tcb) s :=
  Prog.expand_run (fine_run tcb) p s

end Runs

end UcVfs
