import UcVfs.Vfs.Runs

/-!
# Mount list integrity

Histories of `vfs_mount`, `vfs_umount` and `vfs_format`, and the list that they leave.
-/

namespace UcVfs

open Framework

variable {W : World}

/-- A call that looks at the mount list. -/
inductive MountCall (W : World)
  | format (mountp : Option W.Mnt)
  | mount (mountp : Option W.Mnt)
  | umount (mountp : Option W.Mnt) (force : Bool)

namespace MountCall

def prog : MountCall W → VProg W Int
  | format mountp => vfsFormat mountp
  | mount mountp => vfsMount mountp
  | umount mountp force => vfsUmount mountp force

/-- The call made by the task `tcb`. -/
def run (tcb : W.Task) (call : MountCall W) (s : State W) : Option (Int × State W) :=
  call.prog.run (Action.exec tcb) s

/-- The sequence of mounted objects after the call has returned `r`. -/
def effect : MountCall W → Int → List W.Mnt → List W.Mnt
  | format _,_,xs => xs
  | mount mountp,r,xs => if r = 0 then xs ++ mountp.toList else xs
  | umount (some m) _,r,xs => if r = 0 then xs.erase m else xs
  | umount none _,_,xs => xs

end MountCall

/-- The mounts of a log that succeeded and were not undone, in mount order. -/
def mountedBy (log : List (MountCall W × Int)) : List W.Mnt :=
  log.foldl (fun xs e => e.1.effect e.2 xs) []

@[simp] theorem mountedBy_snoc (log : List (MountCall W × Int)) (call : MountCall W) (r : Int) :
    mountedBy (log ++ [(call,r)]) = call.effect r (mountedBy log) := by
  simp [mountedBy]

/-- Histories of calls with their results. In between, the caller may write to any mount
object that is not mounted. -/
inductive MountHistory (s₀ : State W) : List (MountCall W × Int) → State W → Prop
  | start : MountHistory s₀ [] s₀
  | call {log s tcb call r s'} (h : MountHistory s₀ log s)
      (hrun : MountCall.run tcb call s = some (r,s')) : MountHistory s₀ (log ++ [(call,r)]) s'
  | write {log s m o} (h : MountHistory s₀ log s) (hm : ¬s.Mounted m) :
      MountHistory s₀ log (s.modifyMount m fun _ => o)

/-- What one call does to a list that stands for `xs`. -/
structure MountStep (s s' : State W) (xs : List W.Mnt) (call : MountCall W) (r : Int) :
    Prop where
  appends : ∀ m,call = .mount (some m) → r = 0 → m ∉ xs ∧ s'.mountsList.Repr (xs ++ [m])
  busy : ∀ m ∈ xs,call = .mount (some m) ∨ call = .format (some m) →
    r = -EBUSY ∧ s'.calls = s.calls
  removes : ∀ m force,call = .umount (some m) force → r = 0 →
    m ∈ xs ∧ s'.mountsList.Repr (xs.erase m)
  kept : r < 0 → s'.mountsList = s.mountsList

theorem callFs_keepsList (fs : FileSystem W) (m : W.Mnt) (req : FsReq) (s : State W) :
    (callFs fs m req s).2.mountsList = s.mountsList := by
  obtain ⟨drv,calls,he⟩ := callFs_eq fs m req s
  rw [he]

section Step

variable {s s' : State W} {xs : List W.Mnt} {r : Int}

theorem vfsMount_step (h : s.Listed xs) (tcb : W.Task) (mountp : Option W.Mnt) :
    ∃ r s',(MountCall.mount mountp).run tcb s = some (r,s') ∧
      s'.Listed ((MountCall.mount mountp).effect r xs) ∧
      MountStep s s' xs (.mount mountp) r := by
  obtain ⟨r,s',he,ho⟩ := vfsMountBody_outcome h mountp
  obtain ⟨hlisted,_⟩ := ho.listed h
  have hexec : (Action.mount mountp).exec tcb s = some (r,s') := he
  refine ⟨r,s',?_,hlisted,?_⟩
  · change (Prog.step (Action.mount mountp) Prog.ret).run (Action.exec tcb) s = _
    rw [Prog.run_step hexec]
    rfl
  cases ho with
  | invalid hinv =>
    refine ⟨by simp [EINVAL],?_,by simp,fun _ => rfl⟩
    intro m hm hcall
    obtain ⟨p,hp,_⟩ := h.accepted m hm
    have hnone := hinv m (by simpa using hcall)
    simp [hnone] at hp
  | busy hm =>
    exact ⟨by simp [EBUSY],fun _ _ _ => ⟨rfl,rfl⟩,by simp,fun _ => rfl⟩
  | @refused m p fs hm hp hfs hres =>
    refine ⟨?_,?_,by simp,fun _ => callFs_keepsList fs m .mount _⟩
    · intro n _ hr
      omega
    · intro n hn hcall
      obtain rfl : m = n := by simpa using hcall
      exact absurd hn hm
  | @mounted m p fs hm hp hfs hres =>
    refine ⟨?_,?_,by simp,by simp⟩
    · intro n hn _
      obtain rfl : m = n := by simpa using hn
      exact ⟨hm,h.repr.rpush hm⟩
    · intro n hn hcall
      obtain rfl : m = n := by simpa using hcall
      exact absurd hn hm

theorem vfsFormat_step (h : s.Listed xs) (tcb : W.Task) (mountp : Option W.Mnt) :
    ∃ r s',(MountCall.format mountp).run tcb s = some (r,s') ∧
      s'.Listed ((MountCall.format mountp).effect r xs) ∧
      MountStep s s' xs (.format mountp) r := by
  obtain ⟨r,s',he,ho⟩ := vfsFormatCheck_outcome h mountp
  have hlisted := (ho.listed h).1
  have hexec : (Action.formatCheck mountp).exec tcb s = some (r,s') := he
  simp only [MountCall.run,MountCall.prog,vfsFormat,act,Prog.act_bind,Prog.run_step hexec]
  cases ho with
  | invalid hinv =>
    refine ⟨-EINVAL,s,by simp [EINVAL,Prog.run],hlisted,by simp,?_,by simp,fun _ => rfl⟩
    intro m hm hcall
    obtain ⟨p,hp,_⟩ := h.accepted m hm
    have hnone := hinv m (by simpa using hcall)
    simp [hnone] at hp
  | busy hm =>
    exact ⟨-EBUSY,s,by simp [EBUSY,Prog.run],hlisted,by simp,fun _ _ _ => ⟨rfl,rfl⟩,by simp,
      fun _ => rfl⟩
  | @passed m p hm hp =>
    have hother : ∀ n ∈ xs,MountCall.format (some m) ≠ .format (some n) := by
      intro n hn he
      obtain rfl : m = n := by simpa using he
      exact hm hn
    obtain ⟨fs,hfs⟩ := Option.isSome_iff_exists.mp (Mount.accepted_eq_some.mp hp).1
    have hfs' : ((s.withLen m p).mounts m).fs = some fs :=
      ((s.frame_withLen m p).fs m).trans hfs
    have hget : (Action.fs m).exec tcb (s.withLen m p) = some (some fs,s.withLen m p) := by
      simp [Action.exec,hfs']
    cases hcb : fs.fsCallback .format with
    | none =>
      refine ⟨-ENOTSUP,s.withLen m p,?_,hlisted,by simp,?_,by simp,fun _ => rfl⟩
      · simp [mountFs,act,Prog.run_step hget,hcb,Prog.run]
      · intro n hn hcall
        exact absurd (hcall.resolve_left (by simp)) (hother n hn)
    | some callback =>
      let ans := fsCallback m .format callback (s.withLen m p)
      have hcall : (Action.fsCall m .format).exec tcb (s.withLen m p) = some ans := by
        simp [Action.exec,hfs',hcb,ans]
      refine ⟨ans.1.res,ans.2,?_,⟨hlisted.repr,hlisted.accepted⟩,by simp,?_,by simp,
        fun _ => rfl⟩
      · simp [mountFs,act,Prog.run_step hget,hcb,Prog.run_step hcall,Prog.run]
        exact ⟨rfl,rfl⟩
      · intro n hn hcall
        exact absurd (hcall.resolve_left (by simp)) (hother n hn)

theorem vfsUmount_step (h : s.Listed xs) (tcb : W.Task) (mountp : Option W.Mnt) (force : Bool) :
    ∃ r s',(MountCall.umount mountp force).run tcb s = some (r,s') ∧
      s'.Listed ((MountCall.umount mountp force).effect r xs) ∧
      MountStep s s' xs (.umount mountp force) r := by
  obtain ⟨r,s',he,ho⟩ := vfsUmountCheck_outcome h mountp
  have hlisted := (ho.listed h).1
  have hexec : (Action.umountCheck mountp).exec tcb s = some (r,s') := he
  simp only [MountCall.run,MountCall.prog,vfsUmount,act,Prog.act_bind,Prog.run_step hexec]
  have hfail : (MountCall.umount mountp force).effect (-EINVAL) xs = xs := by
    cases mountp <;> simp [MountCall.effect,EINVAL]
  cases ho with
  | invalid =>
    refine ⟨-EINVAL,s,by simp [EINVAL,EBUSY,Prog.run],by rw [hfail]; exact h,?_⟩
    exact ⟨by simp,by simp,by simp [EINVAL],fun _ => rfl⟩
  | @passed m p hm hp =>
    refine ⟨-EINVAL,s.withLen m p,by simp [EBUSY,Prog.run],by rw [hfail]; exact hlisted,?_⟩
    exact ⟨by simp,by simp,by simp [EINVAL],fun _ => rfl⟩
  | @busy m p hm hp =>
    obtain ⟨fs,hfs⟩ := Option.isSome_iff_exists.mp (Mount.accepted_eq_some.mp hp).1
    obtain ⟨r,s',he,ho⟩ := vfsUmountBody_outcome h hfs force
    have hexec : (Action.umount m force).exec tcb s = some (r,s') := he
    refine ⟨r,s',by simp [Prog.act,Prog.run_step hexec,Prog.run],(ho.listed h).1,by simp,by simp,
      ?_,?_⟩
    · intro n force' hn hr
      obtain ⟨rfl,rfl⟩ : m = n ∧ force = force' := by simpa using hn
      have hrepr := (ho.listed h).1.repr
      rw [if_pos hr] at hrepr
      exact ⟨hm,hrepr⟩
    · intro hr
      cases ho with
      | busy => rfl
      | refused | unlisted => exact callFs_keepsList fs m .umount s
      | removed => omega

/-- Every call returns, and does to the list what its result says. -/
theorem mountCall_step (h : s.Listed xs) (tcb : W.Task) (call : MountCall W) :
    ∃ r s',call.run tcb s = some (r,s') ∧ s'.Listed (call.effect r xs) ∧
      MountStep s s' xs call r := by
  cases call with
  | format mountp => exact vfsFormat_step h tcb mountp
  | mount mountp => exact vfsMount_step h tcb mountp
  | umount mountp force => exact vfsUmount_step h tcb mountp force

/-- Writing to an object that is not mounted does not touch the list. -/
theorem State.Listed.write {m : W.Mnt} (h : s.Listed xs) (hm : m ∉ xs) (o : Mount W) :
    (s.modifyMount m fun _ => o).Listed xs := by
  refine ⟨h.repr,?_⟩
  intro n hn
  have hne : n ≠ m := fun he => hm (he ▸ hn)
  simpa [State.modifyMount,hne] using h.accepted n hn

end Step

/-- After every history the list stands for the mounts that its results call for. -/
theorem MountHistory.listed {s₀ s : State W} {log : List (MountCall W × Int)}
    (h₀ : s₀.mountsList.head = none) (h : MountHistory s₀ log s) :
    s.Listed (mountedBy log) := by
  induction h with
  | start => exact ⟨Clist.repr_nil h₀,by simp [mountedBy]⟩
  | @call log s tcb call r s' _ hrun ih =>
    obtain ⟨r',s'',he,hlisted,_⟩ := mountCall_step ih tcb call
    obtain ⟨rfl,rfl⟩ : r' = r ∧ s'' = s' := by simpa [he] using hrun
    rw [mountedBy_snoc]
    exact hlisted
  | @write log s m o _ hm ih =>
    rw [ih.mounted_iff] at hm
    exact ih.write hm o

/-- From first to last the list is the sequence of mounts that succeeded and were not undone,
each next call returns, and it changes the list as its result says. -/
theorem mount_list_integrity {s₀ s : State W} {log : List (MountCall W × Int)}
    (h₀ : s₀.mountsList.head = none) (h : MountHistory s₀ log s) :
    s.mountsList.Repr (mountedBy log) ∧ (mountedBy log).Nodup ∧
    ∀ tcb call,∃ r s',call.run tcb s = some (r,s') ∧
      s'.mountsList.Repr (call.effect r (mountedBy log)) ∧
      MountStep s s' (mountedBy log) call r := by
  have hlisted := h.listed h₀
  refine ⟨hlisted.repr,hlisted.repr.nodup,?_⟩
  intro tcb call
  obtain ⟨r,s',he,hl,hstep⟩ := mountCall_step hlisted tcb call
  exact ⟨r,s',he,hl.repr,hstep⟩

/-- The calls one after another, with the log of what they return. -/
def runMounts (tcb : W.Task) : List (MountCall W) → List (MountCall W × Int) × State W →
    Option (List (MountCall W × Int) × State W)
  | [],v => some v
  | call :: calls,v =>
    (call.run tcb v.2).bind fun w => runMounts tcb calls (v.1 ++ [(call,w.1)],w.2)

theorem MountHistory.runs {s₀ : State W} {tcb : W.Task} {calls : List (MountCall W)}
    {v v' : List (MountCall W × Int) × State W} (h : MountHistory s₀ v.1 v.2)
    (hruns : runMounts tcb calls v = some v') : MountHistory s₀ v'.1 v'.2 := by
  induction calls generalizing v with
  | nil =>
    obtain rfl : v = v' := by simpa [runMounts] using hruns
    exact h
  | cons call calls ih =>
    obtain ⟨w,hw,hrest⟩ := Option.bind_eq_some_iff.mp hruns
    exact ih (h.call hw) hrest

section Nested

/-- Four mount objects. -/
def nested : World where
  Mnt := Fin 4
  Dir := Unit
  Task := Unit
  Drv := Unit
  Priv := Unit
  nullPtr := fun _ => ()
  zeroed := ()
  decMnt := inferInstance
  finMnt := inferInstance
  decDir := inferInstance
  finDir := inferInstance
  decTask := inferInstance
  finTask := inferInstance

def nestedMnt (i : Fin 4) : nested.Mnt := i

def nestedTask : nested.Task := ()

def nestedFs : FileSystem nested where
  fOp := none
  dOp := none
  fsOp := some ⟨none,some fun _ _ => ⟨0,Stat.zero,()⟩,some fun _ _ => ⟨0,Stat.zero,()⟩,
    none,none,none,none,none⟩
  flags := 0

def nestedPoint : Fin 4 → CStr
  | 0 => CStr.root
  | 1 => CStr.ofList ['/','a']
  | 2 => CStr.ofList ['/','a','/','b']
  | 3 => CStr.ofList ['/','a','b']

def nestedState : State nested where
  mounts := fun m => ⟨some nestedFs,some (nestedPoint m),0,0⟩
  mountsList := ⟨none,fun _ => none⟩
  files := fun _ => ⟨none,none,0,0,none,()⟩
  dirs := fun _ => ⟨none,none,()⟩
  drv := ()
  mountMutex := 0
  openMutex := 0
  calls := []

def nestedCall (i : Fin 4) : MountCall nested := .mount (some (nestedMnt i))

/-- The mounts on `/a/b`, `/`, `/ab` and `/a`, in this order. -/
def nestedMounts : List (MountCall nested) :=
  [nestedCall 2,nestedCall 0,nestedCall 3,nestedCall 1]

/-- Four mounts, of which the one on `/` is undone. -/
theorem mount_list_integrity_nested : ∃ s : State nested,
    s.mountsList.Repr [nestedMnt 2,nestedMnt 3,nestedMnt 1] ∧
    ∀ tcb call,∃ r s',MountCall.run tcb call s = some (r,s') ∧
      s'.mountsList.Repr (call.effect r [nestedMnt 2,nestedMnt 3,nestedMnt 1]) ∧
      MountStep s s' [nestedMnt 2,nestedMnt 3,nestedMnt 1] call r := by
  have hrun : (runMounts nestedTask (nestedMounts ++ [.umount (some (nestedMnt 0)) false])
      ([],nestedState)).any (fun v =>
        decide (mountedBy v.1 = [nestedMnt 2,nestedMnt 3,nestedMnt 1])) = true := by decide
  obtain ⟨⟨log,s⟩,hruns,hlog⟩ := (Option.any_eq_true _ _).mp hrun
  have hgood := mount_list_integrity rfl (MountHistory.start.runs hruns)
  rw [of_decide_eq_true hlog] at hgood
  exact ⟨s,hgood.1,hgood.2.2⟩

end Nested

end UcVfs
