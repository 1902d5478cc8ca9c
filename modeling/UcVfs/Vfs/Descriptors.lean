import UcVfs.Vfs.Runs

/-!
# The descriptor table

`_allocate_fd` runs under `_open_mutex`; initialisation by the driver, the clean-up of a
failed open and `vfs_close` do not. The holders of a descriptor are the pool, while it is
open, and the call that opens, uses or closes it.
-/

namespace UcVfs

open Framework

variable {W : World}

/-- Someone holds the descriptor `f`, as the open that made it initialised it. -/
def Holds (c : VConfig W) (f : Fd) (hd : FdHandle W) : Prop :=
  c.pool.fds f = some hd ∨ ∃ i,((vfs W).locals c i).fd = some (f,hd)

/-- The operations on a descriptor other than `vfs_close`, with whether one of the other
arguments is refused before the descriptor is looked at. -/
def Op.uses : Op W → Option Prop
  | .fstat _ buf => some (buf = none)
  | .read _ dest _ => some (dest = false)
  | .write _ src => some (src = none)
  | .lseek _ _ _ | .fsync _ => some False
  | _ => none

/-- What holds of the descriptor table in a configuration: an entry is in use exactly when its
descriptor has a holder, it has one only, and the entry is as that holder's open left it. -/
structure TableGood (F : W.Mnt → Option (FileSystem W)) (c : VConfig W) : Prop where
  used : ∀ f,(c.shared.files f).tcb.isSome ↔ ∃ hd,Holds c f hd
  entry : ∀ f hd,Holds c f hd → (c.shared.files f).mp = some hd.mp ∧
    (c.shared.files f).fOp = hd.fOp ∧ (c.shared.files f).flags = hd.flags
  notShared : ∀ f hd i hd',c.pool.fds f = some hd → ((vfs W).locals c i).fd ≠ some (f,hd')
  oneTask : ∀ f i j hd hd',((vfs W).locals c i).fd = some (f,hd) →
    ((vfs W).locals c j).fd = some (f,hd') → i = j
  /-- A `vfs_open` returns an error with nothing held, or a descriptor that it alone holds. -/
  opened : ∀ i name flags mode h r,c.task i = .busy (.open_ name flags mode) h (.ret r) →
    (r < 0 ∧ h.fd = none ∧ h.pins = fun _ => 0) ∨ ∃ (f : Fd) (hd : FdHandle W),
      r = (f : Nat) ∧ h.fd = some (f,hd) ∧ hd.flags = flags ∧ h.found = some hd.mp ∧
      (∃ fs,F hd.mp = some fs ∧ hd.fOp = fs.fOp) ∧ c.pool.fds f = none ∧
      ∀ j hd',j ≠ i → ((vfs W).locals c j).fd ≠ some (f,hd')
  /-- A `vfs_close` returns without the descriptor; without one to close it is refused. -/
  closed : ∀ i fd h r,c.task i = .busy (.close fd) h (.ret r) →
    h.fd = none ∧ (h.given = none → r = -EBADF ∧ h.called = false)
  /-- Any other operation on a number that is not open is refused before any driver call. -/
  refused : ∀ i op bad h r,op.uses = some bad → c.task i = .busy op h (.ret r) →
    h.given = none → (¬bad → r = -EBADF) ∧ h.called = false

/-- What a step does to the holders: allocation takes an entry that nobody holds, releasing
makes it free, and no other step takes a descriptor from its holders. -/
structure TableStep (c : VConfig W) (l : VLabel W) (c' : VConfig W) : Prop where
  allocates : ∀ i fOp m flags f,l = .act i (.initFd fOp m flags) (.ok f) → ∀ hd,¬Holds c f hd
  releases : ∀ i f,l = .act i (.clearTcb f) () →
    (c'.shared.files f).tcb = none ∧ ∀ hd,¬Holds c' f hd
  keeps : ∀ f hd,Holds c f hd → (∃ i,l = .act i (.clearTcb f) ()) ∨ Holds c' f hd

section Table

variable {F : W.Mnt → Option (FileSystem W)} {c c' : VConfig W} {l : VLabel W}

private theorem holds_used (hinv : VInv F c) (f : Fd) :
    (c.shared.files f).tcb.isSome ↔ ∃ hd,Holds c f hd := by
  constructor
  · intro hsome
    by_contra hno
    have hpool : c.pool.fdWeight f = 0 := by
      have : c.pool.fds f = none := by
        by_contra hne
        obtain ⟨hd,hp⟩ := Option.ne_none_iff_exists'.mp hne
        exact hno ⟨hd,Or.inl hp⟩
      simp [Pool.fdWeight,this]
    have htask : ∀ i,((vfs W).locals c i).fdWeight f = 0 := by
      intro i
      by_contra hne
      obtain ⟨v,hv,rfl⟩ : ∃ v,((vfs W).locals c i).fd = some v ∧ v.1 = f := by
        simpa [Hold.fdWeight] using hne
      exact hno ⟨v.2,Or.inr ⟨i,hv⟩⟩
    have hzero := hinv.good.fds.holders f
    simp [hsome,fdHolders,ledger,hpool,htask] at hzero
  · rintro ⟨hd,hp | ⟨i,hi⟩⟩
    · exact (hinv.good.fds.pool f hd hp).tcb
    · exact (hinv.good.fds.task i f hd hi).tcb

private theorem tableGood_of_inv (hinv : VInv F c) : TableGood F c := by
  have hfds := hinv.good.fds
  constructor
  case used => exact holds_used hinv
  case entry =>
    rintro f hd (hp | ⟨i,hi⟩)
    · exact ⟨(hfds.pool f hd hp).mp,(hfds.pool f hd hp).fOp,(hfds.pool f hd hp).flags⟩
    · exact ⟨(hfds.task i f hd hi).mp,(hfds.task i f hd hi).fOp,(hfds.task i f hd hi).flags⟩
  case notShared =>
    intro f hd i hd' hp hi
    simp [(hfds.sole hi).1] at hp
  case oneTask =>
    intro f i j hd hd' hi hj
    exact ((hfds.sole hi).2 j hd' hj).symm
  case opened =>
    intro i name flags mode h r hi
    have hends := hinv.obeys i _ h _ hi
    rcases hends.outcome with hfail | ⟨f,hd,hr,hfd,hfound,hflags,hfs⟩
    · exact Or.inl hfail
    · have hi' : ((vfs W).locals c i).fd = some (f,hd) := by
        rw [System.locals_busy hi,hfd]
      refine Or.inr ⟨f,hd,hr,hfd,hflags,hfound,hfs,(hfds.sole hi').1,?_⟩
      intro j hd' hji hj
      exact hji ((hfds.sole hi').2 j hd' hj)
  case closed =>
    intro i fd h r hi
    exact (hinv.obeys i _ h _ hi).outcome
  case refused =>
    intro i op bad h r hbad hi hno
    have hout := (hinv.obeys i _ h _ hi).outcome
    cases op <;> simp only [Op.uses,Option.some.injEq,reduceCtorEq] at hbad
    all_goals
      subst hbad
      exact hout.2 hno

private theorem next_fd_cases (h : Hold W) (x : Action W) (r : x.Resp) :
    (h.next x r).fd = h.fd ∨ (∃ fOp m flags,x = .initFd fOp m flags) ∨ ∃ f,x = .clearTcb f := by
  have hnext := h.next_follows x r
  generalize h.next x r = h' at hnext
  cases hnext with
  | gotFd fOp m flags => exact Or.inr (Or.inl ⟨fOp,m,flags,rfl⟩)
  | lostFd f => exact Or.inr (Or.inr ⟨f,rfl⟩)
  | _ => exact Or.inl rfl

private theorem holds_update {i : W.Task} {t : Task _ (Op W) Int (Hold W)} {f : Fd}
    {hd : FdHandle W} {s : State W} {K : Pool W} (hK : K.fds = c.pool.fds)
    (hkeep : ((vfs W).locals c i).fd = some (f,hd) → ((vfs W).held t).fd = some (f,hd))
    (hh : Holds c f hd) : Holds ⟨s,K,Function.update c.task i t⟩ f hd := by
  rcases hh with hp | ⟨j,hj⟩
  · exact Or.inl (hK ▸ hp)
  · refine Or.inr ⟨j,?_⟩
    rw [System.locals_update s K c.task i t c rfl]
    by_cases hji : j = i
    · subst j
      simpa using hkeep hj
    · simpa [hji] using hj

private theorem keeps_act {i : W.Task} {op : Op W} {h : Hold W} {x : Action W}
    {next : x.Resp → VProg W Int} {r : x.Resp} {s : State W} {f : Fd} {hd : FdHandle W}
    (hinv : VInv F c) (hbusy : c.task i = .busy op h (.step x next)) (hh : Holds c f hd) :
    (x = .clearTcb f) ∨
      Holds ⟨s,c.pool,Function.update c.task i (.busy op (h.next x r) (next r))⟩ f hd := by
  have hpre := (hinv.obeys i op h _ hbusy).1
  have hlocal := System.locals_busy (S := vfs W) hbusy
  rcases next_fd_cases h x r with hsame | ⟨fOp,m,flags,rfl⟩ | ⟨g,rfl⟩
  · refine Or.inr (holds_update rfl ?_ hh)
    intro hi
    rw [hlocal] at hi
    exact hsame.trans hi
  · refine Or.inr (holds_update rfl ?_ hh)
    intro hi
    have hnone : h.fd = none := hpre.1
    simp [hlocal,hnone] at hi
  · by_cases hg : g = f
    · exact Or.inl (by rw [hg])
    · obtain ⟨hd',hd''⟩ : ∃ hd',h.fd = some (g,hd') := hpre
      refine Or.inr (holds_update rfl ?_ hh)
      intro hi
      simp [hlocal,hd'',hg] at hi

private theorem keeps_start {i : W.Task} {op : Op W} {f : Fd} {hd : FdHandle W}
    (hidle : c.task i = .idle) (hh : Holds c f hd) :
    Holds ⟨c.shared,((vfs W).begin c.pool i op).1,Function.update c.task i
      (.busy op ((vfs W).begin c.pool i op).2 op.prog)⟩ f hd := by
  have hno : ((vfs W).locals c i).fd = none := by
    rw [System.locals_idle hidle]
    rfl
  have hb : Begins c.pool op ((vfs W).begin c.pool i op).1 ((vfs W).begin c.pool i op).2 :=
    begins c.pool i op
  generalize (vfs W).begin c.pool i op = v at hb ⊢
  obtain ⟨K',h⟩ := v
  cases hb with
  | @fd g hd' harg hpool =>
    by_cases hg : f = g
    · subst g
      rcases hh with hp | ⟨j,hj⟩
      · obtain rfl : hd = hd' := by simpa [hpool] using hp.symm
        refine Or.inr ⟨i,?_⟩
        rw [System.locals_update _ _ c.task i _ c rfl]
        simp [System.held]
      · refine Or.inr ⟨j,?_⟩
        have hji : j ≠ i := by
          rintro rfl
          simp [hno] at hj
        rw [System.locals_update _ _ c.task i _ c rfl]
        simpa [hji] using hj
    · rcases hh with hp | ⟨j,hj⟩
      · exact Or.inl (by simpa [hg] using hp)
      · refine Or.inr ⟨j,?_⟩
        have hji : j ≠ i := by
          rintro rfl
          simp [hno] at hj
        rw [System.locals_update _ _ c.task i _ c rfl]
        simpa [hji] using hj
  | dir => exact holds_update rfl (by simp [hno]) hh
  | nothing => exact holds_update rfl (by simp [hno]) hh

private theorem keeps_finish {i : W.Task} {op : Op W} {h : Hold W} {r : Int} {f : Fd}
    {hd : FdHandle W} (hinv : VInv F c) (hbusy : c.task i = .busy op h (.ret r))
    (hh : Holds c f hd) :
    Holds ⟨c.shared,c.pool.finish i op h r,Function.update c.task i .idle⟩ f hd := by
  have hlocal := System.locals_busy (S := vfs W) hbusy
  rcases hh with hp | ⟨j,hj⟩
  · left
    cases hfd : h.fd with
    | none => simpa [Pool.finish,hfd] using hp
    | some v =>
      have hv : f ≠ v.1 := by
        rintro rfl
        have := (hinv.good.fds.sole (hlocal ▸ hfd)).1
        simp [this] at hp
      simpa [Pool.finish,hfd,hv] using hp
  · by_cases hji : j = i
    · subst j
      left
      rw [hlocal] at hj
      simp [Pool.finish,hj]
    · refine Or.inr ⟨j,?_⟩
      rw [System.locals_update _ _ c.task i _ c rfl]
      simpa [hji] using hj

private theorem tableStep_of_inv (hinv : VInv F c) (hinv' : VInv F c') (hproper : Proper c l)
    (hstep : (vfs W).Step c l c') : TableStep c l c' := by
  cases hstep with
  | start hidle =>
    exact ⟨by simp,by simp,fun f hd hh => Or.inr (keeps_start hidle hh)⟩
  | @act i op h x next r s hbusy hexec =>
    constructor
    case allocates =>
      intro j fOp m flags f hl hd hh
      simp only [Label.act.injEq] at hl
      obtain ⟨rfl,rfl,hr⟩ := hl
      obtain rfl := eq_of_heq hr
      have hfree : (c.shared.files f).tcb = none := by
        rcases vfsOpenBody_outcome i fOp m flags c.shared with ⟨_,he⟩ | ⟨g,hg,he⟩
        · change vfsOpenBody i fOp m flags c.shared = some (.ok f,s) at hexec
          simp [he] at hexec
        · change vfsOpenBody i fOp m flags c.shared = some (.ok f,s) at hexec
          obtain ⟨rfl,_⟩ : g = f ∧ _ := by simpa [he] using hexec
          exact hg
      have hused := (holds_used hinv f).mpr ⟨hd,hh⟩
      simp [hfree] at hused
    case releases =>
      intro j f hl
      simp only [Label.act.injEq] at hl
      obtain ⟨rfl,rfl,_⟩ := hl
      obtain rfl : c.shared.modifyFile f (fun e => { e with tcb := none }) = s := by
        simpa [vfs,Action.exec] using hexec
      have hfree : ((c.shared.modifyFile f fun e => { e with tcb := none }).files f).tcb =
          none := by simp [State.modifyFile]
      refine ⟨hfree,?_⟩
      intro hd hh
      have hused := (holds_used hinv' f).mpr ⟨hd,hh⟩
      simp [hfree] at hused
    case keeps =>
      intro f hd hh
      rcases keeps_act hinv hbusy hh with rfl | hh'
      · exact Or.inl ⟨i,rfl⟩
      · exact Or.inr hh'
  | finish hbusy =>
    exact ⟨by simp,by simp,fun f hd hh => Or.inr (keeps_finish hinv hbusy hh)⟩

end Table

/-- For any number of tasks and every interleaving in which a descriptor is used by one call
at a time, the table is as its holders expect, before and after every step. -/
theorem descriptor_table {s : State W} (h : Fresh s) {c : VConfig W}
    (hc : (vfs W).Reachable Proper (initial s) c) :
    TableGood s.fileSystems c ∧ ∀ l c',Proper c l → (vfs W).Step c l c' → TableStep c l c' := by
  have hinv := inv_reachable (fun _ _ hl => hl) h hc
  refine ⟨tableGood_of_inv hinv,?_⟩
  intro l c' hl hstep
  exact tableStep_of_inv hinv (inv_reachable (fun _ _ hl => hl) h (hc.step hl hstep)) hl hstep

/-- After a mount and an open by the first task. -/
theorem descriptor_table_opened : ∃ c : VConfig demo,(c.pool.fds 0).isSome ∧
    (TableGood (demoState none).fileSystems c ∧
      ∀ l c',Proper c l → (vfs demo).Step c l c' → TableStep c l c') := by
  have hrun : ((vfs demo).drive Proper
      (demoMount ++ callFor 0 (.open_ (some CStr.root) 0 0) 7)
      (initial (demoState none))).any (fun c => (c.pool.fds 0).isSome) = true := by decide
  obtain ⟨c,hc,hopen⟩ := System.drive_any hrun
  exact ⟨c,hopen,descriptor_table (demoState_fresh none) hc⟩

end UcVfs
