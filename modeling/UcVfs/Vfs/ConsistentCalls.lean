import UcVfs.Vfs.MissingOperations

/-!
# What the callers hold open

A record of the open descriptors and DIR objects beside the state, made from the calls and what
they returned. The descriptor table and the `open_files` counters are consistent when they agree
with this record.
-/

namespace UcVfs

open Framework

variable {W : World}

/-- A DIR object to its caller: open from a `vfs_opendir` that returned 0 until the next
`vfs_closedir`; refused when the driver was asked to open it and failed. -/
inductive DirUse (W : World)
  | closed
  | opened (m : W.Mnt)
  | refused
  deriving DecidableEq

/-- The mount on which a DIR object is open. -/
def DirUse.mount : DirUse W → Option W.Mnt
  | .opened m => some m
  | _ => none

/-- A state, the open descriptors with their mounts, and the use of every DIR object. -/
structure CallHistory (W : World) where
  state : State W
  fds : Fd → Option W.Mnt
  dirs : W.Dir → DirUse W

/-- The mount that the name resolves to. -/
def resolved (tcb : W.Task) (s : State W) (name : CStr) : Option W.Mnt :=
  match (findMount name).run (Action.exec tcb) s with
  | some (.ok (m,_),_) => some m
  | _ => none

theorem Selects.resolved {tcb : W.Task} {s : State W} {name : CStr} {m : W.Mnt} {relPath : CStr}
    (h : Selects tcb s name m relPath) : resolved tcb s name = some m := by
  unfold UcVfs.resolved
  rw [show (findMount name).run (Action.exec tcb) s = some (.ok (m,relPath),s.pin m) from h]

theorem resolved_eq_none {tcb : W.Task} {s : State W} {xs : List W.Mnt} (h : s.Listed xs)
    {name : CStr} (hno : ∀ m relPath,¬Selects tcb s name m relPath) :
    resolved tcb s name = none := by
  rcases findMount_outcome h tcb name with hmiss | ⟨m,_,relPath,hsel⟩
  · simp [resolved,hmiss]
  · exact absurd hsel (hno m relPath)

namespace CallHistory

/-- A `vfs_open` that returned a descriptor has opened it, and every `vfs_close` of a descriptor
closes it. -/
def fdsAfter (v : CallHistory W) (tcb : W.Task) (r : Int) : Op W → Fd → Option W.Mnt
  | .open_ (some name) _ _ =>
    match fdIndex r with
    | some f => Function.update v.fds f (resolved tcb v.state name)
    | none => v.fds
  | .close fd =>
    match fdIndex fd with
    | some f => Function.update v.fds f none
    | none => v.fds
  | _ => v.fds

/-- What a call that returned `r`, and did or did not call the driver, makes of the DIR objects. -/
def dirsAfter (v : CallHistory W) (tcb : W.Task) (r : Int) (asked : Prop) [Decidable asked] :
    Op W → W.Dir → DirUse W
  | .opendir (some d) (some name) =>
    if r = 0 then
      match resolved tcb v.state name with
      | some m => Function.update v.dirs d (.opened m)
      | none => v.dirs
    else if asked then
      Function.update v.dirs d .refused
    else
      v.dirs
  | .closedir (some d) => Function.update v.dirs d .closed
  | _ => v.dirs

/-- The record after a call that returned `r` in the state `s`. -/
def after (v : CallHistory W) (tcb : W.Task) (op : Op W) (r : Int) (s : State W) :
    CallHistory W where
  state := s
  fds := v.fdsAfter tcb r op
  dirs := v.dirsAfter tcb r (v.state.calls.length < s.calls.length) op

def call (sp : Sysop W) (tcb : W.Task) (op : Op W) (v : CallHistory W) :
    Option (Int × CallHistory W) :=
  (op.prog.run (Action.execSysop sp tcb) v.state).map fun w => (w.1,v.after tcb op w.1 w.2)

/-- The descriptors that are open on a mount. -/
def openFds (v : CallHistory W) (m : W.Mnt) : ℕ :=
  (Finset.univ.filter fun f => v.fds f = some m).card

/-- The DIR objects that are open on a mount. -/
def openDirs (v : CallHistory W) (m : W.Mnt) : ℕ :=
  (Finset.univ.filter fun d => (v.dirs d).mount = some m).card

/-- The entries in use are those of the open descriptors, each with its mount and the operations
of its driver, and every mount has one pin for each descriptor and DIR object open on it. -/
structure Consistent (v : CallHistory W) : Prop where
  free : ∀ f,v.fds f = none → (v.state.files f).tcb = none
  used : ∀ f m,v.fds f = some m → (v.state.files f).tcb.isSome ∧
    (v.state.files f).mp = some m ∧ (v.state.files f).fOp.isSome
  pins : ∀ m,(v.state.mounts m).openFiles = UInt16.ofNat (v.openFds m + v.openDirs m)

/-- No DIR object is closed that its driver refused to open, and no open one is opened again with
a name that resolves to a mount. -/
def Spared (v : CallHistory W) (tcb : W.Task) : Op W → Prop
  | .opendir (some d) (some name) =>
    (v.dirs d).mount.isSome → resolved tcb v.state name = none
  | .closedir (some d) => v.dirs d ≠ .refused
  | _ => True

/-- The record agrees with the state: also the `mp` of every DIR object, which a refused
`vfs_opendir` leaves behind. -/
structure Tracked (v : CallHistory W) : Prop where
  listed : ∃ xs,v.state.Listed xs
  consistent : v.Consistent
  closed : ∀ d,v.dirs d = .closed → (v.state.dirs d).mp = none
  opened : ∀ d m,v.dirs d = .opened m → (v.state.dirs d).mp = some m
  refused : ∀ d,v.dirs d = .refused → (v.state.dirs d).mp.isSome

variable {tcb : W.Task} {v : CallHistory W} {s : State W}

/-- A counter that was right is right again when it moved as the record did. -/
theorem Consistent.pins_iff (h : v.Consistent) {n : W.Mnt} {count a b : ℕ} {openFiles : UInt16}
    (hcount : count + a = v.openFds n + v.openDirs n + b) :
    openFiles = UInt16.ofNat count ↔
      openFiles + UInt16.ofNat a = (v.state.mounts n).openFiles + UInt16.ofNat b := by
  have hsum := congrArg UInt16.ofNat hcount
  simp only [UInt16.ofNat_add] at hsum
  rw [h.pins n,UInt16.ofNat_add,← hsum]
  exact (UInt16.add_left_inj _).symm

theorem Tracked.steady (h : v.Tracked) (hlisted : ∃ ys,s.Listed ys) (hs : Steady v.state s) :
    Tracked ⟨s,v.fds,v.dirs⟩ := by
  refine ⟨hlisted,⟨?_,?_,?_⟩,?_,?_,?_⟩
  · intro f hf
    exact (hs.tcb f).trans (h.consistent.free f hf)
  · intro f m hf
    obtain ⟨htcb,hmp,hops⟩ := h.consistent.used f m hf
    obtain ⟨hmp',hops'⟩ := hs.entry f htcb
    exact ⟨by rwa [hs.tcb f],hmp'.trans hmp,by rwa [hops']⟩
  · exact fun m => (hs.openFiles m).trans (h.consistent.pins m)
  · exact fun d hd => (hs.dirs d).trans (h.closed d hd)
  · exact fun d m hd => (hs.dirs d).trans (h.opened d m hd)
  · intro d hd
    rw [hs.dirs d]
    exact h.refused d hd

/-- One descriptor is opened or closed. -/
theorem Tracked.setFd (h : v.Tracked) {f : Fd} {o : Option W.Mnt} (hlisted : ∃ ys,s.Listed ys)
    (hother : ∀ g,g ≠ f → s.files g = v.state.files g) (hdirs : s.dirs = v.state.dirs)
    (hfree : o = none → (s.files f).tcb = none)
    (hused : ∀ m,o = some m → (s.files f).tcb.isSome ∧ (s.files f).mp = some m ∧
      (s.files f).fOp.isSome)
    (hpins : ∀ n,(s.mounts n).openFiles + UInt16.ofNat (if v.fds f = some n then 1 else 0) =
      (v.state.mounts n).openFiles + UInt16.ofNat (if o = some n then 1 else 0)) :
    Tracked ⟨s,Function.update v.fds f o,v.dirs⟩ := by
  refine ⟨hlisted,⟨?_,?_,?_⟩,?_,?_,?_⟩
  · intro g hg
    by_cases hgf : g = f
    · subst g
      exact hfree (by simpa using hg)
    · rw [hother g hgf]
      exact h.consistent.free g (by simpa [hgf] using hg)
  · intro g m hg
    by_cases hgf : g = f
    · subst g
      exact hused m (by simpa using hg)
    · rw [hother g hgf]
      exact h.consistent.used g m (by simpa [hgf] using hg)
  · intro n
    have hcount := card_filter_update (· = some n) v.fds f o
    refine (h.consistent.pins_iff ?_).mpr (hpins n)
    simp only [openFds,openDirs]
    omega
  · exact fun d hd => by rw [hdirs]; exact h.closed d hd
  · exact fun d m hd => by rw [hdirs]; exact h.opened d m hd
  · exact fun d hd => by rw [hdirs]; exact h.refused d hd

/-- The number of DIR objects open on a mount when the use of one changes. -/
theorem openDirs_update (v : CallHistory W) (s : State W) (d : W.Dir) (u : DirUse W) (n : W.Mnt) :
    openDirs ⟨s,v.fds,Function.update v.dirs d u⟩ n +
        (if (v.dirs d).mount = some n then 1 else 0) =
      v.openDirs n + if u.mount = some n then 1 else 0 :=
  card_filter_update (fun u : DirUse W => u.mount = some n) v.dirs d u

/-- The counters are right after the use of one DIR object changed exactly when they moved with
it. -/
theorem Tracked.setDir_pins (h : v.Tracked) {d : W.Dir} {u : DirUse W} (n : W.Mnt) :
    (s.mounts n).openFiles = UInt16.ofNat (openFds ⟨s,v.fds,Function.update v.dirs d u⟩ n +
        openDirs ⟨s,v.fds,Function.update v.dirs d u⟩ n) ↔
      (s.mounts n).openFiles + UInt16.ofNat (if (v.dirs d).mount = some n then 1 else 0) =
        (v.state.mounts n).openFiles + UInt16.ofNat (if u.mount = some n then 1 else 0) := by
  refine h.consistent.pins_iff ?_
  have hcount := openDirs_update v s d u n
  have hfds : openFds ⟨s,v.fds,Function.update v.dirs d u⟩ n = v.openFds n := rfl
  omega

/-- One DIR object is opened, closed or refused. -/
theorem Tracked.setDir (h : v.Tracked) {d : W.Dir} {mp : Option W.Mnt} {dOp : Option (DirOps W)}
    {u : DirUse W} (hlisted : ∃ ys,s.Listed ys) (hset : DirSet v.state s d mp dOp)
    (hfiles : s.files = v.state.files) (hclosed : u = .closed → mp = none)
    (hopened : ∀ m,u = .opened m → mp = some m) (hrefused : u = .refused → mp.isSome)
    (hpins : ∀ n,(s.mounts n).openFiles +
        UInt16.ofNat (if (v.dirs d).mount = some n then 1 else 0) =
      (v.state.mounts n).openFiles + UInt16.ofNat (if u.mount = some n then 1 else 0)) :
    Tracked ⟨s,v.fds,Function.update v.dirs d u⟩ := by
  refine ⟨hlisted,⟨?_,?_,fun n => (h.setDir_pins n).mpr (hpins n)⟩,?_,?_,?_⟩
  · exact fun f hf => by rw [hfiles]; exact h.consistent.free f hf
  · exact fun f m hf => by rw [hfiles]; exact h.consistent.used f m hf
  · intro e he
    by_cases hed : e = d
    · subst e
      exact hset.mp.trans (hclosed (by simpa using he))
    · rw [hset.other e hed]
      exact h.closed e (by simpa [hed] using he)
  · intro e m he
    by_cases hed : e = d
    · subst e
      exact hset.mp.trans (hopened m (by simpa using he))
    · rw [hset.other e hed]
      exact h.opened e m (by simpa [hed] using he)
  · intro e he
    by_cases hed : e = d
    · subst e
      rw [hset.mp]
      exact hrefused (by simpa using he)
    · rw [hset.other e hed]
      exact h.refused e (by simpa [hed] using he)

/-- After a `vfs_open` that returned a descriptor. -/
theorem Tracked.opened_fd (h : v.Tracked) (hlisted : ∃ ys,s.Listed ys) {f : Fd} {m : W.Mnt}
    (hfree : (v.state.files f).tcb = none) (htcb : (s.files f).tcb.isSome)
    (hmp : (s.files f).mp = some m) (hops : (s.files f).fOp.isSome)
    (hother : ∀ g,g ≠ f → s.files g = v.state.files g) (hdirs : s.dirs = v.state.dirs)
    (hmounts : s.mounts = (v.state.pin m).mounts) :
    Tracked ⟨s,Function.update v.fds f (some m),v.dirs⟩ := by
  refine h.setFd hlisted hother hdirs (fun hno => by cases hno) ?_ ?_
  · rintro _ ⟨⟩
    exact ⟨htcb,hmp,hops⟩
  · intro n
    have hno : v.fds f ≠ some n := by
      intro hf
      have hused := (h.consistent.used f n hf).1
      rw [hfree] at hused
      cases hused
    rw [if_neg hno,hmounts,State.pin_openFiles]
    by_cases hn : n = m
    · subst n
      simp
    · simp [hn,Ne.symm hn]

/-- After the `vfs_close` of a valid descriptor. -/
theorem Tracked.closed_fd (h : v.Tracked) (hlisted : ∃ ys,s.Listed ys) {f : Fd}
    (hvalid : (v.state.files f).tcb.isSome) (hfree : (s.files f).tcb = none)
    (hother : ∀ g,g ≠ f → s.files g = v.state.files g) (hdirs : s.dirs = v.state.dirs)
    (hmounts : match (v.state.files f).mp with
      | none => s.mounts = v.state.mounts
      | some m => s.mounts = (v.state.unpin m).mounts) :
    Tracked ⟨s,Function.update v.fds f none,v.dirs⟩ := by
  refine h.setFd hlisted hother hdirs (fun _ => hfree) (fun m hno => by cases hno) ?_
  intro n
  cases hf : v.fds f with
  | none =>
    rw [h.consistent.free f hf] at hvalid
    cases hvalid
  | some m =>
    rw [(h.consistent.used f m hf).2.1] at hmounts
    have hopen : (s.mounts n).openFiles = (v.state.mounts n).openFiles - if n = m then 1 else 0 := by
      rw [← State.unpin_openFiles]
      exact congrArg (fun mounts => (mounts n).openFiles) hmounts
    rw [hopen]
    by_cases hn : n = m
    · subst n
      simp
    · simp [hn,Ne.symm hn]

/-- A DIR object is written and the pins follow its new use alone: right when it was not open
before, wrong when it was. -/
theorem Tracked.setDir_iff (h : v.Tracked) {d : W.Dir} {mp : Option W.Mnt}
    {dOp : Option (DirOps W)} {u : DirUse W} (hlisted : ∃ ys,s.Listed ys)
    (hset : DirSet v.state s d mp dOp) (hfiles : s.files = v.state.files)
    (hclosed : u = .closed → mp = none) (hopened : ∀ m,u = .opened m → mp = some m)
    (hrefused : u = .refused → mp.isSome)
    (hgain : ∀ n,(s.mounts n).openFiles =
      (v.state.mounts n).openFiles + UInt16.ofNat (if u.mount = some n then 1 else 0)) :
    ((v.dirs d).mount = none → Tracked ⟨s,v.fds,Function.update v.dirs d u⟩) ∧
      (Consistent ⟨s,v.fds,Function.update v.dirs d u⟩ → (v.dirs d).mount = none) := by
  constructor
  · intro hnone
    refine h.setDir hlisted hset hfiles hclosed hopened hrefused fun n => ?_
    simp [hnone,hgain n]
  · intro hc
    cases hold : (v.dirs d).mount with
    | none => rfl
    | some m =>
      have hm := (h.setDir_pins m).mp (hc.pins m)
      rw [hgain m,if_pos hold] at hm
      grind

/-- An open DIR is spared only while its new name resolves to no mount. -/
theorem spared_opendir_iff {d : W.Dir} {name : CStr} {m : W.Mnt} {relPath : CStr}
    (hsel : Selects tcb v.state name m relPath) :
    v.Spared tcb (.opendir (some d) (some name)) ↔ (v.dirs d).mount = none := by
  constructor
  · intro hspared
    cases hmount : (v.dirs d).mount with
    | none => rfl
    | some n =>
      have hres := hspared (by rw [hmount]; rfl)
      rw [hsel.resolved] at hres
      cases hres
  · intro hnone hsome
    rw [hnone] at hsome
    cases hsome

theorem served_opendir {sp : Sysop W} {d : W.Dir} {name : CStr} {m : W.Mnt} {relPath : CStr}
    {dOp : DirOps W} (hsel : Selects tcb s name m relPath)
    (hd : (s.mounts m).fs.bind (·.dOp) = some dOp) :
    Served sp tcb s (.opendir (some d) (some name)) := by
  intro n q hnq
  obtain ⟨rfl,rfl⟩ := hsel.unique hnq
  rw [hd]
  rfl

theorem Tracked.opendir (h : v.Tracked) {sp : Sysop W} {d : W.Dir} {name : Option CStr} {r : Int}
    (hlisted : ∃ ys,s.Listed ys) (ho : OpendirOutcome tcb v.state d name r s) :
    (Served sp tcb v.state (.opendir (some d) name) ∧ v.Spared tcb (.opendir (some d) name) →
      (v.after tcb (.opendir (some d) name) r s).Tracked) ∧
    ((v.after tcb (.opendir (some d) name) r s).Consistent →
      Served sp tcb v.state (.opendir (some d) name) ∧
        v.Spared tcb (.opendir (some d) name)) := by
  cases ho with
  | unresolved hr hno =>
    have hafter : v.after tcb (.opendir (some d) name) r v.state = v := by
      cases name with
      | none => rfl
      | some name => simp [after,fdsAfter,dirsAfter,ne_of_lt hr]
    rw [hafter]
    refine ⟨fun _ => h,fun _ => ?_⟩
    cases name with
    | none => exact ⟨trivial,trivial⟩
    | some name =>
      obtain ⟨xs,hxs⟩ := h.listed
      exact ⟨fun m relPath hsel => absurd hsel (hno name rfl m relPath),
        fun _ => resolved_eq_none hxs (hno name rfl)⟩
  | @unsupported m name' relPath hname hsel hd =>
    obtain rfl : name = some name' := hname
    constructor
    · intro hmeets
      have hsome := hmeets.1 m relPath hsel
      rw [hd] at hsome
      cases hsome
    · intro hc
      have hr : (-EINVAL : Int) ≠ 0 := by decide
      have hdirs : (v.after tcb (.opendir (some d) (some name')) (-EINVAL)
          (v.state.pin m)).dirs = v.dirs := by
        simp [after,dirsAfter,hr,State.pin,State.modifyMount]
      -- The pin of `_find_mount` stays, and nothing is open for it.
      have hpin := hc.pins m
      rw [show (v.after tcb (.opendir (some d) (some name')) (-EINVAL)
          (v.state.pin m)).openDirs m = v.openDirs m by simp only [openDirs,hdirs]] at hpin
      have hold := h.consistent.pins m
      change ((v.state.pin m).mounts m).openFiles = UInt16.ofNat (v.openFds m + v.openDirs m)
        at hpin
      rw [State.pin_openFiles,if_pos rfl,← hold] at hpin
      grind
  | @refused m name' relPath dOp r s' hname hsel hd hr hset hfiles hmounts hcalls =>
    obtain rfl : name = some name' := hname
    have hafter : v.after tcb (.opendir (some d) (some name')) r s =
        ⟨s,v.fds,Function.update v.dirs d .refused⟩ := by
      simp [after,fdsAfter,dirsAfter,ne_of_lt hr,hcalls]
    rw [hafter]
    obtain ⟨htracked,hback⟩ := h.setDir_iff (u := .refused) hlisted hset hfiles
      (fun hu => by cases hu) (fun n hu => by cases hu) (fun _ => rfl)
      (fun n => by simp [hmounts,DirUse.mount])
    exact ⟨fun hmeets => htracked ((spared_opendir_iff hsel).mp hmeets.2),
      fun hc => ⟨served_opendir hsel hd,(spared_opendir_iff hsel).mpr (hback hc)⟩⟩
  | @opened m name' relPath dOp s' hname hsel hd hset hfiles hmounts =>
    obtain rfl : name = some name' := hname
    have hafter : v.after tcb (.opendir (some d) (some name')) 0 s =
        ⟨s,v.fds,Function.update v.dirs d (.opened m)⟩ := by
      simp [after,fdsAfter,dirsAfter,hsel.resolved]
    rw [hafter]
    have hgain : ∀ n,(s.mounts n).openFiles = (v.state.mounts n).openFiles +
        UInt16.ofNat (if (DirUse.opened m).mount = some n then 1 else 0) := by
      intro n
      rw [hmounts,State.pin_openFiles]
      by_cases hn : n = m
      · simp [hn,DirUse.mount]
      · simp [hn,Ne.symm hn,DirUse.mount]
    obtain ⟨htracked,hback⟩ := h.setDir_iff hlisted hset hfiles (fun hu => by cases hu)
      (fun n hu => by cases hu; rfl) (fun _ => rfl) hgain
    exact ⟨fun hmeets => htracked ((spared_opendir_iff hsel).mp hmeets.2),
      fun hc => ⟨served_opendir hsel hd,(spared_opendir_iff hsel).mpr (hback hc)⟩⟩

/-- A `vfs_closedir` gives back the pin of an open DIR, and one that nobody holds when the driver
refused to open it. -/
theorem Tracked.closedir (h : v.Tracked) {d : W.Dir} {r : Int} (hlisted : ∃ ys,s.Listed ys)
    (ho : ClosedirOutcome v.state d r s) :
    (v.Spared tcb (.closedir (some d)) → (v.after tcb (.closedir (some d)) r s).Tracked) ∧
    ((v.after tcb (.closedir (some d)) r s).Consistent → v.Spared tcb (.closedir (some d))) := by
  have hafter : v.after tcb (.closedir (some d)) r s =
      ⟨s,v.fds,Function.update v.dirs d .closed⟩ := rfl
  rw [hafter]
  cases ho with
  | unopened hmp =>
    have hd : v.dirs d = .closed := by
      cases hd : v.dirs d with
      | closed => rfl
      | opened m =>
        have hm := h.opened d m hd
        rw [hmp] at hm
        cases hm
      | refused =>
        have hm := h.refused d hd
        rw [hmp] at hm
        cases hm
    have hspared : v.Spared tcb (.closedir (some d)) := by
      simp [Spared,hd]
    refine ⟨fun _ => ?_,fun _ => hspared⟩
    rw [← hd,Function.update_eq_self]
    exact h
  | @closed m r s' hmp hset hfiles hmounts hcalls =>
    have hopen : ∀ n,(s.mounts n).openFiles =
        (v.state.mounts n).openFiles - if n = m then 1 else 0 := by
      intro n
      rw [hmounts,State.unpin_openFiles]
    cases hd : v.dirs d with
    | closed =>
      have hm := h.closed d hd
      rw [hmp] at hm
      cases hm
    | opened n =>
      obtain rfl : m = n := Option.some.inj (hmp.symm.trans (h.opened d n hd))
      refine ⟨fun _ => h.setDir hlisted hset hfiles (fun _ => rfl) (fun n hu => by cases hu)
        (fun hu => by cases hu) fun n => ?_,fun _ => by simp [Spared,hd]⟩
      rw [hopen n,hd]
      by_cases hn : n = m
      · simp [hn,DirUse.mount]
      · simp [hn,Ne.symm hn,DirUse.mount]
    | refused =>
      refine ⟨fun hspared => absurd hd hspared,fun hc => ?_⟩
      have hm := (h.setDir_pins m).mp (hc.pins m)
      simp only [hopen m,hd,DirUse.mount,if_true] at hm
      grind

/-- A `vfs_close` of a descriptor that is not open finds no valid entry. -/
theorem Tracked.fds_eq_none (h : v.Tracked) {fd : Int} {f : Fd} (hf : fdIndex fd = some f)
    (he : v.state.entry fd = none) : v.fds f = none := by
  cases hfd : v.fds f with
  | none => rfl
  | some m =>
    obtain ⟨htcb,_,hops⟩ := h.consistent.used f m hfd
    simp [State.entry,hf,Option.filter,htcb,hops] at he

/-- What a call that ran to its end makes of a record that agrees with the state. -/
theorem Tracked.next (h : v.Tracked) {sp : Sysop W} {op : Op W} {r : Int}
    (hdef : Defined sp tcb v.state op) (hlisted : ∃ ys,s.Listed ys)
    (hm : Moves tcb v.state s r op) :
    (Served sp tcb v.state op ∧ v.Spared tcb op → (v.after tcb op r s).Tracked) ∧
    ((v.after tcb op r s).Consistent → Served sp tcb v.state op ∧ v.Spared tcb op) := by
  cases op with
  | opendir d name =>
    cases d with
    | none => exact ⟨fun _ => h.steady hlisted hm,fun _ => ⟨trivial,trivial⟩⟩
    | some d => exact h.opendir hlisted hm
  | closedir d =>
    cases d with
    | none => exact ⟨fun _ => h.steady hlisted hm,fun _ => ⟨trivial,trivial⟩⟩
    | some d =>
      obtain ⟨htracked,hback⟩ : (v.Spared tcb (.closedir (some d)) → _) ∧ (_ → _) :=
        h.closedir hlisted hm
      exact ⟨fun hmeets => htracked hmeets.2,fun hc => ⟨trivial,hback hc⟩⟩
  | open_ name flags mode =>
    refine ⟨fun _ => ?_,fun _ => ⟨hdef,trivial⟩⟩
    by_cases hr : r < 0
    · simp only [Moves,hr,if_true] at hm
      have hafter : v.after tcb (.open_ name flags mode) r s = ⟨s,v.fds,v.dirs⟩ := by
        have hno : fdIndex r = none := dif_neg (by omega)
        cases name <;> simp [after,fdsAfter,dirsAfter,hno]
      rw [hafter]
      exact h.steady hlisted hm
    · simp only [Moves,hr,if_false] at hm
      obtain ⟨f,n,m,relPath,rfl,rfl,hsel,hfree,htcb,hmp,hops,hother,hdirs,hmounts⟩ := hm
      have hafter : v.after tcb (.open_ (some n) flags mode) (f : Nat) s =
          ⟨s,Function.update v.fds f (some m),v.dirs⟩ := by
        simp [after,fdsAfter,dirsAfter,hsel.resolved,fdIndex]
      rw [hafter]
      exact h.opened_fd hlisted hfree htcb hmp hops hother hdirs hmounts
  | close fd =>
    refine ⟨fun _ => ?_,fun _ => ⟨trivial,trivial⟩⟩
    cases he : v.state.entry fd with
    | none =>
      simp only [Moves,he] at hm
      have hafter : v.after tcb (.close fd) r s = ⟨s,v.fds,v.dirs⟩ := by
        cases hf : fdIndex fd with
        | none => simp [after,fdsAfter,dirsAfter,hf]
        | some f =>
          have hnone := h.fds_eq_none hf he
          simp [after,fdsAfter,dirsAfter,hf,← hnone]
      rw [hafter]
      exact h.steady hlisted hm
    | some f =>
      simp only [Moves,he] at hm
      obtain ⟨hfree,hother,hdirs,hmounts⟩ := hm
      have hf : fdIndex fd = some f := (Option.filter_eq_some_iff.mp he).1
      have hafter : v.after tcb (.close fd) r s = ⟨s,Function.update v.fds f none,v.dirs⟩ := by
        simp [after,fdsAfter,dirsAfter,hf]
      rw [hafter]
      exact h.closed_fd hlisted (State.entry_eq_some he).1 hfree hother hdirs hmounts
  | _ => exact ⟨fun _ => h.steady hlisted hm,fun _ => ⟨hdef,trivial⟩⟩

theorem served_defined {sp : Sysop W} {op : Op W} (h : Served sp tcb s op) :
    Defined sp tcb s op := by
  cases op with
  | opendir => trivial
  | _ => exact h

/-- What a call that runs to its end did, read off its run. -/
theorem Tracked.ran (h : v.Tracked) {sp : Sysop W} {op : Op W} {r : Int}
    (hrun : op.prog.run (Action.execSysop sp tcb) v.state = some (r,s)) :
    Defined sp tcb v.state op ∧ (∃ ys,s.Listed ys) ∧ Lawful tcb v.state op r s := by
  obtain ⟨xs,hxs⟩ := h.listed
  have hdef : Defined sp tcb v.state op := by
    have hends : Sure sp tcb (fun _ _ => True) op.prog v.state := ⟨r,s,hrun,trivial⟩
    exact (ends_iff_defined hxs op fun _ _ _ _ => trivial).mp hends
  have hsure : Sure sp tcb (fun r s => (∃ ys,s.Listed ys) ∧ Lawful tcb v.state op r s) op.prog
      v.state := (ends_iff_defined hxs op fun _ _ hl hm => ⟨hl,hm⟩).mpr hdef
  exact ⟨hdef,(Prog.total_of_run hrun).mp hsure⟩

/-- The next call ends and leaves table and pins consistent exactly when its driver serves it and it
spares the DIR objects. -/
theorem Tracked.call_iff (h : v.Tracked) (sp : Sysop W) (tcb : W.Task) (op : Op W) :
    (∃ r v',v.call sp tcb op = some (r,v') ∧ v'.Consistent ∧ (Lacks tcb v.state op → r < 0)) ↔
      Served sp tcb v.state op ∧ v.Spared tcb op := by
  constructor
  · rintro ⟨r,v',hcall,hc,_⟩
    obtain ⟨⟨r,s⟩,hrun,he⟩ := Option.map_eq_some_iff.mp hcall
    cases he
    obtain ⟨hdef,hlisted,hm,_⟩ := h.ran hrun
    exact (h.next hdef hlisted hm).2 hc
  · intro hmeets
    obtain ⟨xs,hxs⟩ := h.listed
    have hsure : Sure sp tcb (fun _ _ => True) op.prog v.state :=
      (ends_iff_defined hxs op fun _ _ _ _ => trivial).mpr (served_defined hmeets.1)
    obtain ⟨r,s,hrun,_⟩ := hsure
    obtain ⟨hdef,hlisted,hm,hlacks⟩ := h.ran hrun
    refine ⟨r,v.after tcb op r s,?_,((h.next hdef hlisted hm).1 hmeets).consistent,hlacks⟩
    simp [call,hrun]

end CallHistory

/-- The static data before the first call and DIR objects that their callers have zeroed. -/
theorem Fresh.tracked {s : State W} (h : Fresh s) (hdirs : ∀ d,(s.dirs d).mp = none) :
    CallHistory.Tracked ⟨s,fun _ => none,fun _ => .closed⟩ := by
  refine ⟨⟨[],Clist.repr_nil h.list,by simp⟩,⟨fun f _ => h.files f,?_,?_⟩,fun d _ => hdirs d,?_,?_⟩
  · exact fun f m hf => by cases hf
  · intro m
    simp [CallHistory.openFds,CallHistory.openDirs,DirUse.mount,h.openFiles m]
  · exact fun d m hd => by cases hd
  · exact fun d hd => by cases hd

/-- The calls of any tasks that their drivers serve and that spare open and refused DIR objects. -/
def callSteps (sp : Sysop W) : Steps (CallHistory W) (W.Task × Op W) Int where
  step l := CallHistory.call sp l.1 l.2
  Meets l v := Served sp l.1 v.state l.2 ∧ v.Spared l.1 l.2

/-- After every sequence of such calls the table and the pins are consistent; and the next call runs
without a null dereference, leaves them consistent and fails where it needs a missing callback,
exactly when it is one of these calls. -/
theorem missing_operations {sp : Sysop W} {v₀ v : CallHistory W}
    {log : List ((W.Task × Op W) × Int)} (h₀ : v₀.Tracked) (h : (callSteps sp).Run v₀ log v) :
    v.Consistent ∧ ∀ tcb op,
      (∃ r v',v.call sp tcb op = some (r,v') ∧ v'.Consistent ∧ (Lacks tcb v.state op → r < 0)) ↔
        Served sp tcb v.state op ∧ v.Spared tcb op := by
  have htracked : v.Tracked := by
    refine h.invariant ?_ h₀
    intro l v r v' hv hmeets hcall
    obtain ⟨⟨r,s⟩,hrun,he⟩ := Option.map_eq_some_iff.mp hcall
    cases he
    obtain ⟨hdef,hlisted,hm,_⟩ := hv.ran hrun
    exact (hv.next hdef hlisted hm).1 hmeets
  exact ⟨htracked.consistent,htracked.call_iff sp⟩

section Demo

def ownStat : Sysop demo := ⟨fun _ => false,(),fun _ => ()⟩

def openRoot : demo.Task × Op demo := (firstTask,.open_ (some CStr.root) O_RDONLY 0)

/-- Before the first call, with mounts of the driver that opens only its root. -/
def rootFresh : CallHistory demo := ⟨demoState (some rootOnly),fun _ => none,fun _ => .closed⟩

/-- The record after these calls, as far as they run. -/
def afterCalls (ls : List (demo.Task × Op demo)) : CallHistory demo :=
  ls.foldl (fun v l => ((callSteps ownStat).step l v).elim v Prod.snd) rootFresh

def mountRoot : demo.Task × Op demo := (firstTask,.mount (some demoMnt))

def opendirRoot (path : CStr) : demo.Task × Op demo :=
  (firstTask,.opendir (some demoDir) (some path))

def mixedCalls : List (demo.Task × Op demo) :=
  [mountRoot,openRoot,opendirRoot (CStr.ofList ['/','d']),opendirRoot CStr.root]

/-- A mount, a `vfs_open`, a `vfs_opendir` that is refused and one on the same DIR object that is
not. The driver has no `stat`, and `vfs_stat` fails. -/
theorem missing_operations_opened : ∃ log v,(callSteps ownStat).Run rootFresh log v ∧
    log.map Prod.snd = [0,0,-2,0] ∧ v.openFds demoMnt = 1 ∧ v.openDirs demoMnt = 1 ∧
    v.Consistent ∧
    (∃ r v',v.call ownStat (demoTask 0) (.closedir (some demoDir)) = some (r,v') ∧
      v'.Consistent) ∧
    ∃ r v',v.call ownStat (demoTask 0) (.stat (some CStr.root) (some Stat.zero)) = some (r,v') ∧
      v'.Consistent ∧ r < 0 := by
  have fileOps₁ : ∀ m : demo.Mnt,
      (((afterCalls [mountRoot]).state.mounts m).fs.bind (·.fOp)).isSome := by decide
  have dirOps₂ : ∀ m : demo.Mnt,
      (((afterCalls [mountRoot,openRoot]).state.mounts m).fs.bind (·.dOp)).isSome := by decide
  have dirOps₃ : ∀ m : demo.Mnt,(((afterCalls [mountRoot,openRoot,opendirRoot
      (CStr.ofList ['/','d'])]).state.mounts m).fs.bind (·.dOp)).isSome := by decide
  have h₁ : (callSteps ownStat).Run rootFresh [(mountRoot,0)] (afterCalls [mountRoot]) :=
    .next .start ⟨trivial,trivial⟩ rfl
  have h₂ : (callSteps ownStat).Run rootFresh _ (afterCalls [mountRoot,openRoot]) :=
    h₁.next (l := openRoot) (r := 0) ⟨fun m _ _ => Or.inl (fileOps₁ m),trivial⟩ rfl
  have h₃ : (callSteps ownStat).Run rootFresh _
      (afterCalls [mountRoot,openRoot,opendirRoot (CStr.ofList ['/','d'])]) :=
    h₂.next (l := opendirRoot (CStr.ofList ['/','d'])) (r := -2)
      ⟨fun m _ _ => dirOps₂ m,fun hopen => absurd hopen (by decide)⟩ rfl
  have h₄ : (callSteps ownStat).Run rootFresh _ (afterCalls mixedCalls) :=
    h₃.next (l := opendirRoot CStr.root) (r := 0)
      ⟨fun m _ _ => dirOps₃ m,fun hopen => absurd hopen (by decide)⟩ rfl
  have hfresh : rootFresh.Tracked := (demoState_fresh (some rootOnly)).tracked fun _ => rfl
  obtain ⟨hcons,hnext⟩ := missing_operations hfresh h₄
  have hopen : (afterCalls mixedCalls).dirs demoDir ≠ .refused := by decide
  obtain ⟨r,v',hclose,hclosed,_⟩ := (hnext (demoTask 0) (.closedir (some demoDir))).mpr
    ⟨trivial,hopen⟩
  obtain ⟨r',v'',hstat,hstated,hlacks⟩ := (hnext (demoTask 0)
    (.stat (some CStr.root) (some Stat.zero))).mpr ⟨(fun _ _ _ huses => by cases huses),trivial⟩
  have hneg : r' < 0 := hlacks ⟨demoMnt,_,rfl,rfl⟩
  exact ⟨_,_,h₄,rfl,by decide,by decide,hcons,⟨r,v',hclose,hclosed⟩,r',v'',hstat,hstated,hneg⟩

/-- A mount whose file system has no file operations. -/
def noFileOps : State demo :=
  { demoState none with
    mounts := fun _ => ⟨some { demoFs none with fOp := none },some CStr.root,0,0⟩ }

/-- `vfs_mount` accepts it, and the first `vfs_open` goes through the null table. -/
theorem open_without_file_ops : ∃ s,
    (Op.mount (some demoMnt)).prog.run (Action.execSysop ownStat (demoTask 0)) noFileOps =
      some (0,s) ∧
    openRoot.2.prog.run (Action.execSysop ownStat (demoTask 0)) s = none := ⟨_,rfl,rfl⟩

end Demo

end UcVfs
