import UcVfs.Vfs.Runs

/-!
# Pin accounting

Between calls `open_files` of a mount is the number of open descriptors and DIR objects on it,
unless a `vfs_opendir` has lost a pin.
-/

namespace UcVfs

open Framework

variable {W : World}

/-- Open file descriptors whose `mp` is the mount. -/
def openFds (s : State W) (m : W.Mnt) : ℕ :=
  (Finset.univ.filter fun f => (s.files f).tcb.isSome ∧ (s.files f).mp = some m).card

/-- DIR objects on the mount whose `vfs_opendir` returned 0 and that were not closed since. -/
def openDirs (c : VConfig W) (m : W.Mnt) : ℕ :=
  (Finset.univ.filter fun d => (c.pool.dirs d).map (·.mp) = some m).card

/-- Proper steps in which no `vfs_opendir` is made on an open DIR or resolves to a mount whose
file system has no directory operations. -/
def KeepsPins (c : VConfig W) (l : VLabel W) : Prop :=
  Proper c l ∧ match l with
    | .start _ (.opendir (some d) _) => (c.pool.dirs d).isNone
    | .act i (.findMount _) (.ok (m,_)) =>
      match c.task i with
      | .busy (.opendir _ _) _ _ => (c.shared.mounts m).fs.all fun fs => fs.dOp.isSome
      | _ => True
    | _ => True

def VConfig.keepsPins (c : VConfig W) : VLabel W → Bool
  | .start _ (.opendir (some d) _) => (c.pool.dirs d).isNone
  | .act i (.findMount _) (.ok (m,_)) =>
    match c.task i with
    | .busy (.opendir _ _) _ _ => (c.shared.mounts m).fs.all fun fs => fs.dOp.isSome
    | _ => true
  | _ => true

theorem keepsPins_iff {c : VConfig W} {l : VLabel W} :
    KeepsPins c l ↔ Proper c l ∧ VConfig.keepsPins c l := by
  refine and_congr_right' ?_
  unfold VConfig.keepsPins
  split
  · rfl
  · split <;> simp
  · simp

instance (c : VConfig W) (l : VLabel W) : Decidable (KeepsPins c l) :=
  decidable_of_iff _ keepsPins_iff.symm

private theorem next_reopened (h : Hold W) (x : Action W) (r : x.Resp) :
    (h.next x r).reopened = h.reopened := by
  have hnext := h.next_follows x r
  generalize h.next x r = h' at hnext
  cases hnext <;> rfl

private theorem next_found (h : Hold W) (x : Action W) (r : x.Resp)
    (hx : ∀ name,x ≠ .findMount name) : (h.next x r).found = h.found := by
  have hnext := h.next_follows x r
  generalize h.next x r = h' at hnext
  cases hnext with
  | found name m => exact absurd rfl (hx name)
  | _ => rfl

/-- No pin is lost so far, and no `vfs_opendir` in progress will lose one. -/
structure NoLeak (F : W.Mnt → Option (FileSystem W)) (c : VConfig W) : Prop where
  leak : ∀ m,c.pool.leak m = 0
  opendir : ∀ i dirp dirname h p,c.task i = .busy (.opendir dirp dirname) h p →
    h.reopened = false ∧ ∀ m fs,h.found = some m → F m = some fs → fs.dOp.isSome

private theorem noLeak_task {F : W.Mnt → Option (FileSystem W)} {c c' : VConfig W} {i : W.Task}
    {t : Task _ (Op W) Int (Hold W)} (hN : NoLeak F c) (hpool : c'.pool.leak = c.pool.leak)
    (htask : c'.task = Function.update c.task i t)
    (hnew : ∀ dirp dirname h p,t = .busy (.opendir dirp dirname) h p →
      h.reopened = false ∧ ∀ m fs,h.found = some m → F m = some fs → fs.dOp.isSome) :
    NoLeak F c' := by
  constructor
  · intro m
    rw [hpool]
    exact hN.leak m
  · intro j dirp dirname h p hj
    rw [htask] at hj
    by_cases hji : j = i
    · subst j
      rw [Function.update_self] at hj
      exact hnew dirp dirname h p hj
    · rw [Function.update_of_ne hji] at hj
      exact hN.opendir j dirp dirname h p hj

private theorem begins_leak {K K' : Pool W} {op : Op W} {h : Hold W} (hb : Begins K op K' h) :
    K'.leak = K.leak ∧ h.found = none ∧
      (h.reopened = false ∨ ∃ d,op.dirArg = some d ∧ h.reopened = (K.dirs d).isSome) := by
  cases hb with
  | fd => exact ⟨rfl,rfl,Or.inl rfl⟩
  | @dir d _ hd => exact ⟨rfl,rfl,Or.inr ⟨d,hd,rfl⟩⟩
  | nothing => exact ⟨rfl,rfl,Or.inl rfl⟩

theorem noLeak_reachable {s : State W} (h : Fresh s) {c : VConfig W}
    (hc : (vfs W).Reachable KeepsPins (initial s) c) : NoLeak s.fileSystems c := by
  induction hc with
  | init => exact ⟨fun _ => rfl,by simp [initial]⟩
  | @step c l c' hc hok hstep ih =>
    have hinv := inv_reachable (fun _ _ hl => hl.1) h hc
    cases hstep with
    | @start i op hidle =>
      obtain ⟨hleak,hfound,hre⟩ := begins_leak (begins c.pool i op)
      apply noLeak_task ih hleak rfl
      intro dirp dirname held p ht
      injection ht with hop hheld _
      subst hop hheld
      change ((c.pool.begin i (.opendir dirp dirname)).2).reopened = false ∧ _
      refine ⟨?_,by simp [vfs,hfound]⟩
      rcases hre with hre | ⟨d,hd,hre⟩
      · exact hre
      · obtain rfl : dirp = some d := hd
        have hnone : (c.pool.dirs d).isNone := hok.2
        simpa [hre] using hnone
    | @act i op held x next r s' hbusy hexec =>
      refine noLeak_task ih rfl rfl ?_
      intro dirp dirname held' p ht
      injection ht with hop hheld _
      subst hop hheld
      change (held.next x r).reopened = false ∧ ∀ m fs,(held.next x r).found = some m → _
      obtain ⟨hre,hops⟩ := ih.opendir i dirp dirname held _ hbusy
      refine ⟨(next_reopened held x r).trans hre,?_⟩
      intro m fs hm hfs
      by_cases hx : ∃ name,x = .findMount name
      · obtain ⟨name,rfl⟩ := hx
        rcases r with e | ⟨n,len⟩
        · exact hops m fs hm hfs
        · obtain rfl : n = m := by simpa [Hold.next] using hm
          have hlast := hok.2
          have hsame : (c.shared.mounts n).fs = some fs := (hinv.good.pins.fs n).trans hfs
          simpa [hbusy,hsame] using hlast
      · rw [next_found held x r fun name he => hx ⟨name,he⟩] at hm
        exact hops m fs hm hfs
    | @finish i op held r hbusy =>
      have hends : Ends s.fileSystems op held r := hinv.obeys i op held _ hbusy
      have hbal : held.handlePins = held.pins := by
        have hbal := hends.balanced
        cases op with
        | opendir dirp dirname =>
          obtain ⟨hre,hops⟩ := ih.opendir i dirp dirname held _ hbusy
          exact hbal.2 hre hops
        | _ => exact hbal
      have hleak : (c.pool.finish i op held r).leak = c.pool.leak := by
        funext m
        simp [Pool.finish,hbal]
      exact noLeak_task ih hleak rfl (by simp)

private theorem fd_pins_eq {F : W.Mnt → Option (FileSystem W)} {c : VConfig W} (hinv : VInv F c)
    (hidle : (vfs W).locals c = fun _ => Hold.idle) (f : Fd) (m : W.Mnt) :
    FdHandle.pins (c.pool.fds f) m =
      if (c.shared.files f).tcb.isSome ∧ (c.shared.files f).mp = some m then 1 else 0 := by
  have hh := hinv.good.fds.holders f
  rw [hidle] at hh
  simp only [fdHolders,ledger,Hold.fdWeight,Hold.idle,Pool.fdWeight] at hh
  cases hp : c.pool.fds f with
  | none =>
    have hfree : (c.shared.files f).tcb.isSome = false := by simpa [hp] using hh
    simp [FdHandle.pins,hfree]
  | some hd =>
    have hm := hinv.good.fds.pool f hd hp
    simp [FdHandle.pins,hm.tcb,hm.mp,one,eq_comm]

theorem umount_without_force {s : State W} {xs : List W.Mnt} (hxs : s.Listed xs) {m : W.Mnt}
    (hfree : (s.mounts m).openFiles = 0) (tcb : W.Task) :
    (vfsUmount (some m) false).run (Action.exec tcb) s =
      (vfsUmount (some m) true).run (Action.exec tcb) s := by
  obtain ⟨r,s',he,ho⟩ := vfsUmountCheck_outcome hxs (some m)
  have hfree' : (s'.mounts m).openFiles = 0 := ((ho.listed hxs).2.openFiles m).trans hfree
  have hbody : vfsUmountBody m false s' = vfsUmountBody m true s' := by
    have hlock : (s'.lockMount.mounts m).openFiles = 0 := hfree'
    simp [vfsUmountBody,hlock]
  have hexec : (Action.umountCheck (some m)).exec tcb s = some (r,s') := he
  simp only [vfsUmount,act,Prog.act_bind,Prog.run_step hexec]
  by_cases hr : r = -EBUSY
  · simp only [hr,if_true,Prog.act,Prog.run,Action.exec,hbody]
    cases vfsUmountBody m true s' <;> rfl
  · simp only [hr,if_false]

/-- Between calls the counter of a mount is the number of open descriptors and DIR objects on
it; a mount with none is unmounted without force as with it. -/
theorem pin_accounting {s : State W} (h : Fresh s) {c : VConfig W}
    (hc : (vfs W).Reachable KeepsPins (initial s) c) (hidle : ∀ i,c.task i = .idle)
    (m : W.Mnt) :
    (c.shared.mounts m).openFiles = UInt16.ofNat (openFds c.shared m + openDirs c m) ∧
    (openFds c.shared m + openDirs c m < 65536 →
      (c.shared.mounts m).openFiles.toNat = openFds c.shared m + openDirs c m) ∧
    (openFds c.shared m + openDirs c m = 0 → ∀ tcb,
      (vfsUmount (some m) false).run (Action.exec tcb) c.shared =
        (vfsUmount (some m) true).run (Action.exec tcb) c.shared) := by
  have hinv := inv_reachable (fun _ _ hl => hl.1) h hc
  have hlocals : (vfs W).locals c = fun _ => Hold.idle :=
    funext fun i => System.locals_idle (hidle i)
  have htotal : totalPins c.pool ((vfs W).locals c) m = openFds c.shared m + openDirs c m := by
    have hdirs : ∀ d,DirHandle.pins (c.pool.dirs d) m =
        if (c.pool.dirs d).map (·.mp) = some m then 1 else 0 := by
      intro d
      cases c.pool.dirs d with
      | none => rfl
      | some hd => simp [DirHandle.pins,one,eq_comm]
    simp only [totalPins,ledger,hlocals,Pool.pins,(noLeak_reachable h hc).leak,
      fd_pins_eq hinv hlocals,hdirs,openFds,openDirs,Finset.card_filter]
    simp [Hold.idle]
  have hcount := hinv.good.pins.count m
  rw [htotal] at hcount
  refine ⟨hcount,?_,?_⟩
  · intro hlt
    simp [hcount,Nat.mod_eq_of_lt hlt]
  · intro hzero tcb
    obtain ⟨xs,hxs⟩ := hinv.good.listed
    exact umount_without_force hxs (by simp [hcount,hzero]) tcb

/-- After a mount and an open. -/
theorem pin_accounting_opened : ∃ c : VConfig demo,openFds c.shared demoMnt = 1 ∧
    (c.shared.mounts demoMnt).openFiles =
      UInt16.ofNat (openFds c.shared demoMnt + openDirs c demoMnt) := by
  have hrun : ((vfs demo).drive KeepsPins
      (demoMount ++ callFor 0 (.open_ (some CStr.root) 0 0) 7)
      (initial (demoState none))).any (fun c => decide (openFds c.shared demoMnt = 1) &&
        decide (∀ i,Task.isIdle (c.task i) = true)) = true := by decide
  obtain ⟨c,hc,hP⟩ := System.drive_any hrun
  simp only [Bool.and_eq_true,decide_eq_true_eq,Task.isIdle_iff] at hP
  exact ⟨c,hP.1,(pin_accounting (demoState_fresh none) hc hP.2 demoMnt).1⟩

/-- A file system without directory operations: `vfs_opendir` fails and keeps its pin. -/
theorem opendir_loses_pin : ∃ c : VConfig demo,
    (vfs demo).Reachable Proper (initial (demoState none)) c ∧ (∀ i,c.task i = .idle) ∧
    openFds c.shared demoMnt = 0 ∧ openDirs c demoMnt = 0 ∧
    (c.shared.mounts demoMnt).openFiles = 1 ∧
    ((vfsUmount (some demoMnt) false).run (Action.exec (demoTask 0)) c.shared).map (·.1) =
      some (-EBUSY) := by
  have hrun : ((vfs demo).drive Proper
      (demoMount ++ callFor 0 (.opendir (some demoDir) (some CStr.root)) 4)
      (initial (demoState none))).any (fun c => decide (
        (∀ i,Task.isIdle (c.task i) = true) ∧
        openFds c.shared demoMnt = 0 ∧ openDirs c demoMnt = 0 ∧
        (c.shared.mounts demoMnt).openFiles = 1 ∧
        ((vfsUmount (some demoMnt) false).run (Action.exec (demoTask 0)) c.shared).map (·.1) =
          some (-EBUSY))) = true := by decide
  obtain ⟨c,hc,hP⟩ := System.drive_any hrun
  simp only [decide_eq_true_eq,Task.isIdle_iff] at hP
  exact ⟨c,hc,hP⟩

end UcVfs
