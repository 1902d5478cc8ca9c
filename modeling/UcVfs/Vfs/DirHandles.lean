import UcVfs.Framework.Unwinding
import UcVfs.Vfs.Resolution

/-!
# The life cycle of DIR objects

Calls of `vfs_opendir`, `vfs_readdir` and `vfs_closedir`, one after the other. Whether a DIR
object is open is encoded in its `mp` alone, which `vfs_opendir` sets before it asks the driver.
-/

namespace UcVfs

open Framework

variable {W : World}

inductive DirCall
  | opendir (dirname : Option CStr)
  | readdir (entry : Option Dirent)
  | closedir

def DirCall.op (d : W.Dir) : DirCall → Op W
  | opendir dirname => .opendir (some d) dirname
  | readdir entry => .readdir (some d) entry
  | closedir => .closedir (some d)

/-- Open from a `vfs_opendir` that returned 0 until the next `vfs_closedir`; refused when the
driver was asked to open it and failed, and nothing opened or closed it since. -/
inductive DirStatus
  | closed
  | opened
  | refused
  deriving DecidableEq

/-- What a call makes of the status, when it returned `r` and did or did not call the driver. -/
def DirStatus.after (status : DirStatus) (r : Int) (asked : Prop) [Decidable asked] :
    DirCall → DirStatus
  | .opendir _ => if r = 0 then .opened else if asked then .refused else status
  | .readdir _ => status
  | .closedir => .closed

/-- The state with the status of every DIR object and the number of `vfs_opendir` calls. -/
structure DirHistory (W : World) where
  state : State W
  status : W.Dir → DirStatus
  opens : ℕ

namespace DirHistory

/-- The record after a call that returned `r` in the state `s`. -/
def after (v : DirHistory W) (l : W.Dir × DirCall) (r : Int) (s : State W) : DirHistory W where
  state := s
  status := Function.update v.status l.1
    ((v.status l.1).after r (v.state.calls.length < s.calls.length) l.2)
  opens := match l.2 with
    | .opendir _ => v.opens + 1
    | _ => v.opens

def call (tcb : W.Task) (l : W.Dir × DirCall) (v : DirHistory W) : Option (Int × DirHistory W) :=
  ((l.2.op l.1).prog.run (Action.exec tcb) v.state).map fun w => (w.1,v.after l w.1 w.2)

/-- Only a DIR that is not open is opened. -/
def Proper (v : DirHistory W) (l : W.Dir × DirCall) : Prop :=
  match l.2 with
  | .opendir _ => v.status l.1 ≠ .opened
  | _ => True

/-- A DIR that the driver refused to open is not closed, nor read when its driver can read. -/
def Spared (v : DirHistory W) (l : W.Dir × DirCall) : Prop :=
  v.status l.1 = .refused → match l.2 with
    | .opendir _ => True
    | .readdir entry => entry = none ∨ ((v.state.dirs l.1).dOp.bind (·.readdir)).isNone
    | .closedir => False

/-- Neither a driver call nor a change of an `open_files`. -/
def Untouched (s s' : State W) : Prop :=
  s'.calls = s.calls ∧ ∀ m,(s'.mounts m).openFiles = (s.mounts m).openFiles

/-- What a call does to a DIR object that is open or not open. -/
def Conforms (v : DirHistory W) (l : W.Dir × DirCall) (r : Int) (s : State W) : Prop :=
  match l.2 with
  | .opendir _ => r = 0 → ∃ m,(s.dirs l.1).mp = some m ∧ s.mounts = (v.state.pin m).mounts
  | .readdir _ => v.status l.1 ≠ .opened → r < 0 ∧ Untouched v.state s
  | .closedir =>
    if v.status l.1 = .opened then
      ∃ m,(v.state.dirs l.1).mp = some m ∧ s.mounts = (v.state.unpin m).mounts ∧
        (s.calls = v.state.calls ∨ ∃ res,s.calls = .dir l.1 .closedir res :: v.state.calls)
    else
      r = -EBADF ∧ Untouched v.state s

/-- The DIR objects that are open on a mount. -/
def openDirs (v : DirHistory W) (m : W.Mnt) : ℕ :=
  ledger 0 (fun o : DirStatus × Option W.Mnt => if o = (.opened,some m) then 1 else 0)
    fun d => (v.status d,(v.state.dirs d).mp)

end DirHistory

/-- The calls on DIR objects that are proper and spare the refused ones. -/
def dirSteps (tcb : W.Task) : Steps (DirHistory W) (W.Dir × DirCall) Int where
  step := DirHistory.call tcb
  Meets l v := v.Proper l ∧ v.Spared l

/-- One DIR object got a new content; the list and the other DIR objects stay. -/
structure DirSet (s s' : State W) (d : W.Dir) (mp : Option W.Mnt) (dOp : Option (DirOps W)) :
    Prop where
  list : s'.mountsList = s.mountsList
  mp : (s'.dirs d).mp = mp
  dOp : (s'.dirs d).dOp = dOp
  other : ∀ e,e ≠ d → s'.dirs e = s.dirs e

/-- Everything one `vfs_opendir` can do. -/
inductive OpendirOutcome (tcb : W.Task) (s : State W) (d : W.Dir) (dirname : Option CStr) :
    Int → State W → Prop
  | unresolved {r} (hr : r < 0)
      (hno : ∀ name ∈ dirname,∀ m relPath,¬Selects tcb s name m relPath) :
      OpendirOutcome tcb s d dirname r s
  | unsupported {m name relPath} (hname : name ∈ dirname) (hsel : Selects tcb s name m relPath)
      (hd : (s.mounts m).fs.bind (·.dOp) = none) :
      OpendirOutcome tcb s d dirname (-EINVAL) (s.pin m)
  | refused {m name relPath dOp r s'} (hname : name ∈ dirname)
      (hsel : Selects tcb s name m relPath) (hd : (s.mounts m).fs.bind (·.dOp) = some dOp)
      (hr : r < 0) (hset : DirSet s s' d (some m) (some dOp)) (hfiles : s'.files = s.files)
      (hmounts : s'.mounts = s.mounts) (hcalls : s.calls.length < s'.calls.length) :
      OpendirOutcome tcb s d dirname r s'
  | opened {m name relPath dOp s'} (hname : name ∈ dirname)
      (hsel : Selects tcb s name m relPath) (hd : (s.mounts m).fs.bind (·.dOp) = some dOp)
      (hset : DirSet s s' d (some m) (some dOp)) (hfiles : s'.files = s.files)
      (hmounts : s'.mounts = (s.pin m).mounts) : OpendirOutcome tcb s d dirname 0 s'

theorem DirSet.refl (s : State W) (d : W.Dir) :
    DirSet s s d (s.dirs d).mp (s.dirs d).dOp := ⟨rfl,rfl,rfl,fun _ _ => rfl⟩

theorem vfsOpendir_outcome {s : State W} {xs : List W.Mnt} (h : s.Listed xs) (tcb : W.Task)
    (d : W.Dir) (dirname : Option CStr) :
    ∃ r s',(vfsOpendir (some d) dirname).run (Action.exec tcb) s = some (r,s') ∧
      OpendirOutcome tcb s d dirname r s' := by
  cases dirname with
  | none => exact ⟨_,_,rfl,.unresolved (by decide) (by simp)⟩
  | some name =>
    rcases findMount_outcome h tcb name with hrun | ⟨m,hm,relPath,hrun⟩
    · refine ⟨-ENOENT,s,?_,.unresolved (by decide) ?_⟩
      case refine_2 =>
        rintro _ ⟨⟩ m relPath
        exact not_selects hrun
      simp only [vfsOpendir,Prog.run_bind hrun]
      rfl
    · obtain ⟨p,hp,_⟩ := h.accepted m hm
      obtain ⟨fs,hfs⟩ := Option.isSome_iff_exists.mp (Mount.accepted_eq_some.mp hp).1
      have hget : (Action.fs m).exec tcb (s.pin m) = some (some fs,s.pin m) := by
        simp [Action.exec,State.pin,State.modifyMount,hfs]
      simp only [vfsOpendir,Prog.run_bind hrun,mountFs,act,Prog.act_bind,Prog.step_bind,
        Prog.run_step hget,Prog.pure_eq,Prog.ret_bind]
      cases hd : fs.dOp with
      | none => exact ⟨_,_,rfl,.unsupported rfl hrun (by simp [hfs,hd])⟩
      | some dOp =>
        set s₁ := (s.pin m).setDir d ⟨some dOp,some m,W.zeroed⟩ with hs₁
        have hinit : (Action.initDir d m dOp).exec tcb (s.pin m) = some ((),s₁) := rfl
        have hbind : (s.mounts m).fs.bind (·.dOp) = some dOp := by simp [hfs,hd]
        have hself : s₁.dirs d = ⟨some dOp,some m,W.zeroed⟩ := by simp [hs₁,State.setDir]
        have hother : ∀ e,e ≠ d → s₁.dirs e = s.dirs e := by
          intro e he
          simp [hs₁,State.setDir,he,State.pin,State.modifyMount]
        simp only [Prog.run_step hinit]
        cases ho : dOp.opendir with
        | none =>
          simp only [Option.isSome_none,Bool.false_eq_true,if_false]
          exact ⟨0,s₁,rfl,.opened rfl hrun hbind ⟨rfl,by rw [hself],by rw [hself],hother⟩ rfl rfl⟩
        | some f =>
          generalize (if relPath.at_ 0 = nul then CStr.root else relPath) = below
          set s₂ := (dirCallback d (.opendir below) (f below) s₁).2 with hs₂
          have hcall : (Action.dirCall d (.opendir below)).exec tcb s₁ =
              some ((dirCallback d (.opendir below) (f below) s₁).1,s₂) := by
            simp [Action.exec,hself,DirOps.callback,ho,hs₂]
          have hset : DirSet s s₂ d (some m) (some dOp) := by
            refine ⟨rfl,?_,?_,?_⟩
            · simp [hs₂,dirCallback,State.setDir,State.returned,hself]
            · simp [hs₂,dirCallback,State.setDir,State.returned,hself]
            · intro e he
              simpa [hs₂,dirCallback,State.setDir,State.returned,he] using hother e he
          have hmounts : s₂.mounts = (s.pin m).mounts := rfl
          simp only [Option.isSome_some,if_true,Prog.run_step hcall]
          split
          · rename_i hneg
            refine ⟨_,s₂.unpin m,rfl,.refused rfl hrun hbind hneg
              ⟨rfl,hset.mp,hset.dOp,hset.other⟩ rfl (State.unpin_pin_mounts hmounts) ?_⟩
            exact Nat.lt_succ_self s.calls.length
          · exact ⟨0,s₂,rfl,.opened rfl hrun hbind hset rfl hmounts⟩

/-- Everything one `vfs_readdir` can do. -/
inductive ReaddirOutcome (s : State W) (d : W.Dir) (entry : Option Dirent) :
    Int → State W → Prop
  | unsupported {r} (hr : r < 0)
      (hno : entry = none ∨ ((s.dirs d).dOp.bind (·.readdir)).isNone) :
      ReaddirOutcome s d entry r s
  | read {r s'} (hentry : entry.isSome) (hread : ((s.dirs d).dOp.bind (·.readdir)).isSome)
      (hset : DirSet s s' d (s.dirs d).mp (s.dirs d).dOp) (hfiles : s'.files = s.files)
      (hmounts : s'.mounts = s.mounts)
      (hcalls : s.calls.length < s'.calls.length) : ReaddirOutcome s d entry r s'

theorem vfsReaddir_outcome (s : State W) (tcb : W.Task) (d : W.Dir) (entry : Option Dirent) :
    ∃ r s',(Prod.fst <$> vfsReaddir (some d) entry).run (Action.exec tcb) s = some (r,s') ∧
      ReaddirOutcome s d entry r s' := by
  cases entry with
  | none => exact ⟨_,_,rfl,.unsupported (by decide) (Or.inl rfl)⟩
  | some entry =>
    have hget : (Action.dir d).exec tcb s = some (s.dirs d,s) := rfl
    simp only [vfsReaddir,act,Prog.act_bind,Prog.step_map,Prog.run_step hget]
    cases hread : (s.dirs d).dOp.bind (·.readdir) with
    | none => exact ⟨_,_,rfl,.unsupported (show -EINVAL < 0 by decide)
        (Or.inr (by rw [hread]; rfl))⟩
    | some f =>
      obtain ⟨dOp,hd,hf⟩ := Option.bind_eq_some_iff.mp hread
      have hcall : (Action.dirCall d (.readdir entry)).exec tcb s =
          some (dirCallback d (.readdir entry) (f entry) s) := by
        simp [Action.exec,hd,DirOps.callback,hf]
      simp only [Prog.step_map,Prog.run_step hcall]
      refine ⟨_,_,rfl,.read rfl (by rw [hread]; rfl) ⟨rfl,?_,?_,?_⟩ rfl rfl ?_⟩
      · simp [State.setDir,State.returned]
      · simp [State.setDir,State.returned]
      · intro e he
        simp [State.setDir,State.returned,he]
      · exact Nat.lt_succ_self s.calls.length

/-- Everything one `vfs_closedir` can do. -/
inductive ClosedirOutcome (s : State W) (d : W.Dir) : Int → State W → Prop
  | unopened (hmp : (s.dirs d).mp = none) : ClosedirOutcome s d (-EBADF) s
  | closed {m r s'} (hmp : (s.dirs d).mp = some m) (hset : DirSet s s' d none none)
      (hfiles : s'.files = s.files) (hmounts : s'.mounts = (s.unpin m).mounts)
      (hcalls : s'.calls = s.calls ∨ ∃ res,s'.calls = .dir d .closedir res :: s.calls) :
      ClosedirOutcome s d r s'

theorem vfsClosedir_outcome (s : State W) (tcb : W.Task) (d : W.Dir) :
    ∃ r s',(vfsClosedir (some d)).run (Action.exec tcb) s = some (r,s') ∧
      ClosedirOutcome s d r s' := by
  have hget : (Action.dir d).exec tcb s = some (s.dirs d,s) := rfl
  have hclear : ∀ s₁ : State W,s₁.mountsList = s.mountsList → s₁.mounts = s.mounts →
      (∀ e,e ≠ d → s₁.dirs e = s.dirs e) → ∀ m,
      DirSet s ((s₁.setDir d ⟨none,none,W.zeroed⟩).unpin m) d none none ∧
        ((s₁.setDir d ⟨none,none,W.zeroed⟩).unpin m).mounts = (s.unpin m).mounts := by
    intro s₁ hlist hmounts hother m
    refine ⟨⟨hlist,?_,?_,?_⟩,?_⟩
    · simp [State.unpin,State.modifyMount,State.setDir]
    · simp [State.unpin,State.modifyMount,State.setDir]
    · intro e he
      simpa [State.unpin,State.modifyMount,State.setDir,he] using hother e he
    · simp [State.unpin,State.modifyMount,State.setDir,hmounts]
  simp only [vfsClosedir,act,Prog.act_bind,Prog.run_step hget]
  cases hmp : (s.dirs d).mp with
  | none => exact ⟨_,_,rfl,.unopened hmp⟩
  | some m =>
    cases hclose : (s.dirs d).dOp.bind (·.closedir) with
    | none =>
      obtain ⟨hset,hmounts⟩ := hclear s rfl rfl (fun _ _ => rfl) m
      exact ⟨0,_,rfl,.closed hmp hset rfl hmounts (Or.inl rfl)⟩
    | some f =>
      obtain ⟨dOp,hd,hf⟩ := Option.bind_eq_some_iff.mp hclose
      have hcall : (Action.dirCall d .closedir).exec tcb s =
          some (dirCallback d .closedir f s) := by
        simp [Action.exec,hd,DirOps.callback,hf]
      obtain ⟨hset,hmounts⟩ := hclear (dirCallback d .closedir f s).2 rfl rfl
        (fun e he => by simp [dirCallback,State.setDir,State.returned,he]) m
      simp only [Prog.run_step hcall]
      exact ⟨_,_,rfl,.closed hmp hset rfl hmounts (Or.inr ⟨_,rfl⟩)⟩

namespace DirHistory

variable {tcb : W.Task} {v₀ v : DirHistory W}

/-- A DIR that is not open has been zeroed, or has the `mp` of a refused `vfs_opendir`. Each
open DIR holds one pin on its mount; on top of those at the start come the pins that a
`vfs_opendir` took without opening anything, `lost` in number. -/
structure Inv (base : W.Mnt → ℕ) (v : DirHistory W) : Prop where
  listed : ∃ xs,v.state.Listed xs
  closed : ∀ d,v.status d = .closed → (v.state.dirs d).mp = none ∧ (v.state.dirs d).dOp = none
  held : ∀ d,v.status d ≠ .closed → (v.state.dirs d).mp.isSome
  pins : ∀ m,∃ lost,lost + v.openDirs m ≤ v.opens ∧
    (v.state.mounts m).openFiles = UInt16.ofNat (base m + lost + v.openDirs m)

/-- The record of one DIR object changed from its old content to a new one. -/
theorem openDirs_update (v v' : DirHistory W) {d : W.Dir} (m : W.Mnt)
    (hstatus : ∀ e,e ≠ d → v'.status e = v.status e)
    (hmp : ∀ e,e ≠ d → (v'.state.dirs e).mp = (v.state.dirs e).mp) :
    v'.openDirs m + (if (v.status d,(v.state.dirs d).mp) = (.opened,some m) then 1 else 0) =
      v.openDirs m + if (v'.status d,(v'.state.dirs d).mp) = (.opened,some m) then 1 else 0 := by
  have hrow : (fun e => (v'.status e,(v'.state.dirs e).mp)) =
      Function.update (fun e => (v.status e,(v.state.dirs e).mp)) d
        (v'.status d,(v'.state.dirs d).mp) := by
    funext e
    by_cases he : e = d
    · subst e
      simp
    · simp [he,hstatus e he,hmp e he]
  have hsum := ledger_update 0 0
    (fun o : DirStatus × Option W.Mnt => if o = (.opened,some m) then 1 else 0)
    (fun e => (v.status e,(v.state.dirs e).mp)) d (v'.status d,(v'.state.dirs d).mp)
  simp only [openDirs,hrow]
  omega

/-- A DIR object is written; what is left to say is what became of the pins. -/
theorem Inv.set {base : W.Mnt → ℕ} {v' : DirHistory W} {d : W.Dir} {mp : Option W.Mnt}
    {dOp : Option (DirOps W)} (hinv : v.Inv base) (hset : DirSet v.state v'.state d mp dOp)
    (hstatus : ∀ e,e ≠ d → v'.status e = v.status e)
    (hlisted : ∀ xs,v.state.Listed xs → v'.state.Listed xs)
    (hclosed : v'.status d = .closed → mp = none ∧ dOp = none)
    (hheld : v'.status d ≠ .closed → mp.isSome)
    (hpins : ∀ m,∃ more,more + v'.openDirs m + v.opens ≤ v'.opens + v.openDirs m ∧
      (v'.state.mounts m).openFiles + UInt16.ofNat (v.openDirs m) =
        (v.state.mounts m).openFiles + UInt16.ofNat (more + v'.openDirs m)) :
    v'.Inv base := by
  refine ⟨?_,?_,?_,?_⟩
  · obtain ⟨xs,hxs⟩ := hinv.listed
    exact ⟨xs,hlisted xs hxs⟩
  · intro e hc
    by_cases he : e = d
    · subst e
      rw [hset.mp,hset.dOp]
      exact hclosed hc
    · rw [hset.other e he]
      exact hinv.closed e (by rwa [← hstatus e he])
  · intro e hc
    by_cases he : e = d
    · subst e
      rw [hset.mp]
      exact hheld hc
    · rw [hset.other e he]
      exact hinv.held e (by rwa [← hstatus e he])
  · intro m
    obtain ⟨lost,hle,hcount⟩ := hinv.pins m
    obtain ⟨more,hmore,hnew⟩ := hpins m
    refine ⟨lost + more,by omega,?_⟩
    simp only [UInt16.ofNat_add] at hcount hnew ⊢
    grind

theorem after_status_of_ne (v : DirHistory W) (l : W.Dir × DirCall) (r : Int) (s : State W)
    {e : W.Dir} (he : e ≠ l.1) : (v.after l r s).status e = v.status e := by
  simp [after,he]

/-- A `vfs_opendir` of a DIR that is not open. -/
theorem Inv.opendir {base : W.Mnt → ℕ} (hinv : v.Inv base) {d : W.Dir} (dirname : Option CStr)
    (hproper : v.status d ≠ .opened) {r : Int} {s : State W}
    (ho : OpendirOutcome tcb v.state d dirname r s) :
    v.Conforms (d,.opendir dirname) r s ∧ (v.after (d,.opendir dirname) r s).Inv base := by
  have hopens : (v.after (d,.opendir dirname) r s).opens = v.opens + 1 := rfl
  have hsum : ∀ mp dOp m,DirSet v.state s d mp dOp →
      (v.after (d,.opendir dirname) r s).openDirs m = v.openDirs m +
        if ((v.after (d,.opendir dirname) r s).status d,mp) = (.opened,some m) then 1 else 0 := by
    intro mp dOp m hset
    have hother := openDirs_update v (v.after (d,.opendir dirname) r s) m
      (fun e he => after_status_of_ne v _ r s he) (fun e he => congrArg DirObj.mp (hset.other e he))
    have hold : ¬(v.status d,(v.state.dirs d).mp) = (.opened,some m) :=
      fun he => hproper (congrArg Prod.fst he)
    rw [if_neg hold] at hother
    have hmp : ((v.after (d,.opendir dirname) r s).state.dirs d).mp = mp := hset.mp
    rwa [hmp] at hother
  cases ho with
  | unresolved hr _ =>
    have hst : (v.after (d,.opendir dirname) r v.state).status d = v.status d := by
      simp [after,DirStatus.after,ne_of_lt hr]
    have hset := DirSet.refl v.state d
    refine ⟨fun he => absurd he (ne_of_lt hr),hinv.set hset ?_ ?_ ?_ ?_ ?_⟩
    · exact fun e he => after_status_of_ne v _ r _ he
    · exact fun xs hxs => hxs
    · exact fun hc => hinv.closed d (hst ▸ hc)
    · exact fun hc => hinv.held d (hst ▸ hc)
    · intro m
      have hm := hsum _ _ m hset
      rw [if_neg (by simp [hst,hproper])] at hm
      refine ⟨0,by omega,?_⟩
      rw [hm,Nat.zero_add]
      rfl
  | @unsupported m =>
    have hr : (-EINVAL : Int) ≠ 0 := by decide
    have hcalls : (v.state.pin m).calls = v.state.calls := rfl
    have hst : (v.after (d,.opendir dirname) (-EINVAL) (v.state.pin m)).status d =
        v.status d := by
      simp [after,DirStatus.after,hr,hcalls]
    have hset : DirSet v.state (v.state.pin m) d (v.state.dirs d).mp (v.state.dirs d).dOp :=
      ⟨rfl,rfl,rfl,fun _ _ => rfl⟩
    refine ⟨fun he => absurd he hr,hinv.set hset ?_ ?_ ?_ ?_ ?_⟩
    · exact fun e he => after_status_of_ne v _ _ _ he
    · exact fun xs hxs => hxs.pin m
    · exact fun hc => hinv.closed d (hst ▸ hc)
    · exact fun hc => hinv.held d (hst ▸ hc)
    · intro n
      have hn := hsum _ _ n hset
      rw [if_neg (by simp [hst,hproper])] at hn
      refine ⟨if n = m then 1 else 0,by split <;> omega,?_⟩
      change ((v.state.pin m).mounts n).openFiles + _ = _
      rw [State.pin_openFiles,hn]
      split <;> simp only [UInt16.ofNat_add] <;> grind
  | refused _ _ _ hr hset _ hmounts hcalls =>
    have hst : (v.after (d,.opendir dirname) r s).status d = .refused := by
      simp [after,DirStatus.after,ne_of_lt hr,hcalls]
    refine ⟨fun he => absurd he (ne_of_lt hr),hinv.set hset ?_ ?_ ?_ ?_ ?_⟩
    · exact fun e he => after_status_of_ne v _ r _ he
    · exact fun xs hxs => hxs.congr hset.list hmounts
    · exact fun hc => absurd (hst.symm.trans hc) (by decide)
    · exact fun _ => rfl
    · intro m
      have hm := hsum _ _ m hset
      rw [if_neg (by simp [hst])] at hm
      refine ⟨0,by omega,?_⟩
      change (s.mounts m).openFiles + _ = _
      rw [hm,hmounts,Nat.zero_add]
      rfl
  | @opened m _ _ _ _ _ _ _ hset _ hmounts =>
    have hst : (v.after (d,.opendir dirname) 0 s).status d = .opened := by
      simp [after,DirStatus.after]
    refine ⟨fun _ => ⟨m,hset.mp,hmounts⟩,hinv.set hset ?_ ?_ ?_ ?_ ?_⟩
    · exact fun e he => after_status_of_ne v _ _ _ he
    · exact fun xs hxs => (hxs.pin m).congr hset.list hmounts
    · exact fun hc => absurd (hst.symm.trans hc) (by decide)
    · exact fun _ => rfl
    · intro n
      have hn := hsum _ _ n hset
      rw [hst] at hn
      refine ⟨0,by split at hn <;> omega,?_⟩
      change (s.mounts n).openFiles + _ = _
      rw [hn,hmounts,State.pin_openFiles]
      by_cases hnm : n = m
      · subst n
        simp only [if_true,UInt16.ofNat_add]
        grind
      · simp [hnm,Ne.symm hnm]

/-- A call that leaves the status and the DIR object as they are, and no pin. -/
theorem Inv.keep {base : W.Mnt → ℕ} (hinv : v.Inv base) {l : W.Dir × DirCall} {r : Int}
    {s : State W} (hset : DirSet v.state s l.1 (v.state.dirs l.1).mp (v.state.dirs l.1).dOp)
    (hmounts : s.mounts = v.state.mounts) (hst : (v.after l r s).status l.1 = v.status l.1)
    (hopens : v.opens ≤ (v.after l r s).opens) : (v.after l r s).Inv base := by
  have hother := fun m => openDirs_update v (v.after l r s) (d := l.1) m
    (fun e he => after_status_of_ne v _ r s he) (fun e he => congrArg DirObj.mp (hset.other e he))
  have hmp : ((v.after l r s).state.dirs l.1).mp = (v.state.dirs l.1).mp := hset.mp
  refine hinv.set hset ?_ ?_ ?_ ?_ ?_
  · exact fun e he => after_status_of_ne v _ r _ he
  · exact fun xs hxs => hxs.congr hset.list hmounts
  · exact fun hc => hinv.closed l.1 (hst ▸ hc)
  · exact fun hc => hinv.held l.1 (hst ▸ hc)
  · intro m
    have hm := hother m
    rw [hst,hmp] at hm
    refine ⟨0,by omega,?_⟩
    change (s.mounts m).openFiles + _ = _
    rw [hmounts,Nat.zero_add,show (v.after l r s).openDirs m = v.openDirs m by omega]

theorem Inv.readdir {base : W.Mnt → ℕ} (hinv : v.Inv base) {d : W.Dir} {entry : Option Dirent}
    {r : Int} {s : State W} (ho : ReaddirOutcome v.state d entry r s) :
    (v.Conforms (d,.readdir entry) r s ↔ v.Spared (d,.readdir entry)) ∧
      (v.after (d,.readdir entry) r s).Inv base := by
  have hst : (v.after (d,.readdir entry) r s).status d = v.status d := by
    simp [after,DirStatus.after]
  cases ho with
  | unsupported hr hno =>
    refine ⟨⟨fun _ _ => hno,fun _ _ => ⟨hr,rfl,fun _ => rfl⟩⟩,?_⟩
    exact hinv.keep (.refl v.state d) rfl hst le_rfl
  | read hentry hread hset _ hmounts hcalls =>
    refine ⟨?_,hinv.keep hset hmounts hst le_rfl⟩
    constructor
    · intro hconf hrefused
      obtain ⟨_,hsame,_⟩ := hconf (by rw [hrefused]; decide)
      rw [hsame] at hcalls
      exact absurd hcalls (lt_irrefl _)
    · intro hspared hopen
      cases hd : v.status d with
      | opened => exact absurd hd hopen
      | closed =>
        rw [(hinv.closed d hd).2] at hread
        cases hread
      | refused =>
        rcases hspared hd with he | hno
        · rw [he] at hentry
          cases hentry
        · rw [Option.isNone_iff_eq_none] at hno
          rw [hno] at hread
          cases hread

theorem Inv.closedir {base : W.Mnt → ℕ} (hinv : v.Inv base) {d : W.Dir} {r : Int} {s : State W}
    (ho : ClosedirOutcome v.state d r s) :
    (v.Conforms (d,.closedir) r s ↔ v.Spared (d,.closedir)) ∧
      (v.Spared (d,.closedir) → (v.after (d,.closedir) r s).Inv base) := by
  have hst : (v.after (d,.closedir) r s).status d = .closed := by simp [after,DirStatus.after]
  cases ho with
  | unopened hmp =>
    have hclosed : v.status d = .closed := by
      by_contra hne
      have := hinv.held d hne
      rw [hmp] at this
      cases this
    refine ⟨⟨fun _ he => ?_,fun _ => ?_⟩,fun _ => ?_⟩
    · rw [hclosed] at he
      cases he
    · simp [Conforms,hclosed,Untouched]
    · exact hinv.keep (.refl v.state d) rfl (hst.trans hclosed.symm) le_rfl
  | @closed m r s hmp hset _ hmounts hcalls =>
    cases hd : v.status d with
    | closed =>
      rw [(hinv.closed d hd).1] at hmp
      cases hmp
    | refused =>
      have hno : ¬v.Spared (d,.closedir) := fun hspared => hspared hd
      refine ⟨iff_of_false ?_ hno,fun hspared => absurd hspared hno⟩
      simp only [Conforms,hd,reduceCtorEq,if_false]
      rintro ⟨_,_,hsame⟩
      have hm := hsame m
      rw [hmounts,State.unpin_openFiles,if_pos rfl] at hm
      grind
    | opened =>
      have hyes : v.Spared (d,.closedir) := by
        intro hrefused
        rw [hd] at hrefused
        cases hrefused
      refine ⟨iff_of_true ?_ hyes,fun _ => hinv.set hset ?_ ?_ ?_ ?_ ?_⟩
      · simp only [Conforms,hd,if_true]
        exact ⟨m,hmp,hmounts,hcalls⟩
      · exact fun e he => after_status_of_ne v _ _ _ he
      · exact fun xs hxs => (hxs.unpin m).congr hset.list hmounts
      · exact fun _ => ⟨rfl,rfl⟩
      · exact fun hc => absurd hst hc
      · intro n
        have hn := openDirs_update v (v.after (d,.closedir) r s) n
          (fun e he => after_status_of_ne v _ r s he)
          (fun e he => congrArg DirObj.mp (hset.other e he))
        rw [hd,hst,hmp] at hn
        simp only [Prod.mk.injEq,true_and,reduceCtorEq,false_and,if_false] at hn
        have hopens : (v.after (d,.closedir) r s).opens = v.opens := rfl
        refine ⟨0,by omega,?_⟩
        change (s.mounts n).openFiles + _ = _
        rw [hmounts,State.unpin_openFiles]
        by_cases hnm : n = m
        · subst n
          simp only [if_true] at hn
          rw [show v.openDirs m = (v.after (d,.closedir) r s).openDirs m + 1 by omega]
          simp only [if_true,UInt16.ofNat_add]
          grind
        · rw [if_neg (by simpa using Ne.symm hnm)] at hn
          rw [show v.openDirs n = (v.after (d,.closedir) r s).openDirs n by omega]
          simp [hnm]

/-- Every proper call runs; it does what it should exactly when it spares a refused DIR, and
then the record stays right. -/
theorem Inv.call {base : W.Mnt → ℕ} (hinv : v.Inv base) (tcb : W.Task) {l : W.Dir × DirCall}
    (hproper : v.Proper l) : ∃ r s,v.call tcb l = some (r,v.after l r s) ∧
      (v.Conforms l r s ↔ v.Spared l) ∧ (v.Spared l → (v.after l r s).Inv base) := by
  obtain ⟨d,c⟩ := l
  obtain ⟨xs,hxs⟩ := hinv.listed
  cases c with
  | opendir dirname =>
    obtain ⟨r,s,hrun,ho⟩ := vfsOpendir_outcome hxs tcb d dirname
    obtain ⟨hconf,hafter⟩ := hinv.opendir dirname hproper ho
    refine ⟨r,s,?_,iff_of_true hconf fun _ => trivial,fun _ => hafter⟩
    simp [DirHistory.call,DirCall.op,Op.prog,hrun]
  | readdir entry =>
    obtain ⟨r,s,hrun,ho⟩ := vfsReaddir_outcome v.state tcb d entry
    obtain ⟨hconf,hafter⟩ := hinv.readdir ho
    refine ⟨r,s,?_,hconf,fun _ => hafter⟩
    simp [DirHistory.call,DirCall.op,Op.prog,hrun]
  | closedir =>
    obtain ⟨r,s,hrun,ho⟩ := vfsClosedir_outcome v.state tcb d
    obtain ⟨hconf,hafter⟩ := hinv.closedir ho
    refine ⟨r,s,?_,hconf,hafter⟩
    simp [DirHistory.call,DirCall.op,Op.prog,hrun]

/-- No DIR object has been used, and the mounts are as other calls left them. -/
structure Zeroed (v : DirHistory W) : Prop where
  listed : ∃ xs,v.state.Listed xs
  status : ∀ d,v.status d = .closed
  dirs : ∀ d,v.state.dirs d = ⟨none,none,W.zeroed⟩
  opens : v.opens = 0

theorem Zeroed.inv (h : v.Zeroed) : v.Inv fun m => (v.state.mounts m).openFiles.toNat := by
  have hnone : ∀ m,v.openDirs m = 0 := by
    intro m
    simp [openDirs,ledger,h.status]
  refine ⟨h.listed,?_,fun d hd => absurd (h.status d) hd,?_⟩
  · intro d _
    rw [h.dirs]
    exact ⟨rfl,rfl⟩
  · intro m
    refine ⟨0,by rw [hnone]; omega,?_⟩
    rw [hnone]
    simp

theorem Inv.run {base : W.Mnt → ℕ} {log : List ((W.Dir × DirCall) × Int)}
    (h : (dirSteps tcb).Run v₀ log v) (h₀ : v₀.Inv base) : v.Inv base := by
  refine h.invariant ?_ h₀
  intro l v r v' hinv hmeets hstep
  obtain ⟨r₁,s,hcall,_,hafter⟩ := hinv.call tcb hmeets.1
  rw [show (dirSteps tcb).step l v = some (r₁,v.after l r₁ s) from hcall] at hstep
  obtain ⟨_,rfl⟩ := Prod.mk.inj (Option.some.inj hstep)
  exact hafter hmeets.2

end DirHistory

/-- In every sequence of calls on DIR objects that spares the refused ones, `mp` says which
of them are open, but for the refused; each open DIR has its pin in `open_files`, whose count
is exact while the pins fit into it; and the next proper call does what it should exactly when
it spares the refused ones too. -/
theorem dir_life_cycle {tcb : W.Task} {v₀ v : DirHistory W}
    {log : List ((W.Dir × DirCall) × Int)} (h₀ : v₀.Zeroed)
    (h : (dirSteps tcb).Run v₀ log v) :
    (∀ d,v.status d ≠ .refused →
      ((v.state.dirs d).mp.isSome ↔ v.status d = .opened)) ∧
    (∀ m,(v₀.state.mounts m).openFiles.toNat + v.opens < 2 ^ 16 →
      (v₀.state.mounts m).openFiles.toNat + v.openDirs m ≤
        (v.state.mounts m).openFiles.toNat) ∧
    ∀ l,v.Proper l → ∃ r s,v.call tcb l = some (r,v.after l r s) ∧
      (v.Conforms l r s ↔ v.Spared l) := by
  have hinv := h₀.inv.run h
  refine ⟨?_,?_,?_⟩
  · intro d hd
    cases hst : v.status d with
    | closed => simp [(hinv.closed d hst).1]
    | refused => exact absurd hst hd
    | opened => simpa using hinv.held d (by rw [hst]; decide)
  · intro m hfit
    obtain ⟨lost,hle,hcount⟩ := hinv.pins m
    have hlt : (v₀.state.mounts m).openFiles.toNat + lost + v.openDirs m < UInt16.size := by
      change _ < 2 ^ 16
      omega
    rw [hcount,UInt16.toNat_ofNat_of_lt' hlt]
    omega
  · intro l hproper
    obtain ⟨r,s,hcall,hiff,_⟩ := hinv.call tcb hproper
    exact ⟨r,s,hcall,hiff⟩

section Demo

/-- Directories of a driver that opens only its root. -/
def rootOnly : DirOps demo where
  opendir := some fun dirname dirp _ =>
    ⟨if dirname = CStr.root then 0 else -ENOENT,⟨0,[]⟩,dirp.priv,()⟩
  readdir := some fun entry dirp _ => ⟨0,entry,dirp.priv,()⟩
  closedir := some fun dirp _ => ⟨0,⟨0,[]⟩,dirp.priv,()⟩

/-- The state after a file system with these directories was mounted on "/". -/
def rootOnlyMounted : State demo :=
  ((MountCall.mount (some demoMnt)).run firstTask (demoState (some rootOnly))).elim
    (demoState none) Prod.snd

def rootOnlyStart : DirHistory demo := ⟨rootOnlyMounted,fun _ => .closed,0⟩

theorem rootOnlyStart_zeroed : rootOnlyStart.Zeroed := by
  refine ⟨?_,fun _ => rfl,fun _ => rfl,rfl⟩
  have hrun : (MountCall.mount (some demoMnt)).run (demoTask 0) (demoState (some rootOnly)) =
      some (0,rootOnlyMounted) := rfl
  have hhist : MountHistory (demoState (some rootOnly)) _ rootOnlyMounted := .call .start hrun
  exact ⟨_,hhist.listed rfl⟩

instance (v : DirHistory W) (l : W.Dir × DirCall) : Decidable (v.Proper l) := by
  unfold DirHistory.Proper
  split <;> infer_instance

instance (v : DirHistory W) (l : W.Dir × DirCall) : Decidable (v.Spared l) := by
  unfold DirHistory.Spared
  split <;> infer_instance

instance (tcb : W.Task) (l : W.Dir × DirCall) (v : DirHistory W) :
    Decidable ((dirSteps tcb).Meets l v) := inferInstanceAs (Decidable (_ ∧ _))

/-- The root is opened, read and closed, and another `vfs_opendir` is refused. -/
def rootCalls : List ((demo.Dir × DirCall) × Int) :=
  [((demoDir,.opendir (some CStr.root)),0),((demoDir,.readdir (some ⟨0,[]⟩)),0),
    ((demoDir,.closedir),0),((demoDir,.opendir (some (CStr.ofList ['/','d']))),-2)]

theorem dir_life_cycle_root : ∃ v,(dirSteps (demoTask 0)).Run rootOnlyStart rootCalls v ∧
    v.status demoDir = .refused ∧ (v.state.mounts demoMnt).openFiles.toNat = 0 ∧
    ∀ l,v.Proper l → ∃ r s,v.call (demoTask 0) l = some (r,v.after l r s) ∧
      (v.Conforms l r s ↔ v.Spared l) := by
  have hfollow : ((dirSteps (demoTask 0)).follow (rootCalls.map Prod.fst) rootOnlyStart).any
      (fun w => decide (w.1 = rootCalls.map Prod.snd ∧ w.2.status demoDir = .refused ∧
        (w.2.state.mounts demoMnt).openFiles.toNat = 0)) = true := by decide
  obtain ⟨⟨rs,v⟩,hw,hv⟩ := (Option.any_eq_true _ _).mp hfollow
  obtain ⟨rfl,hst,hpins⟩ := of_decide_eq_true hv
  have hrun : (dirSteps (demoTask 0)).Run rootOnlyStart rootCalls v := Steps.run_of_follow hw
  exact ⟨v,hrun,hst,hpins,(dir_life_cycle rootOnlyStart_zeroed hrun).2.2⟩

def refusedCall : List ((demo.Dir × DirCall) × Int) :=
  [((demoDir,.opendir (some (CStr.ofList ['/','d']))),-2)]

/-- The driver refuses to open a directory, and `vfs_closedir` of the DIR that was never open
calls the driver, returns 0 and takes `open_files` below zero. -/
theorem refused_dir_closed : ∃ v s,
    (dirSteps (demoTask 0)).Run rootOnlyStart refusedCall v ∧
    v.status demoDir ≠ .opened ∧ (v.state.mounts demoMnt).openFiles.toNat = 0 ∧
    v.call (demoTask 0) (demoDir,.closedir) = some (0,v.after (demoDir,.closedir) 0 s) ∧
    s.calls.length = v.state.calls.length + 1 ∧
    (s.mounts demoMnt).openFiles.toNat = 65535 := by
  have hfollow : ((dirSteps (demoTask 0)).follow (refusedCall.map Prod.fst) rootOnlyStart).any
      (fun w => decide (w.1 = refusedCall.map Prod.snd ∧ w.2.status demoDir = .refused ∧
          (w.2.state.mounts demoMnt).openFiles.toNat = 0) &&
        ((vfsClosedir (some demoDir)).run (Action.exec (demoTask 0)) w.2.state).any (fun u =>
          decide (u.1 = 0 ∧ u.2.calls.length = w.2.state.calls.length + 1 ∧
            (u.2.mounts demoMnt).openFiles.toNat = 65535))) = true := by decide
  obtain ⟨⟨rs,v⟩,hw,hv⟩ := (Option.any_eq_true _ _).mp hfollow
  obtain ⟨hv,hclose⟩ := (Bool.and_eq_true _ _).mp hv
  obtain ⟨rfl,hst,hpins⟩ := of_decide_eq_true hv
  obtain ⟨⟨r,s⟩,hu,hs⟩ := (Option.any_eq_true _ _).mp hclose
  obtain ⟨rfl,hcalls,hwrap⟩ := of_decide_eq_true hs
  have hrun : (dirSteps (demoTask 0)).Run rootOnlyStart refusedCall v := Steps.run_of_follow hw
  refine ⟨v,s,hrun,by rw [hst]; decide,hpins,?_,hcalls,hwrap⟩
  simp [DirHistory.call,DirCall.op,Op.prog,hu]

end Demo

end UcVfs
