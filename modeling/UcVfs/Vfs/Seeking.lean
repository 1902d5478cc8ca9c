import UcVfs.Vfs.Operations

/-!
# Seeking

What `vfs_lseek` owes its caller, how it asks the driver, and the default for drivers that cannot
seek.
-/

namespace UcVfs

open Framework

/-- Position and length of an open file. -/
structure Extent where
  pos : ℕ
  size : ℕ
  deriving DecidableEq

namespace Extent

/-- Where a seek leads, as an exact number; nowhere when `whence` is unknown. -/
def target (e : Extent) (off whence : Int) : Option Int :=
  if whence = SEEK_SET then some off
  else if whence = SEEK_CUR then some (e.pos + off)
  else if whence = SEEK_END then some (e.size + off)
  else none

/-- The file is at the target and the target was returned, or the seek has failed and position
and length are as before. -/
def Sought (e e' : Extent) (off whence res : Int) : Prop :=
  (∃ t,e.target off whence = some t ∧ 0 ≤ t ∧ res = t ∧ (e'.pos : Int) = t) ∨ res < 0 ∧ e' = e

instance (e e' : Extent) (off whence res : Int) : Decidable (e.Sought e' off whence res) :=
  decidable_of_iff
    ((e.target off whence).any (fun t => 0 ≤ t ∧ res = t ∧ (e'.pos : Int) = t) ∨ res < 0 ∧ e' = e)
    (or_congr (by simp [Option.any_eq_true]) Iff.rfl)

end Extent

/-! ### Valid descriptors -/

section Runs

variable {W : World} {tcb : W.Task} {s : State W} {fd : Int} {f : Fd} {ops : FileOps W}

theorem fdIsValid_run (h : s.entry fd = some f) :
    (fdIsValid fd).run (Action.exec tcb) s = some (.ok f,s) := by
  have hfile : (Action.file f).exec tcb s = some (s.files f,s) := rfl
  obtain ⟨htcb,ops,hops⟩ := State.entry_eq_some h
  obtain ⟨task,htask⟩ := Option.isSome_iff_exists.mp htcb
  have hidx := (Option.filter_eq_some_iff.mp h).1
  simp [fdIsValid,hidx,act,Prog.act_bind,Prog.run_step hfile,htask,hops,Prog.run]

theorem fileOps_run (h : (s.files f).fOp = some ops) :
    (fileOps f).run (Action.exec tcb) s = some (ops,s) := by
  have hfile : (Action.file f).exec tcb s = some (s.files f,s) := rfl
  simp [fileOps,act,Prog.act_bind,Prog.run_step hfile,h,Prog.run]

/-- A driver that seeks is asked, and its answer is returned. -/
theorem vfsLseek_driver (hentry : s.entry fd = some f) (hops : (s.files f).fOp = some ops)
    {seek : Int → Int → FileView W → W.Drv → FileAns W} (hseek : ops.lseek = some seek)
    {off whence : Int} {ans : FileAns W} (hans : seek off whence (s.files f).view s.drv = ans) :
    ∃ s',(vfsLseek fd off whence).run (Action.exec tcb) s = some (ans.res,s') ∧
      s'.files f = { s.files f with pos := ans.pos, priv := ans.priv } ∧ s'.drv = ans.drv := by
  have hcall : (Action.fileCall f (.lseek off whence)).exec tcb s =
      some (fileCallback f (.lseek off whence) (seek off whence) s) := by
    simp [Action.exec,hops,FileOps.callback,hseek]
  refine ⟨(fileCallback f (.lseek off whence) (seek off whence) s).2,?_,?_,?_⟩
  · simp only [vfsLseek,Prog.run_bind (fdIsValid_run hentry),Prog.run_bind (fileOps_run hops),hseek,
      act,Prog.act_bind,Option.isNone_some,Bool.false_eq_true,if_false,Prog.run_step hcall]
    simp [fileCallback,hans,Prog.run]
  · simp [fileCallback,State.modifyFile,State.returned,hans]
  · simp [fileCallback,State.modifyFile,State.returned,hans]

/-- `vfs_lseek` does what it owes. Position and length are told from the file object and the
drivers' data. -/
def LseekExact (extent : File W → W.Drv → Extent) (tcb : W.Task) (s : State W) (fd : Int) (f : Fd)
    (off : OffT) (whence : Int) : Prop :=
  ∃ res s',(vfsLseek fd off whence).run (Action.exec tcb) s = some (res,s') ∧
    (extent (s.files f) s.drv).Sought (extent (s'.files f) s'.drv) off whence res

theorem lseekExact_driver {extent : File W → W.Drv → Extent} (hentry : s.entry fd = some f)
    (hops : (s.files f).fOp = some ops) {seek : Int → Int → FileView W → W.Drv → FileAns W}
    (hseek : ops.lseek = some seek) {off : OffT} {whence : Int} {ans : FileAns W}
    (hans : seek off whence (s.files f).view s.drv = ans) :
    LseekExact extent tcb s fd f off whence ↔ (extent (s.files f) s.drv).Sought
      (extent { s.files f with pos := ans.pos, priv := ans.priv } ans.drv) off whence ans.res := by
  obtain ⟨s',hrun,hfile,hdrv⟩ := @vfsLseek_driver _ tcb _ _ _ _ hentry hops _ hseek _ _ _ hans
  rw [← hfile,← hdrv]
  constructor
  · rintro ⟨res,t,ht,hsought⟩
    rw [hrun,Option.some.injEq,Prod.mk.injEq] at ht
    obtain ⟨rfl,rfl⟩ := ht
    exact hsought
  · exact fun hsought => ⟨_,s',hrun,hsought⟩

/-- The position that the VFS layer keeps itself. The length is the driver's business. -/
def keptExtent (len : W.Priv → W.Drv → ℕ) (e : File W) (drv : W.Drv) : Extent :=
  ⟨e.pos.toNat,len e.priv drv⟩

theorem wrapOff_eq {n : Int} (hlo : -2 ^ 31 ≤ n) (hhi : n < 2 ^ 31) : wrapOff n = n := by
  rw [wrapOff,Int.bmod_eq_of_le (by omega) (by omega)]

theorem wrapOff_neg {n : Int} (hlo : 2 ^ 31 ≤ n) (hhi : n < 2 ^ 32) : wrapOff n < 0 := by
  rw [wrapOff,Int.bmod_def]
  omega

/-- The sum of a position and an offset overflows to a negative number. -/
theorem wrapOff_cases {n : Int} (hlo : -2 ^ 31 ≤ n) (hhi : n < 2 ^ 32) :
    wrapOff n = n ∧ n < 2 ^ 31 ∨ wrapOff n < 0 ∧ 2 ^ 31 ≤ n := by
  by_cases hover : n < 2 ^ 31
  · exact Or.inl ⟨wrapOff_eq hlo hover,hover⟩
  · exact Or.inr ⟨wrapOff_neg (not_lt.mp hover) hhi,not_lt.mp hover⟩

/-- Without an `lseek` of the driver. -/
theorem vfsLseek_default (hentry : s.entry fd = some f) (hops : (s.files f).fOp = some ops)
    (hno : ops.lseek = none) (hpos : 0 ≤ (s.files f).pos ∧ (s.files f).pos < 2 ^ 31)
    (len : W.Priv → W.Drv → ℕ) (off : OffT) (whence : Int) :
    LseekExact (keptExtent len) tcb s fd f off whence := by
  have hfile : (Action.file f).exec tcb s = some (s.files f,s) := rfl
  have hset : ∀ pos,(Action.setPos f pos).exec tcb s =
      some ((),s.modifyFile f fun e => { e with pos := pos }) := fun _ => rfl
  simp only [LseekExact,vfsLseek,Prog.run_bind (fdIsValid_run hentry),
    Prog.run_bind (fileOps_run hops),hno,act,Prog.act_bind,Option.isNone_none,if_true,
    Prog.run_step hfile]
  by_cases hknown : whence = SEEK_SET ∨ whence = SEEK_CUR
  · rw [if_pos hknown]
    obtain ⟨t,ht,hlo,hhi,hoff⟩ : ∃ t,(keptExtent len (s.files f) s.drv).target off whence = some t ∧
        -2 ^ 31 ≤ t ∧ t < 2 ^ 32 ∧
        (if whence = SEEK_CUR then wrapOff (off + (s.files f).pos) else (off : Int)) =
          wrapOff t := by
      have hrange := off.property
      rcases hknown with rfl | rfl
      · exact ⟨off,rfl,by omega,by omega,(wrapOff_eq hrange.1 hrange.2).symm⟩
      · refine ⟨off + (s.files f).pos,?_,by omega,by omega,rfl⟩
        have hcast : (((s.files f).pos.toNat : ℕ) : Int) = (s.files f).pos := Int.toNat_of_nonneg hpos.1
        simp [Extent.target,keptExtent,SEEK_CUR,SEEK_SET,hcast,Int.add_comm]
    rw [hoff]
    by_cases hneg : wrapOff t < 0
    · rw [if_pos hneg]
      exact ⟨-EINVAL,s,rfl,Or.inr ⟨by decide,rfl⟩⟩
    · rw [if_neg hneg]
      have hwrap : wrapOff t = t := by
        exact ((wrapOff_cases hlo hhi).resolve_right fun h => hneg h.1).1
      rw [hwrap] at hneg ⊢
      refine ⟨t,_,Prog.run_step (hset t),Or.inl ⟨t,ht,not_lt.mp hneg,rfl,?_⟩⟩
      simp [keptExtent,State.modifyFile,not_lt.mp hneg]
  · rw [if_neg hknown]
    exact ⟨-EINVAL,s,rfl,Or.inr ⟨by decide,rfl⟩⟩

end Runs

end UcVfs
