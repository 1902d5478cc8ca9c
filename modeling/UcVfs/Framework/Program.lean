import Mathlib.Logic.Function.Basic

/-!
# Programs over atomic actions

A program is a tree of atomic actions with continuations. Running it alone gives a partial
function on states. A discipline says which actions a holder of some resources may take, what
it then learns and what it holds afterwards; `Prog.Obeys` checks a program against one.
-/

namespace UcVfs.Framework

variable {Act : Type} {resp : Act → Type} {σ H ρ τ : Type}

/-- A sequential program: it stops with a result or takes an action and looks at the answer. -/
inductive Prog (resp : Act → Type) (ρ : Type)
  | ret (r : ρ)
  | step (x : Act) (next : resp x → Prog resp ρ)

namespace Prog

def bind : Prog resp ρ → (ρ → Prog resp τ) → Prog resp τ
  | ret r,f => f r
  | step x next,f => step x fun r => (next r).bind f

instance : Monad (Prog resp) where
  pure := ret
  bind := bind

def act (x : Act) : Prog resp (resp x) := step x ret

@[simp] theorem pure_eq (r : ρ) : (pure r : Prog resp ρ) = ret r := rfl

@[simp] theorem ret_bind (r : ρ) (f : ρ → Prog resp τ) : (ret r >>= f) = f r := rfl

@[simp] theorem step_bind (x : Act) (next : resp x → Prog resp ρ) (f : ρ → Prog resp τ) :
    (step x next >>= f) = step x fun r => next r >>= f := rfl

@[simp] theorem act_bind (x : Act) (f : resp x → Prog resp τ) : (act x >>= f) = step x f := rfl

@[simp] theorem ret_map (f : ρ → τ) (r : ρ) : (f <$> (ret r : Prog resp ρ)) = ret (f r) := rfl

@[simp] theorem step_map (f : ρ → τ) (x : Act) (next : resp x → Prog resp ρ) :
    (f <$> step x next) = step x fun r => f <$> next r := rfl

/-- Running a program with nothing in between; `none` when an action cannot be taken. -/
def run (exec : (x : Act) → σ → Option (resp x × σ)) : Prog resp ρ → σ → Option (ρ × σ)
  | ret r,s => some (r,s)
  | step x next,s =>
    match exec x s with
    | none => none
    | some (r,s) => (next r).run exec s

theorem run_step {exec : (x : Act) → σ → Option (resp x × σ)} {x : Act}
    {next : resp x → Prog resp ρ} {s s' : σ} {r : resp x} (h : exec x s = some (r,s')) :
    (step x next).run exec s = (next r).run exec s' := by
  simp only [run,h]

theorem run_bind {exec : (x : Act) → σ → Option (resp x × σ)} {p : Prog resp ρ}
    {f : ρ → Prog resp τ} {s s' : σ} {r : ρ} (h : p.run exec s = some (r,s')) :
    (p >>= f).run exec s = (f r).run exec s' := by
  induction p generalizing s with
  | ret r₀ =>
    obtain ⟨rfl,rfl⟩ : r₀ = r ∧ s = s' := by simpa [run] using h
    rfl
  | step x next ih =>
    rw [step_bind]
    cases he : exec x s with
    | none => simp [run,he] at h
    | some v =>
      rw [run_step he] at h ⊢
      exact ih v.1 h

theorem run_map {exec : (x : Act) → σ → Option (resp x × σ)} {p : Prog resp ρ} (f : ρ → τ)
    {s s' : σ} {r : ρ} (h : p.run exec s = some (r,s')) :
    (f <$> p).run exec s = some (f r,s') :=
  run_bind (f := fun r => ret (f r)) h

/-- Every action that the program can come to satisfies `P`. -/
def Only (P : Act → Prop) : Prog resp ρ → Prop
  | ret _ => True
  | step x next => P x ∧ ∀ r,(next r).Only P

theorem Only.bind {P : Act → Prop} {p : Prog resp ρ} {f : ρ → Prog resp τ} (hp : p.Only P)
    (hf : ∀ r,(f r).Only P) : (p >>= f).Only P := by
  induction p with
  | ret r => exact hf r
  | step x next ih => exact ⟨hp.1,fun r => ih r (hp.2 r)⟩

theorem Only.imp {P P' : Act → Prop} (h : ∀ x, P x → P' x) {p : Prog resp ρ} (hp : p.Only P) :
    p.Only P' := by
  induction p with
  | ret r => trivial
  | step x next ih => exact ⟨h x hp.1,fun r => ih r (hp.2 r)⟩

theorem Only.map {P : Act → Prop} {p : Prog resp ρ} (hp : p.Only P) (f : ρ → τ) :
    (f <$> p).Only P :=
  hp.bind (f := fun r => ret (f r)) fun _ => trivial

/-- Two ways to take actions that agree on those of the program. -/
theorem Only.run_eq {P : Act → Prop} {exec exec' : (x : Act) → σ → Option (resp x × σ)}
    (hagree : ∀ x s,P x → exec x s = exec' x s) {p : Prog resp ρ} (hp : p.Only P) (s : σ) :
    p.run exec s = p.run exec' s := by
  induction p generalizing s with
  | ret r => rfl
  | step x next ih =>
    simp only [run,hagree x s hp.1]
    cases exec' x s with
    | none => rfl
    | some v => exact ih v.1 (hp.2 v.1) v.2

/-- Total correctness of a run on its own. -/
def Total (exec : (x : Act) → σ → Option (resp x × σ)) (Q : ρ → σ → Prop) (p : Prog resp ρ)
    (s : σ) : Prop :=
  ∃ r s',p.run exec s = some (r,s') ∧ Q r s'

section Total

variable {exec : (x : Act) → σ → Option (resp x × σ)} {Q : ρ → σ → Prop}

theorem total_of_run {p : Prog resp ρ} {s s' : σ} {r : ρ} (h : p.run exec s = some (r,s')) :
    p.Total exec Q s ↔ Q r s' := by
  constructor
  · rintro ⟨r₁,s₁,hrun,hQ⟩
    obtain ⟨rfl,rfl⟩ := Prod.mk.inj (Option.some.inj (hrun.symm.trans h))
    exact hQ
  · exact fun hQ => ⟨r,s',h,hQ⟩

@[simp] theorem total_ret {r : ρ} {s : σ} : (ret r : Prog resp ρ).Total exec Q s ↔ Q r s :=
  total_of_run rfl

theorem total_step {x : Act} {next : resp x → Prog resp ρ} {s : σ} :
    (step x next).Total exec Q s ↔
      ∃ r s',exec x s = some (r,s') ∧ (next r).Total exec Q s' := by
  constructor
  · rintro ⟨r,s',hrun,hQ⟩
    simp only [run] at hrun
    cases he : exec x s with
    | none => simp [he] at hrun
    | some v =>
      rw [he] at hrun
      exact ⟨v.1,v.2,rfl,r,s',hrun,hQ⟩
  · rintro ⟨r₁,s₁,he,r,s',hrun,hQ⟩
    exact ⟨r,s',by rw [run_step he,hrun],hQ⟩

theorem total_bind {p : Prog resp τ} {f : τ → Prog resp ρ} {s : σ} :
    (p >>= f).Total exec Q s ↔ p.Total exec (fun r s => (f r).Total exec Q s) s := by
  induction p generalizing s with
  | ret r => simp
  | step x next ih => simp only [step_bind,total_step,ih]

theorem total_map {p : Prog resp τ} {f : τ → ρ} {s : σ} :
    (f <$> p).Total exec Q s ↔ p.Total exec (fun r s => Q (f r) s) s := by
  induction p generalizing s with
  | ret r => simp
  | step x next ih => simp only [step_map,total_step,ih]

theorem Total.mono {Q' : ρ → σ → Prop} {p : Prog resp ρ} {s : σ} (h : p.Total exec Q s)
    (hQ : ∀ r s,Q r s → Q' r s) : p.Total exec Q' s := by
  obtain ⟨r,s',hrun,hr⟩ := h
  exact ⟨r,s',hrun,hQ r s' hr⟩

end Total

end Prog

/-- What a holder of resources may do. `pre` allows an action, `post` is what its answer
tells, `next` is what is held after it. -/
structure Discipline (resp : Act → Type) (H : Type) where
  pre : H → Act → Prop
  post : H → (x : Act) → resp x → Prop
  next : H → (x : Act) → resp x → H

namespace Prog

/-- Started with `h`, the program takes allowed actions only and ends with `Q`. -/
def Obeys (D : Discipline resp H) (Q : H → ρ → Prop) : H → Prog resp ρ → Prop
  | h,ret r => Q h r
  | h,step x next => D.pre h x ∧ ∀ r, D.post h x r → Obeys D Q (D.next h x r) (next r)

variable {D : Discipline resp H}

@[simp] theorem obeys_ret {Q : H → ρ → Prop} {h : H} {r : ρ} :
    (ret r : Prog resp ρ).Obeys D Q h ↔ Q h r := Iff.rfl

theorem obeys_step {Q : H → ρ → Prop} {h : H} {x : Act} {next : resp x → Prog resp ρ} :
    (step x next).Obeys D Q h ↔
      D.pre h x ∧ ∀ r, D.post h x r → (next r).Obeys D Q (D.next h x r) := Iff.rfl

theorem Obeys.mono {Q Q' : H → ρ → Prop} {p : Prog resp ρ} {h : H} (hp : p.Obeys D Q h)
    (hQ : ∀ h r, Q h r → Q' h r) : p.Obeys D Q' h := by
  induction p generalizing h with
  | ret r => exact hQ h r hp
  | step x next ih => exact ⟨hp.1,fun r hr => ih r (hp.2 r hr)⟩

/-- A program followed by another: the first one's postcondition starts the second. -/
theorem Obeys.bind {Q : H → τ → Prop} {p : Prog resp ρ} {f : ρ → Prog resp τ} {h : H}
    (hp : p.Obeys D (fun h r => (f r).Obeys D Q h) h) : (p >>= f).Obeys D Q h := by
  induction p generalizing h with
  | ret r => exact hp
  | step x next ih => exact ⟨hp.1,fun r hr => ih r (hp.2 r hr)⟩

theorem Obeys.of_bind {Q : H → τ → Prop} {p : Prog resp ρ} {f : ρ → Prog resp τ} {h : H}
    (hp : (p >>= f).Obeys D Q h) : p.Obeys D (fun h r => (f r).Obeys D Q h) h := by
  induction p generalizing h with
  | ret r => exact hp
  | step x next ih => exact ⟨hp.1,fun r hr => ih r (hp.2 r hr)⟩

theorem Obeys.map {Q : H → τ → Prop} {p : Prog resp ρ} {f : ρ → τ} {h : H}
    (hp : p.Obeys D (fun h r => Q h (f r)) h) : (f <$> p).Obeys D Q h :=
  Obeys.bind (f := fun r => ret (f r)) hp

/-- Total correctness of a run on its own: an invariant that every allowed action can be
taken under and keeps, and a program that obeys, end in the invariant and the postcondition. -/
theorem Obeys.run {exec : (x : Act) → σ → Option (resp x × σ)} {G : H → σ → Prop}
    (hsound : ∀ h s x, G h s → D.pre h x →
      ∃ r s', exec x s = some (r,s') ∧ D.post h x r ∧ G (D.next h x r) s')
    {Q : H → ρ → Prop} {p : Prog resp ρ} {h : H} {s : σ} (hp : p.Obeys D Q h) (hG : G h s) :
    ∃ r s' h', p.run exec s = some (r,s') ∧ G h' s' ∧ Q h' r := by
  induction p generalizing h s with
  | ret r => exact ⟨r,s,h,rfl,hG,hp⟩
  | step x next ih =>
    obtain ⟨r,s₁,he,hpost,hG₁⟩ := hsound h s x hG hp.1
    rw [run_step he]
    exact ih r (hp.2 r hpost) hG₁

end Prog

end UcVfs.Framework
