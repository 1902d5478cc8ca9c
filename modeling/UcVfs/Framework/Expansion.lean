import UcVfs.Framework.Program

/-!
# Programs of a lower level

An action of one level is a program over the actions of the level below. A program is expanded
by replacing its actions; it runs as before when each replacement runs as its action does, and
it keeps what each replacement keeps.
-/

namespace UcVfs.Framework.Prog

variable {Act Act' : Type} {resp : Act → Type} {resp' : Act' → Type} {σ H ρ τ : Type}

theorem run_bind_eq (exec : (x : Act) → σ → Option (resp x × σ)) (p : Prog resp ρ)
    (f : ρ → Prog resp τ) (s : σ) :
    (p >>= f).run exec s = (p.run exec s).bind fun v => (f v.1).run exec v.2 := by
  induction p generalizing s with
  | ret r => rfl
  | step x next ih =>
    simp only [step_bind,run]
    cases exec x s with
    | none => rfl
    | some v => exact ih v.1 v.2

theorem run_act_bind (exec : (x : Act) → σ → Option (resp x × σ)) (x : Act)
    (f : resp x → Prog resp τ) (s : σ) :
    (act x >>= f).run exec s = (exec x s).bind fun v => (f v.1).run exec v.2 := by
  rw [act_bind,run]
  cases exec x s with
  | none => rfl
  | some v => rfl

/-- Every action replaced by a program. -/
def expand (f : (x : Act) → Prog resp' (resp x)) : Prog resp ρ → Prog resp' ρ
  | ret r => ret r
  | step x next => f x >>= fun r => (next r).expand f

theorem expand_run {f : (x : Act) → Prog resp' (resp x)}
    {exec : (x : Act) → σ → Option (resp x × σ)} {exec' : (x : Act') → σ → Option (resp' x × σ)}
    (hf : ∀ x s,(f x).run exec' s = exec x s) (p : Prog resp ρ) (s : σ) :
    (p.expand f).run exec' s = p.run exec s := by
  induction p generalizing s with
  | ret r => rfl
  | step x next ih =>
    rw [expand,run_bind_eq,hf,run]
    cases exec x s with
    | none => rfl
    | some v => exact ih v.1 v.2

theorem bind_assoc_eq {υ : Type} (p : Prog resp ρ) (f : ρ → Prog resp τ) (g : τ → Prog resp υ) :
    (p >>= f) >>= g = p >>= fun r => f r >>= g := by
  induction p with
  | ret r => rfl
  | step x next ih =>
    rw [step_bind,step_bind,step_bind]
    congr 1
    funext r
    exact ih r

theorem expand_bind (f : (x : Act) → Prog resp' (resp x)) (p : Prog resp ρ)
    (g : ρ → Prog resp τ) :
    (p >>= g).expand f = p.expand f >>= fun r => (g r).expand f := by
  induction p with
  | ret r => rfl
  | step x next ih =>
    rw [step_bind,expand,expand,bind_assoc_eq]
    congr 1
    funext r
    exact ih r

/-- Started with what satisfies `P`, the program ends with just what it started with. -/
def Keeps (D : Discipline resp H) (P : H → Prop) (p : Prog resp ρ) : Prop :=
  ∀ h,P h → p.Obeys D (fun h' _ => h' = h) h

section Keeps

variable {D : Discipline resp H} {P : H → Prop}

theorem keeps_ret (r : ρ) : (ret r : Prog resp ρ).Keeps D P := fun _ _ => rfl

theorem Keeps.mono {P' : H → Prop} {p : Prog resp ρ} (hp : p.Keeps D P) (hP : ∀ h,P' h → P h) :
    p.Keeps D P' := fun h hh => hp h (hP h hh)

theorem Keeps.bind {p : Prog resp ρ} {f : ρ → Prog resp τ} (hp : p.Keeps D P)
    (hf : ∀ r,(f r).Keeps D P) : (p >>= f).Keeps D P := by
  intro h hP
  apply Obeys.bind
  apply (hp h hP).mono
  intro h' r hsame
  rw [hsame]
  exact hf r h hP

theorem Keeps.map {p : Prog resp ρ} (hp : p.Keeps D P) (f : ρ → τ) : (f <$> p).Keeps D P :=
  hp.bind (f := fun r => ret (f r)) fun r => keeps_ret (f r)

/-- An action that changes nothing that is held. -/
theorem keeps_step {x : Act} {next : resp x → Prog resp ρ} (hpre : ∀ h,P h → D.pre h x)
    (hsame : ∀ h r, D.next h x r = h) (hnext : ∀ r,(next r).Keeps D P) :
    (step x next).Keeps D P := by
  intro h hP
  refine ⟨hpre h hP,fun r _ => ?_⟩
  rw [hsame]
  exact hnext r h hP

theorem keeps_act {x : Act} (hpre : ∀ h,P h → D.pre h x) (hsame : ∀ h r, D.next h x r = h) :
    (act x : Prog resp (resp x)).Keeps D P :=
  keeps_step hpre hsame fun r => keeps_ret r

/-- A program takes the actions that the replacements of its actions take. -/
theorem Only.expand {Q : Act → Prop} {Q' : Act' → Prop} {f : (x : Act) → Prog resp' (resp x)}
    (hf : ∀ x, Q x → (f x).Only Q') {p : Prog resp ρ} (hp : p.Only Q) : (p.expand f).Only Q' := by
  induction p with
  | ret r => trivial
  | step x next ih => exact (hf x hp.1).bind fun r => ih r (hp.2 r)

/-- A program keeps what the replacements of its actions keep. -/
theorem Only.keeps_expand {D' : Discipline resp' H} {Q : Act → Prop}
    {f : (x : Act) → Prog resp' (resp x)} (hf : ∀ x, Q x → (f x).Keeps D' P) {p : Prog resp ρ}
    (hp : p.Only Q) : (p.expand f).Keeps D' P := by
  induction p with
  | ret r => exact keeps_ret r
  | step x next ih => exact (hf x hp.1).bind fun r => ih r (hp.2 r)

end Keeps

end UcVfs.Framework.Prog
