import UcVfs.Framework.Program
import Mathlib.Algebra.BigOperators.Group.Finset.Piecewise

/-!
# Interleaved tasks over shared state

Tasks call operations, one at a time each; an operation is a program whose atomic actions
interleave with those of the other tasks. Every call carries a record of what it holds, and
a pool keeps what the finished calls have left. `System.invariant` proves a property of
every run from one obligation for each kind of step.
-/

namespace UcVfs.Framework

open scoped BigOperators

variable {Act : Type} {resp : Act → Type} {σ κ ι Op ρ H : Type}

/-- The programs of the operations, the effect of an action taken by a task, and the
bookkeeping: what a call takes from the pool, how its holdings follow its actions, and what
it gives back. The bookkeeping never influences a step. -/
structure System (resp : Act → Type) (σ κ ι Op ρ H : Type) where
  prog : Op → Prog resp ρ
  exec : ι → (x : Act) → σ → Option (resp x × σ)
  begin : κ → ι → Op → κ × H
  next : H → (x : Act) → resp x → H
  finish : κ → ι → Op → H → ρ → κ
  idle : H

/-- A task is between calls, or in a call of `op` with `rest` still to run. -/
inductive Task (resp : Act → Type) (Op ρ H : Type)
  | idle
  | busy (op : Op) (held : H) (rest : Prog resp ρ)

def Task.isIdle : Task resp Op ρ H → Bool
  | .idle => true
  | .busy _ _ _ => false

theorem Task.isIdle_iff {t : Task resp Op ρ H} : t.isIdle = true ↔ t = .idle := by
  cases t <;> simp [Task.isIdle]

structure Config (resp : Act → Type) (σ κ ι Op ρ H : Type) where
  shared : σ
  pool : κ
  task : ι → Task resp Op ρ H

inductive Label (resp : Act → Type) (ι Op ρ : Type)
  | start (i : ι) (op : Op)
  | act (i : ι) (x : Act) (r : resp x)
  | finish (i : ι) (r : ρ)

def Label.task : Label resp ι Op ρ → ι
  | .start i _ | .act i _ _ | .finish i _ => i

/-- What a schedule asks for next: a task starts a call, or goes on with its call. -/
inductive Move (ι Op : Type)
  | call (i : ι) (op : Op)
  | go (i : ι)

namespace System

variable (S : System resp σ κ ι Op ρ H)

def held : Task resp Op ρ H → H
  | .idle => S.idle
  | .busy _ h _ => h

/-- What each task holds. -/
def locals (c : Config resp σ κ ι Op ρ H) (i : ι) : H := S.held (c.task i)

theorem locals_busy {S : System resp σ κ ι Op ρ H} {c : Config resp σ κ ι Op ρ H} {i : ι} {op : Op} {h : H}
    {p : Prog resp ρ} (hi : c.task i = .busy op h p) : S.locals c i = h := by
  simp only [locals,hi,held]

theorem locals_idle {S : System resp σ κ ι Op ρ H} {c : Config resp σ κ ι Op ρ H} {i : ι}
    (hi : c.task i = .idle) : S.locals c i = S.idle := by
  simp only [locals,hi,held]

variable [DecidableEq ι]

inductive Step : Config resp σ κ ι Op ρ H → Label resp ι Op ρ → Config resp σ κ ι Op ρ H → Prop
  | start {c i op} (hidle : c.task i = .idle) :
      Step c (.start i op) ⟨c.shared,(S.begin c.pool i op).1,
        Function.update c.task i (.busy op (S.begin c.pool i op).2 (S.prog op))⟩
  | act {c i op h x next r s} (hbusy : c.task i = .busy op h (.step x next))
      (hexec : S.exec i x c.shared = some (r,s)) :
      Step c (.act i x r) ⟨s,c.pool,Function.update c.task i (.busy op (S.next h x r) (next r))⟩
  | finish {c i op h r} (hbusy : c.task i = .busy op h (.ret r)) :
      Step c (.finish i r) ⟨c.shared,S.finish c.pool i op h r,Function.update c.task i .idle⟩

/-- The configurations of the runs from `c₀` whose steps all satisfy `ok`. -/
inductive Reachable (ok : Config resp σ κ ι Op ρ H → Label resp ι Op ρ → Prop)
    (c₀ : Config resp σ κ ι Op ρ H) : Config resp σ κ ι Op ρ H → Prop
  | init : Reachable ok c₀ c₀
  | step {c l c'} (hc : Reachable ok c₀ c) (hok : ok c l) (hstep : S.Step c l c') :
      Reachable ok c₀ c'

variable {S}

theorem locals_update (s : σ) (K : κ) (task : ι → Task resp Op ρ H) (i : ι)
    (t : Task resp Op ρ H) (c : Config resp σ κ ι Op ρ H) (hc : c.task = task) :
    S.locals ⟨s,K,Function.update task i t⟩ = Function.update (S.locals c) i (S.held t) := by
  funext j
  by_cases hj : j = i
  · subst j; simp [locals]
  · simp [locals,hj,hc]

/-- The global invariant `G` over pool, holdings and shared state, with every call in
progress obeying the discipline from what it holds. -/
structure Inv (S : System resp σ κ ι Op ρ H) (D : Discipline resp H) (Q : Op → H → ρ → Prop)
    (G : κ → (ι → H) → σ → Prop) (c : Config resp σ κ ι Op ρ H) : Prop where
  good : G c.pool (S.locals c) c.shared
  obeys : ∀ i op h p, c.task i = .busy op h p → p.Obeys D (Q op) h

/-- What holds of the calls in progress and of a new one. -/
private theorem busy_update {P : Op → H → Prog resp ρ → Prop} {task : ι → Task resp Op ρ H}
    {i : ι} {t : Task resp Op ρ H} (hold : ∀ j op h p, j ≠ i → task j = .busy op h p → P op h p)
    (hnew : ∀ op h p, t = .busy op h p → P op h p) (j : ι) (op : Op) (h : H) (p : Prog resp ρ)
    (hj : Function.update task i t j = .busy op h p) : P op h p := by
  by_cases hij : j = i
  · subst j
    rw [Function.update_self] at hj
    exact hnew op h p hj
  · rw [Function.update_of_ne hij] at hj
    exact hold j op h p hij hj

/-- A fact about each call in progress: it holds when the call starts, and it survives the steps
of the call and those of others. -/
theorem Reachable.busy {ok : Config resp σ κ ι Op ρ H → Label resp ι Op ρ → Prop}
    {P : σ → Op → H → Prog resp ρ → Prop} {c₀ c : Config resp σ κ ι Op ρ H}
    (hidle : ∀ i, c₀.task i = .idle)
    (hstart : ∀ c i op, ok c (.start i op) → P c.shared op (S.begin c.pool i op).2 (S.prog op))
    (hact : ∀ c i op h x next r s, S.Reachable ok c₀ c → c.task i = .busy op h (.step x next) →
      S.exec i x c.shared = some (r,s) → P c.shared op h (.step x next) →
      P s op (S.next h x r) (next r))
    (hother : ∀ c i x r s j op h p, S.Reachable ok c₀ c → ok c (.act i x r) →
      S.exec i x c.shared = some (r,s) → j ≠ i → c.task j = .busy op h p → P c.shared op h p →
      P s op h p)
    (hc : S.Reachable ok c₀ c) {j : ι} {op : Op} {h : H} {p : Prog resp ρ}
    (hj : c.task j = .busy op h p) : P c.shared op h p := by
  induction hc generalizing j op h p with
  | init =>
    rw [hidle j] at hj
    cases hj
  | @step c l c' hc hok hstep ih =>
    cases hstep with
    | @start i op' hi =>
      refine busy_update (fun _ _ _ _ _ hj => ih hj) ?_ j op h p hj
      rintro _ _ _ ⟨⟩
      exact hstart c i op' hok
    | @act i op' h' x next r s hi hexec =>
      refine busy_update (P := P s) (fun k op h p hk hj => ?_) ?_ j op h p hj
      · exact hother c i x r s k op h p hc hok hexec hk hj (ih hj)
      · rintro _ _ _ ⟨⟩
        exact hact c i op' h' x next r s hc hi hexec (ih hi)
    | @finish i op' h' r hi =>
      refine busy_update (fun _ _ _ _ _ hj => ih hj) ?_ j op h p hj
      rintro _ _ _ ⟨⟩

/-- What one step preserves, every run preserves. -/
theorem invariant {D : Discipline resp H} (hnext : D.next = S.next) {Q : Op → H → ρ → Prop}
    {G : κ → (ι → H) → σ → Prop}
    {ok : Config resp σ κ ι Op ρ H → Label resp ι Op ρ → Prop}
    (hstart : ∀ c i op, S.Inv D Q G c → c.task i = .idle → ok c (.start i op) →
      G (S.begin c.pool i op).1 (Function.update (S.locals c) i (S.begin c.pool i op).2)
        c.shared ∧ (S.prog op).Obeys D (Q op) (S.begin c.pool i op).2)
    (hact : ∀ c i op h x next r s, S.Inv D Q G c → c.task i = .busy op h (.step x next) →
      ok c (.act i x r) → D.pre h x → S.exec i x c.shared = some (r,s) →
      D.post h x r ∧ G c.pool (Function.update (S.locals c) i (S.next h x r)) s)
    (hfinish : ∀ c i op h r, S.Inv D Q G c → c.task i = .busy op h (.ret r) →
      ok c (.finish i r) → Q op h r →
      G (S.finish c.pool i op h r) (Function.update (S.locals c) i S.idle) c.shared)
    {c₀ c : Config resp σ κ ι Op ρ H} (h₀ : S.Inv D Q G c₀) (hc : S.Reachable ok c₀ c) :
    S.Inv D Q G c := by
  induction hc with
  | init => exact h₀
  | @step c l c' _ hok hstep ih =>
    cases hstep with
    | @start i op hidle =>
      obtain ⟨hG,hO⟩ := hstart c i op ih hidle hok
      refine ⟨by rw [locals_update _ _ _ _ _ c rfl]; exact hG,
        busy_update (fun j op h p _ => ih.obeys j op h p) ?_⟩
      intro op' h p hb
      cases hb
      exact hO
    | @act i op h x next r s hbusy hexec =>
      have hO := ih.obeys i op h _ hbusy
      obtain ⟨hpost,hG⟩ := hact c i op h x next r s ih hbusy hok hO.1 hexec
      refine ⟨by rw [locals_update _ _ _ _ _ c rfl]; exact hG,
        busy_update (fun j op h p _ => ih.obeys j op h p) ?_⟩
      intro op' h' p hb
      cases hb
      rw [← hnext]
      exact hO.2 r hpost
    | @finish i op h r hbusy =>
      have hG := hfinish c i op h r ih hbusy hok (ih.obeys i op h _ hbusy)
      refine ⟨by rw [locals_update _ _ _ _ _ c rfl]; exact hG,
        busy_update (fun j op h p _ => ih.obeys j op h p) ?_⟩
      intro op' h' p hb
      cases hb

/-- The step that a move causes. -/
def move (S : System resp σ κ ι Op ρ H) (c : Config resp σ κ ι Op ρ H) :
    Move ι Op → Option (Label resp ι Op ρ × Config resp σ κ ι Op ρ H)
  | .call i op =>
    match c.task i with
    | .idle => some (.start i op,⟨c.shared,(S.begin c.pool i op).1,
        Function.update c.task i (.busy op (S.begin c.pool i op).2 (S.prog op))⟩)
    | .busy _ _ _ => none
  | .go i =>
    match c.task i with
    | .idle => none
    | .busy op h (.ret r) =>
      some (.finish i r,⟨c.shared,S.finish c.pool i op h r,Function.update c.task i .idle⟩)
    | .busy op h (.step x next) =>
      match S.exec i x c.shared with
      | none => none
      | some (r,s) => some (.act i x r,
          ⟨s,c.pool,Function.update c.task i (.busy op (S.next h x r) (next r))⟩)

/-- The run of a schedule, as long as its steps are allowed. -/
def drive (S : System resp σ κ ι Op ρ H)
    (ok : Config resp σ κ ι Op ρ H → Label resp ι Op ρ → Prop) [∀ c l,Decidable (ok c l)] :
    List (Move ι Op) → Config resp σ κ ι Op ρ H → Option (Config resp σ κ ι Op ρ H)
  | [],c => some c
  | m :: ms,c =>
    match S.move c m with
    | none => none
    | some (l,c') => if ok c l then S.drive ok ms c' else none

theorem step_of_move {c c' : Config resp σ κ ι Op ρ H} {l : Label resp ι Op ρ}
    {m : Move ι Op} (h : S.move c m = some (l,c')) : S.Step c l c' := by
  cases m with
  | call i op =>
    cases hi : c.task i with
    | idle =>
      simp only [move,hi,Option.some.injEq,Prod.mk.injEq] at h
      obtain ⟨rfl,rfl⟩ := h
      exact .start hi
    | busy => simp [move,hi] at h
  | go i =>
    rcases hi : c.task i with _ | ⟨op,held,r | ⟨x,next⟩⟩
    · simp [move,hi] at h
    · simp only [move,hi,Option.some.injEq,Prod.mk.injEq] at h
      obtain ⟨rfl,rfl⟩ := h
      exact .finish hi
    · cases he : S.exec i x c.shared with
      | none => simp [move,hi,he] at h
      | some v =>
        simp only [move,hi,he,Option.some.injEq,Prod.mk.injEq] at h
        obtain ⟨rfl,rfl⟩ := h
        exact .act hi he

/-- What a schedule reaches is reachable. -/
theorem Reachable.drive {ok : Config resp σ κ ι Op ρ H → Label resp ι Op ρ → Prop}
    [∀ c l,Decidable (ok c l)] {c₀ c c' : Config resp σ κ ι Op ρ H} {ms : List (Move ι Op)}
    (hc : S.Reachable ok c₀ c) (h : S.drive ok ms c = some c') : S.Reachable ok c₀ c' := by
  induction ms generalizing c with
  | nil =>
    obtain rfl : c = c' := by simpa [System.drive] using h
    exact hc
  | cons m ms ih =>
    simp only [System.drive] at h
    cases hm : S.move c m with
    | none => simp [hm] at h
    | some v =>
      simp only [hm] at h
      by_cases hok : ok c v.1
      · rw [if_pos hok] at h
        exact ih (hc.step hok (step_of_move hm)) h
      · simp [hok] at h

theorem drive_any {ok : Config resp σ κ ι Op ρ H → Label resp ι Op ρ → Prop}
    [∀ c l,Decidable (ok c l)] {c₀ : Config resp σ κ ι Op ρ H} {ms : List (Move ι Op)}
    {P : Config resp σ κ ι Op ρ H → Bool} (h : (S.drive ok ms c₀).any P = true) :
    ∃ c,S.Reachable ok c₀ c ∧ P c = true := by
  cases hd : S.drive ok ms c₀ with
  | none => simp [hd] at h
  | some c => exact ⟨c,Reachable.init.drive hd,by simpa [hd] using h⟩

/-- A schedule and one more move, with a test on the step that the move causes. -/
theorem drive_move_any {ok : Config resp σ κ ι Op ρ H → Label resp ι Op ρ → Prop}
    [∀ c l,Decidable (ok c l)] {c₀ : Config resp σ κ ι Op ρ H} {ms : List (Move ι Op)}
    {m : Move ι Op} {P : Config resp σ κ ι Op ρ H →
      Label resp ι Op ρ × Config resp σ κ ι Op ρ H → Bool}
    (h : (S.drive ok ms c₀).any (fun c => (S.move c m).any (P c)) = true) :
    ∃ c l c',S.Reachable ok c₀ c ∧ S.Step c l c' ∧ P c (l,c') = true := by
  obtain ⟨c,hc,hm⟩ := drive_any h
  obtain ⟨⟨l,c'⟩,hv,hP⟩ := (Option.any_eq_true _ _).mp hm
  exact ⟨c,l,c',hc,step_of_move hv,hP⟩

end System

section Ledger

variable [DecidableEq ι] [Fintype ι]

/-- What the pool and all tasks hold together. -/
def ledger (pool : ℕ) (weight : H → ℕ) (L : ι → H) : ℕ := pool + ∑ i,weight (L i)

theorem ledger_update (pool pool' : ℕ) (weight : H → ℕ) (L : ι → H) (i : ι) (h : H) :
    ledger pool' weight (Function.update L i h) + (pool + weight (L i)) =
      ledger pool weight L + (pool' + weight h) := by
  have hsum := fun M : ι → H =>
    Finset.add_sum_erase Finset.univ (fun j => weight (M j)) (Finset.mem_univ i)
  have hkeep : ∑ j ∈ Finset.univ.erase i,weight (Function.update L i h j) =
      ∑ j ∈ Finset.univ.erase i,weight (L j) := by
    apply Finset.sum_congr rfl
    intro j hj
    rw [Function.update_of_ne (Finset.ne_of_mem_erase hj)]
  have hnew := hsum (Function.update L i h)
  rw [hkeep,Function.update_self] at hnew
  have hold := hsum L
  simp only [ledger]
  omega

/-- A step that moves weight between a task and the pool, or keeps it, keeps the ledger. -/
theorem ledger_eq {pool pool' : ℕ} {weight : H → ℕ} {L : ι → H} {i : ι} {h : H}
    (hw : pool' + weight h = pool + weight (L i)) :
    ledger pool' weight (Function.update L i h) = ledger pool weight L := by
  have := ledger_update pool pool' weight L i h
  omega

/-- How many have the property after one has changed. -/
theorem card_filter_update (p : H → Prop) [DecidablePred p] (f : ι → H) (i : ι) (h : H) :
    (Finset.univ.filter fun j => p (Function.update f i h j)).card + (if p (f i) then 1 else 0) =
      (Finset.univ.filter fun j => p (f j)).card + if p h then 1 else 0 := by
  have hsum := ledger_update 0 0 (fun a : H => if p a then 1 else 0) f i h
  simp only [ledger,Nat.zero_add] at hsum
  rw [Finset.card_filter,Finset.card_filter]
  exact hsum

theorem weight_le_ledger (pool : ℕ) (weight : H → ℕ) (L : ι → H) (i : ι) :
    pool + weight (L i) ≤ ledger pool weight L := by
  have hi := Finset.add_sum_erase Finset.univ (fun k => weight (L k)) (Finset.mem_univ i)
  simp only [ledger]
  omega

/-- Two tasks' shares fit in the ledger together. -/
theorem weight_add_le_ledger (pool : ℕ) (weight : H → ℕ) (L : ι → H) {i j : ι} (hij : i ≠ j) :
    pool + weight (L i) + weight (L j) ≤ ledger pool weight L := by
  have hi := Finset.add_sum_erase Finset.univ (fun k => weight (L k)) (Finset.mem_univ i)
  have hj := Finset.add_sum_erase (Finset.univ.erase i) (fun k => weight (L k))
    (Finset.mem_erase.mpr ⟨hij.symm,Finset.mem_univ j⟩)
  simp only [ledger]
  omega

end Ledger

end UcVfs.Framework
