import Mathlib.Data.List.Induction

/-!
# Unwinding

A system takes labelled steps that answer; each step belongs to one part of the system, or to none.
A run and a second run of the steps of one part alone stay related, with the same answers, when single
steps do. The two may call things by different names: which name stands for which changes with the
steps.
-/

namespace UcVfs.Framework

variable {σ Label ρ κ : Type}

/-- Labelled steps, taken only where `Meets` allows them. -/
structure Steps (σ Label ρ : Type) where
  step : Label → σ → Option (ρ × σ)
  Meets : Label → σ → Prop

/-- A run with the answers that it gave. -/
inductive Steps.Run (S : Steps σ Label ρ) (s₀ : σ) : List (Label × ρ) → σ → Prop
  | start : S.Run s₀ [] s₀
  | next {log s l r s'} (h : S.Run s₀ log s) (hmeets : S.Meets l s)
      (hstep : S.step l s = some (r,s')) : S.Run s₀ (log ++ [(l,r)]) s'

variable {S : Steps σ Label ρ}

/-- What every step preserves holds at the end of a run. -/
theorem Steps.Run.invariant {Inv : σ → Prop}
    (hstep : ∀ {l s r s'},Inv s → S.Meets l s → S.step l s = some (r,s') → Inv s')
    {s₀ s : σ} {log : List (Label × ρ)} (h : S.Run s₀ log s) (h₀ : Inv s₀) : Inv s := by
  induction h with
  | start => exact h₀
  | next _ hmeets hs ih => exact hstep ih hmeets hs

/-- A step of a run, and the run that led to it. -/
theorem Steps.Run.split {s₀ s : σ} {past rest : List (Label × ρ)} {l : Label} {r : ρ}
    (h : S.Run s₀ (past ++ (l,r) :: rest) s) :
    ∃ s₁ s₂,S.Run s₀ past s₁ ∧ S.Meets l s₁ ∧ S.step l s₁ = some (r,s₂) := by
  generalize hlog : past ++ (l,r) :: rest = log at h
  induction h generalizing rest with
  | start => simp at hlog
  | @next log s l' r' s' h hmeets hstep ih =>
    induction rest using List.reverseRecOn with
    | nil =>
      obtain ⟨rfl,he⟩ := List.append_inj' hlog rfl
      cases he
      exact ⟨s,s',h,hmeets,hstep⟩
    | append_singleton rest e _ =>
      rw [← List.cons_append,← List.append_assoc] at hlog
      exact ih (List.append_inj' hlog rfl).1

section Follow

variable [∀ l s,Decidable (S.Meets l s)]

/-- One more step of an evaluated run. -/
def Steps.extend (S : Steps σ Label ρ) [∀ l s,Decidable (S.Meets l s)]
    (v : Option (List ρ × σ)) (l : Label) : Option (List ρ × σ) :=
  v.bind fun v =>
    if S.Meets l v.2 then (S.step l v.2).map fun w => (v.1 ++ [w.1],w.2) else none

/-- The answers to some labels and the state after them, where every step is allowed. -/
def Steps.follow (S : Steps σ Label ρ) [∀ l s,Decidable (S.Meets l s)] (ls : List Label) (s : σ) :
    Option (List ρ × σ) :=
  ls.foldl S.extend (some ([],s))

theorem Steps.follow_snoc (ls : List Label) (l : Label) (s : σ) :
    S.follow (ls ++ [l]) s = S.extend (S.follow ls s) l := by
  rw [follow,List.foldl_append]
  rfl

theorem Steps.Run.follow {s₀ s : σ} {log : List (Label × ρ)} (h : S.Run s₀ log s) :
    S.follow (log.map Prod.fst) s₀ = some (log.map Prod.snd,s) := by
  induction h with
  | start => rfl
  | next _ hmeets hstep ih =>
    simp [Steps.follow_snoc,ih,Steps.extend,hmeets,hstep]

theorem Steps.run_of_follow {s₀ s : σ} {log : List (Label × ρ)}
    (h : S.follow (log.map Prod.fst) s₀ = some (log.map Prod.snd,s)) : S.Run s₀ log s := by
  induction log using List.reverseRecOn generalizing s with
  | nil =>
    obtain ⟨-,rfl⟩ := Prod.mk.inj (Option.some.inj h)
    exact .start
  | append_singleton log e ih =>
    rw [List.map_append,List.map_cons,List.map_nil,follow_snoc] at h
    obtain ⟨⟨rs,s₁⟩,hlog,h⟩ := Option.bind_eq_some_iff.mp h
    by_cases hmeets : S.Meets e.1 s₁
    · rw [if_pos hmeets] at h
      obtain ⟨⟨r,s₂⟩,hstep,h⟩ := Option.map_eq_some_iff.mp h
      obtain ⟨hrs,rfl⟩ := Prod.mk.inj h
      rw [List.map_append] at hrs
      obtain ⟨rfl,hr⟩ := List.append_inj' hrs rfl
      obtain rfl : r = e.2 := List.head_eq_of_cons_eq hr
      exact (ih hlog).next hmeets hstep
    · rw [if_neg hmeets] at h
      cases h

/-- Whether there is a run with these answers can be computed. -/
theorem Steps.exists_run {s₀ : σ} {log : List (Label × ρ)} : (∃ s,S.Run s₀ log s) ↔
    (S.follow (log.map Prod.fst) s₀).map Prod.fst = some (log.map Prod.snd) := by
  constructor
  · rintro ⟨s,h⟩
    rw [h.follow]
    rfl
  · intro h
    obtain ⟨⟨rs,s⟩,hfollow,rfl⟩ := Option.map_eq_some_iff.mp h
    exact ⟨s,run_of_follow hfollow⟩

end Follow

/-- How the entries of a run are put down for the part alone. `Renames` tells, where the names
correspond by `k`, whether an entry is left out or which one takes its place, and how the names
correspond afterwards. -/
inductive Matched (Renames : κ → Label × ρ → Option (Label × ρ) → κ → Prop) (k₀ : κ) :
    List (Label × ρ) → List (Label × ρ) → κ → Prop
  | start : Matched Renames k₀ [] [] k₀
  | skip {log log' k e k'} (h : Matched Renames k₀ log log' k) (hskip : Renames k e none k') :
      Matched Renames k₀ (log ++ [e]) log' k'
  | take {log log' k e e' k'} (h : Matched Renames k₀ log log' k) (htake : Renames k e (some e') k') :
      Matched Renames k₀ (log ++ [e]) (log' ++ [e']) k'

section Renaming

variable {Renames : κ → Label × ρ → Option (Label × ρ) → κ → Prop}

/-- Where no entry has a name in it, the part alone has its own entries. -/
theorem Matched.filter {owns : Label → Prop} [DecidablePred owns] {k₀ k : κ}
    {log log' : List (Label × ρ)} (h : Matched Renames k₀ log log' k)
    (hplain : ∀ k e o k',e ∈ log → Renames k e o k' → o = if owns e.1 then some e else none) :
    log' = log.filter fun e => owns e.1 := by
  induction h with
  | start => rfl
  | @skip log log' k e k' _ hskip ih =>
    have hnot : ¬owns e.1 := by
      intro hown
      have he := hplain k e none k' (by simp) hskip
      rw [if_pos hown] at he
      cases he
    rw [ih fun k e o k' he => hplain k e o k' (List.mem_append_left _ he)]
    simp [hnot]
  | @take log log' k e e' k' _ htake ih =>
    have he := hplain k e (some e') k' (by simp) htake
    have hown : owns e.1 := by
      by_contra hnot
      rw [if_neg hnot] at he
      cases he
    rw [if_pos hown] at he
    rw [ih fun k e o k' he => hplain k e o k' (List.mem_append_left _ he),Option.some.inj he]
    simp [hown]

/-- A relation between a state of the whole and one of the part alone that steps preserve. -/
def Unwinding (S : Steps σ Label ρ) (Renames : κ → Label × ρ → Option (Label × ρ) → κ → Prop)
    (R : κ → σ → σ → Prop) : Prop :=
  ∀ {k l s t r s'},R k s t → S.Meets l s → S.step l s = some (r,s') →
    ∃ k',(Renames k (l,r) none k' ∧ R k' s' t) ∨
      ∃ l' r' t',Renames k (l,r) (some (l',r')) k' ∧ S.Meets l' t ∧ S.step l' t = some (r',t') ∧
        R k' s' t'

theorem Unwinding.run {R : κ → σ → σ → Prop} (U : Unwinding S Renames R) {s₀ s t₀ : σ} {k₀ : κ}
    {log : List (Label × ρ)} (h : S.Run s₀ log s) (h₀ : R k₀ s₀ t₀) :
    ∃ log' t k,S.Run t₀ log' t ∧ Matched Renames k₀ log log' k ∧ R k s t := by
  induction h with
  | start => exact ⟨[],t₀,k₀,.start,.start,h₀⟩
  | @next log s l r s' _ hmeets hs ih =>
    obtain ⟨log',t,k,hrun,hmatched,hR⟩ := ih
    obtain ⟨k',⟨hskip,hR'⟩ | ⟨l',r',t',htake,hmeets',ht,hR'⟩⟩ := U hR hmeets hs
    · exact ⟨log',t,k',hrun,hmatched.skip hskip,hR'⟩
    · exact ⟨log' ++ [(l',r')],t',k',hrun.next hmeets' ht,hmatched.take htake,hR'⟩

end Renaming

end UcVfs.Framework
