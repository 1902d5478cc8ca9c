import Mathlib.Data.List.MinMax

/-!
# The last maximal element

Among the elements of a list that satisfy a predicate, the one of the greatest key; of
several such the last.
-/

namespace UcVfs.Framework

variable {α β : Type} [LinearOrder β] (key : α → β) (p : α → Prop)

/-- The element splits the list: nothing greater before it, nothing as great after it. -/
structure IsLastMax (xs : List α) (m : α) : Prop where
  holds : p m
  split : ∃ pre post,xs = pre ++ m :: post ∧ (∀ x ∈ pre,p x → key x ≤ key m) ∧
    ∀ x ∈ post,p x → key x < key m

variable {key p} {xs : List α} {m x : α}

theorem IsLastMax.mem (h : IsLastMax key p xs m) : m ∈ xs := by
  obtain ⟨pre,post,rfl,_⟩ := h.split
  simp

theorem IsLastMax.le (h : IsLastMax key p xs m) : ∀ y ∈ xs,p y → key y ≤ key m := by
  obtain ⟨pre,post,rfl,hpre,hpost⟩ := h.split
  intro y hy hpy
  rcases List.mem_append.mp hy with hy | hy
  · exact hpre y hy hpy
  · rcases List.mem_cons.mp hy with he | hy
    · rw [he]
    · exact (hpost y hy hpy).le

theorem IsLastMax.snoc (h : IsLastMax key p xs m) (hx : p x → key x < key m) :
    IsLastMax key p (xs ++ [x]) m := by
  obtain ⟨pre,post,rfl,hpre,hpost⟩ := h.split
  refine ⟨h.holds,pre,post ++ [x],by simp,hpre,?_⟩
  intro y hy hpy
  rcases List.mem_append.mp hy with hy | hy
  · exact hpost y hy hpy
  · obtain rfl := List.mem_singleton.mp hy
    exact hx hpy

theorem isLastMax_snoc (hx : p x) (h : ∀ y ∈ xs,p y → key y ≤ key x) :
    IsLastMax key p (xs ++ [x]) x :=
  ⟨hx,xs,[],rfl,h,by simp⟩

variable (key p) [DecidablePred p]

def lastMax (xs : List α) : Option α := (xs.filter p).reverse.argmax key

/-- A left fold computes it: a new element wins unless its key is smaller. -/
theorem lastMax_snoc (xs : List α) (x : α) :
    lastMax key p (xs ++ [x]) =
      if p x then
        match lastMax key p xs with
        | none => some x
        | some b => if key x < key b then some b else some x
      else lastMax key p xs := by
  by_cases hx : p x
  · simp only [lastMax,List.filter_append,List.filter_cons,List.filter_nil,hx,decide_true,
      if_true,List.reverse_append,List.reverse_singleton,List.singleton_append,
      List.argmax_cons]
    cases List.argmax key (xs.filter p).reverse <;> rfl
  · simp [lastMax,hx]

theorem lastMax_eq_none : lastMax key p xs = none ↔ ∀ x ∈ xs,¬p x := by
  rw [lastMax,List.argmax_eq_none,List.reverse_eq_nil_iff,List.filter_eq_nil_iff]
  simp

variable {key p}

/-- What `lastMax` finds is the last maximal element. -/
theorem lastMax_spec (h : lastMax key p xs = some m) : IsLastMax key p xs m := by
  induction xs using List.reverseRecOn generalizing m with
  | nil => simp [lastMax] at h
  | append_singleton xs x ih =>
    rw [lastMax_snoc] at h
    by_cases hx : p x
    · rw [if_pos hx] at h
      cases hb : lastMax key p xs with
      | none =>
        obtain rfl : x = m := by simpa [hb] using h
        have hnone := (lastMax_eq_none key p).mp hb
        exact isLastMax_snoc hx fun y hy hpy => absurd hpy (hnone y hy)
      | some b =>
        have hmax := ih hb
        by_cases hlt : key x < key b
        · obtain rfl : b = m := by simpa [hb,hlt] using h
          exact hmax.snoc fun _ => hlt
        · obtain rfl : x = m := by simpa [hb,hlt] using h
          exact isLastMax_snoc hx fun y hy hpy => (hmax.le y hy hpy).trans (not_lt.mp hlt)
    · rw [if_neg hx] at h
      exact (ih h).snoc fun hpx => absurd hpx hx

end UcVfs.Framework
