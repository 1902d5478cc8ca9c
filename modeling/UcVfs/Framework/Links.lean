import Mathlib.Data.List.Basic
import Mathlib.Data.List.Nodup
import Mathlib.Logic.Function.Basic

/-!
# Lists that are linked in a table

A table tells the successor of every cell, and lists of cells are linked in it: each cell leads to
the next one, and the last one to a value that ends the list. Lists that share no cell can be grown,
cut and looked at one by one.
-/

namespace UcVfs.Framework

variable {α : Type}

/-- The cells of a linked list, in order. -/
def Linked (next : α → α) (IsEnd : α → Prop) : List α → Prop
  | [] => True
  | [a] => IsEnd (next a)
  | a :: b :: l => next a = b ∧ Linked next IsEnd (b :: l)

namespace Linked

variable {next next' : α → α} {IsEnd : α → Prop} {a b c d e : α} {cs l₁ l₂ : List α}

theorem tail (h : Linked next IsEnd (a :: cs)) : Linked next IsEnd cs := by
  cases cs with
  | nil => trivial
  | cons b l => exact h.2

theorem suffix (h : Linked next IsEnd (l₁ ++ l₂)) : Linked next IsEnd l₂ := by
  induction l₁ with
  | nil => exact h
  | cons a l ih => exact ih h.tail

theorem next_eq (h : Linked next IsEnd cs) {i : ℕ} (hc : cs[i]? = some c)
    (hd : cs[i + 1]? = some d) : next c = d := by
  induction cs generalizing i with
  | nil => simp at hc
  | cons a l ih =>
    cases i with
    | zero =>
      cases l with
      | nil => simp at hd
      | cons b l =>
        simp only [List.getElem?_cons_zero,List.getElem?_cons_succ,Option.some.injEq] at hc hd
        rw [← hc,← hd]
        exact h.1
    | succ i => exact ih h.tail hc hd

theorem next_last (h : Linked next IsEnd cs) (hc : cs.getLast? = some c) : IsEnd (next c) := by
  induction cs with
  | nil => simp at hc
  | cons a l ih =>
    cases l with
    | nil =>
      simp only [List.getLast?_singleton,Option.some.injEq] at hc
      rw [← hc]
      exact h
    | cons b l =>
      rw [List.getLast?_cons_cons] at hc
      exact ih h.tail hc

/-- What follows a cell is the next cell or the end. -/
theorem next_mem (h : Linked next IsEnd cs) (hc : c ∈ cs) : next c ∈ cs ∨ IsEnd (next c) := by
  obtain ⟨i,hi⟩ := List.mem_iff_getElem?.mp hc
  cases hd : cs[i + 1]? with
  | some d =>
    rw [h.next_eq hi hd]
    exact Or.inl (List.mem_of_getElem? hd)
  | none =>
    refine Or.inr (h.next_last ?_)
    have hlt := (List.getElem?_eq_some_iff.mp hi).1
    have hle := List.getElem?_eq_none_iff.mp hd
    have hlast : cs.length - 1 = i := by omega
    rw [List.getLast?_eq_getElem?,hlast,hi]

/-- Only the cells of the list matter. -/
theorem congr (h : Linked next IsEnd cs) (hnext : ∀ c ∈ cs,next' c = next c) :
    Linked next' IsEnd cs := by
  induction cs with
  | nil => trivial
  | cons a l ih =>
    have ha := hnext a List.mem_cons_self
    have hrest := ih h.tail fun c hc => hnext c (List.mem_cons_of_mem _ hc)
    cases l with
    | nil =>
      show IsEnd (next' a)
      rw [ha]
      exact h
    | cons b l => exact ⟨ha.trans h.1,hrest⟩

/-- A cell behind the last one. -/
theorem grow (h : Linked next IsEnd cs) (hd : IsEnd (next' d))
    (hsame : ∀ c ∈ cs.dropLast,next' c = next c)
    (hlast : ∀ c ∈ cs.getLast?,next' c = d) : Linked next' IsEnd (cs ++ [d]) := by
  induction cs with
  | nil => exact hd
  | cons a l ih =>
    cases l with
    | nil => exact ⟨hlast a rfl,hd⟩
    | cons b l =>
      have ha : next' a = next a := hsame a List.mem_cons_self
      refine ⟨ha.trans h.1,ih h.tail (fun c hc => hsame c (List.mem_cons_of_mem _ hc)) ?_⟩
      intro c hc
      exact hlast c (by rwa [List.getLast?_cons_cons])

/-- The list up to a cell that ends it from now on. -/
theorem cut (h : Linked next IsEnd (l₁ ++ l₂)) (hsame : ∀ c ∈ l₁.dropLast,next' c = next c)
    (hlast : ∀ c ∈ l₁.getLast?,IsEnd (next' c)) : Linked next' IsEnd l₁ := by
  induction l₁ with
  | nil => trivial
  | cons a l ih =>
    cases l with
    | nil => exact hlast a rfl
    | cons b l =>
      have ha : next' a = next a := hsame a List.mem_cons_self
      refine ⟨ha.trans h.1,ih h.tail (fun c hc => hsame c (List.mem_cons_of_mem _ hc)) ?_⟩
      intro c hc
      exact hlast c (by rwa [List.getLast?_cons_cons])

/-- A list that ends somewhere does not come back to one of its cells. -/
theorem unique {l l' : List α} (hend : ∀ c ∈ a :: l,¬IsEnd c) (hend' : ∀ c ∈ a :: l',¬IsEnd c)
    (h : Linked next IsEnd (a :: l)) (h' : Linked next IsEnd (a :: l')) : l = l' := by
  induction l generalizing a l' with
  | nil =>
    cases l' with
    | nil => rfl
    | cons b' l' =>
      have hstop : IsEnd (next a) := h
      rw [h'.1] at hstop
      exact absurd hstop (hend' b' (by simp))
  | cons b l ih =>
    cases l' with
    | nil =>
      have hstop : IsEnd (next a) := h'
      rw [h.1] at hstop
      exact absurd hstop (hend b (by simp))
    | cons b' l' =>
      have hb : b = b' := h.1.symm.trans h'.1
      subst hb
      rw [ih (fun c hc => hend c (List.mem_cons_of_mem _ hc))
        (fun c hc => hend' c (List.mem_cons_of_mem _ hc)) h.tail h'.tail]

theorem nodup (h : Linked next IsEnd cs) (hend : ∀ c ∈ cs,¬IsEnd c) : cs.Nodup := by
  induction cs with
  | nil => exact List.nodup_nil
  | cons a l ih =>
    refine List.nodup_cons.mpr ⟨fun ha => ?_,ih h.tail fun c hc => hend c (List.mem_cons_of_mem _ hc)⟩
    obtain ⟨l₁,l₂,rfl⟩ := List.append_of_mem ha
    have hagain : Linked next IsEnd (a :: l₂) := h.tail.suffix
    have hsame : l₁ ++ a :: l₂ = l₂ := by
      refine unique hend (fun c hc => hend c ?_) h hagain
      exact List.mem_cons_of_mem _ (List.mem_append_right _ hc)
    have hlen := congrArg List.length hsame
    simp only [List.length_append,List.length_cons] at hlen
    omega

end Linked

/-- Lists of valid cells, one for each index, of which no two share a cell. -/
structure LinkedAll {ι : Type} (next : α → α) (IsEnd Valid : α → Prop) (lists : ι → List α) : Prop where
  linked : ∀ i,Linked next IsEnd (lists i)
  valid : ∀ {i c},c ∈ lists i → Valid c
  apart : ∀ {i j c},c ∈ lists i → c ∈ lists j → i = j

namespace LinkedAll

variable {ι : Type} [DecidableEq ι] {next next' : α → α} {IsEnd Valid : α → Prop}
  {lists : ι → List α} {i : ι} {c d : α} {l₁ l₂ : List α}

omit [DecidableEq ι] in
theorem nodup (h : LinkedAll next IsEnd Valid lists) (hvalid : ∀ {c},Valid c → ¬IsEnd c) (i : ι) :
    (lists i).Nodup :=
  (h.linked i).nodup fun _ hc => hvalid (h.valid hc)

omit [DecidableEq ι] in
theorem congr (h : LinkedAll next IsEnd Valid lists)
    (hnext : ∀ i,∀ c ∈ lists i,next' c = next c) : LinkedAll next' IsEnd Valid lists :=
  ⟨fun i => (h.linked i).congr (hnext i),h.valid,h.apart⟩

/-- The last cell of a list is not among the ones before it. -/
theorem ne_last (hnodup : l₁.Nodup) (hc : c ∈ l₁.dropLast) (hd : d ∈ l₁.getLast?) : c ≠ d := by
  rintro rfl
  rw [← List.dropLast_append_getLast? _ hd] at hnodup
  exact (List.disjoint_of_nodup_append hnodup) hc (List.mem_singleton_self c)

/-- One list gets a new cell, and the others stay as they are. -/
theorem grow (h : LinkedAll next IsEnd Valid lists) (hvalid : ∀ {c},Valid c → ¬IsEnd c)
    (hnew : ∀ j,d ∉ lists j) (hd : Valid d) (hend : IsEnd (next' d))
    (hlast : ∀ c ∈ (lists i).getLast?,next' c = d)
    (hsame : ∀ j,∀ c ∈ lists j,c ∉ (lists i).getLast? → next' c = next c) :
    LinkedAll next' IsEnd Valid (Function.update lists i (lists i ++ [d])) := by
  have hmem : ∀ {j c},c ∈ Function.update lists i (lists i ++ [d]) j →
      c ∈ lists j ∨ (j = i ∧ c = d) := by
    intro j c hc
    by_cases hj : j = i
    · rw [hj,Function.update_self] at hc
      rw [hj]
      simpa using hc
    · rw [Function.update_of_ne hj] at hc
      exact Or.inl hc
  refine ⟨fun j => ?_,fun hc => ?_,fun hc hc' => ?_⟩
  · by_cases hj : j = i
    · rw [hj,Function.update_self]
      refine (h.linked i).grow hend (fun c hc => ?_) hlast
      exact hsame i c ((List.dropLast_subset _) hc) fun hl => ne_last (h.nodup hvalid i) hc hl rfl
    · rw [Function.update_of_ne hj]
      refine (h.linked j).congr fun c hc => hsame j c hc fun hl => ?_
      exact hj (h.apart hc (List.mem_of_getLast? hl))
  · rcases hmem hc with hold | ⟨_,rfl⟩
    · exact h.valid hold
    · exact hd
  · rcases hmem hc with hold | ⟨rfl,rfl⟩
    · rcases hmem hc' with hold' | ⟨_,rfl⟩
      · exact h.apart hold hold'
      · exact absurd hold (hnew _)
    · rcases hmem hc' with hold' | ⟨rfl,_⟩
      · exact absurd hold' (hnew _)
      · rfl

/-- A list is cut in two, and the others stay as they are. -/
theorem split (h : LinkedAll next IsEnd Valid lists) (hvalid : ∀ {c},Valid c → ¬IsEnd c)
    (hi : lists i = l₁ ++ l₂) (hlast : ∀ c ∈ l₁.getLast?,IsEnd (next' c))
    (hsame : ∀ j,∀ c ∈ lists j,c ∉ l₁.getLast? → next' c = next c) :
    LinkedAll next' IsEnd Valid fun j : Option ι => j.elim l₂ (Function.update lists i l₁) := by
  have hnodup := h.nodup hvalid i
  have hlinked := h.linked i
  rw [hi] at hnodup hlinked
  have hin : ∀ {c},c ∈ l₁ ∨ c ∈ l₂ → c ∈ lists i := fun hc => hi ▸ List.mem_append.mpr hc
  have hmem : ∀ {j c},c ∈ Function.update lists i l₁ j → c ∈ lists j ∧ (j = i → c ∈ l₁) := by
    intro j c hc
    by_cases hj : j = i
    · rw [hj,Function.update_self] at hc
      rw [hj]
      exact ⟨hin (Or.inl hc),fun _ => hc⟩
    · rw [Function.update_of_ne hj] at hc
      exact ⟨hc,fun h => absurd h hj⟩
  have hcross : ∀ {j c},c ∈ Function.update lists i l₁ j → c ∉ l₂ := by
    intro j c hc hc₂
    obtain ⟨hold,hfirst⟩ := hmem hc
    exact List.disjoint_of_nodup_append hnodup (hfirst (h.apart hold (hin (Or.inr hc₂)))) hc₂
  refine ⟨fun j => ?_,@fun j c hc => ?_,@fun j k c hc hc' => ?_⟩
  · cases j with
    | none =>
      refine hlinked.suffix.congr fun c hc => hsame i c (hin (Or.inr hc)) fun hl => ?_
      exact List.disjoint_of_nodup_append hnodup (List.mem_of_getLast? hl) hc
    | some j =>
      show Linked next' IsEnd (Function.update lists i l₁ j)
      by_cases hj : j = i
      · rw [hj,Function.update_self]
        refine hlinked.cut (fun c hc => ?_) hlast
        have hc₁ := (List.dropLast_subset _) hc
        exact hsame i c (hin (Or.inl hc₁)) fun hl =>
          ne_last (List.Nodup.of_append_left hnodup) hc hl rfl
      · rw [Function.update_of_ne hj]
        refine (h.linked j).congr fun c hc => hsame j c hc fun hl => ?_
        exact hj (h.apart hc (hin (Or.inl (List.mem_of_getLast? hl))))
  · cases j with
    | none => exact h.valid (hin (Or.inr hc))
    | some j => exact h.valid (hmem hc).1
  · cases j with
    | none =>
      cases k with
      | none => rfl
      | some k => exact absurd hc (hcross hc')
    | some j =>
      cases k with
      | none => exact absurd hc' (hcross hc)
      | some k => rw [h.apart (hmem hc).1 (hmem hc').1]

omit [DecidableEq ι] in
/-- A list is left out. -/
theorem some {lists : Option ι → List α} (h : LinkedAll next IsEnd Valid lists) :
    LinkedAll next IsEnd Valid fun i => lists (.some i) :=
  ⟨fun _ => h.linked _,h.valid,fun hc hc' => Option.some.inj (h.apart hc hc')⟩

/-- A list loses its first cell, and the others stay as they are. -/
theorem drop (h : LinkedAll next IsEnd Valid lists) (hvalid : ∀ {c},Valid c → ¬IsEnd c)
    (hi : lists i = c :: l₂) (hsame : ∀ j,∀ d ∈ lists j,d ≠ c → next' d = next d) :
    LinkedAll next' IsEnd Valid (Function.update lists i l₂) := by
  have hnodup := h.nodup hvalid i
  have hlinked := h.linked i
  rw [hi] at hnodup hlinked
  have hmem : ∀ {j d},d ∈ Function.update lists i l₂ j → d ∈ lists j ∧ d ≠ c := by
    intro j d hd
    by_cases hj : j = i
    · rw [hj,Function.update_self] at hd
      rw [hj,hi]
      refine ⟨List.mem_cons_of_mem _ hd,?_⟩
      rintro rfl
      exact (List.nodup_cons.mp hnodup).1 hd
    · rw [Function.update_of_ne hj] at hd
      refine ⟨hd,?_⟩
      rintro rfl
      exact hj (h.apart hd (hi ▸ List.mem_cons_self))
  refine ⟨fun j => ?_,fun hd => h.valid (hmem hd).1,fun hd hd' => h.apart (hmem hd).1 (hmem hd').1⟩
  have hnext : ∀ d ∈ Function.update lists i l₂ j,next' d = next d := fun d hd =>
    hsame j d (hmem hd).1 (hmem hd).2
  by_cases hj : j = i
  · rw [hj,Function.update_self] at hnext ⊢
    exact hlinked.tail.congr hnext
  · rw [Function.update_of_ne hj] at hnext ⊢
    exact (h.linked j).congr hnext

end LinkedAll

end UcVfs.Framework
