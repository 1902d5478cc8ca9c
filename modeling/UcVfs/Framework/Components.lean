import Mathlib.Data.List.Chain

/-!
# Components of a text

A text with a separator: its components are the maximal runs of other characters, and `render`
puts a separator before each. `resolve` cancels components against earlier ones.
-/

namespace UcVfs.Framework

variable {α β γ : Type} (sep : α)

def render (cs : List (List α)) : List α := cs.flatMap (sep :: ·)

/-- A component that can be told apart in a text. -/
def IsComponent (c : List α) : Prop := c ≠ [] ∧ sep ∉ c

section Render

variable {sep}

@[simp] theorem render_nil : render sep [] = [] := rfl

theorem render_cons (c : List α) (cs : List (List α)) :
    render sep (c :: cs) = sep :: c ++ render sep cs := rfl

theorem render_append (cs ds : List (List α)) :
    render sep (cs ++ ds) = render sep cs ++ render sep ds := List.flatMap_append

theorem render_concat (cs : List (List α)) (c : List α) :
    render sep (cs ++ [c]) = render sep cs ++ sep :: c := by
  rw [render_append,render_cons,render_nil,List.append_nil]

end Render

/-- The parts that are left when parts that are `here` are dropped and each part that is `up` goes
away with the last one kept before it; `none` when there is none. What is kept is pushed in the form
that `push` gives it. -/
def resolve (here up : β → Bool) (push : β → γ) : List β → List γ → Option (List γ)
  | [],kept => some kept
  | c :: cs,kept =>
    if here c then
      resolve here up push cs kept
    else if up c then
      if kept.isEmpty then none else resolve here up push cs kept.dropLast
    else
      resolve here up push cs (kept ++ [push c])

section Resolve

variable {here up : β → Bool} {push : β → γ}

/-- The form in which parts are kept makes no difference to which are. -/
theorem resolve_push (cs kept : List β) :
    resolve here up push cs (kept.map push) = (resolve here up id cs kept).map (List.map push) := by
  induction cs generalizing kept with
  | nil => rfl
  | cons c cs ih =>
    simp only [resolve,List.isEmpty_map]
    split
    · exact ih kept
    · split
      · split
        · rfl
        · rw [← List.map_dropLast]
          exact ih kept.dropLast
      · rw [show kept.map push ++ [push c] = (kept ++ [c]).map push by simp]
        exact ih (kept ++ [c])

theorem mem_resolve {cs : List β} {kept r : List γ} (h : resolve here up push cs kept = some r) :
    ∀ d ∈ r,d ∈ kept ∨ ∃ c ∈ cs,here c = false ∧ up c = false ∧ d = push c := by
  induction cs generalizing kept with
  | nil =>
    obtain rfl := Option.some.inj h
    exact fun d hd => Or.inl hd
  | cons c cs ih =>
    have hlater : ∀ d,(∃ c ∈ cs,here c = false ∧ up c = false ∧ d = push c) →
        ∃ c' ∈ c :: cs,here c' = false ∧ up c' = false ∧ d = push c' := by
      rintro d ⟨c',hc',hd⟩
      exact ⟨c',List.mem_cons_of_mem _ hc',hd⟩
    rw [resolve] at h
    split at h
    · exact fun d hd => (ih h d hd).imp_right (hlater d)
    · rename_i hhere
      split at h
      · split at h
        · cases h
        · exact fun d hd => (ih h d hd).imp (fun hold => List.dropLast_subset _ hold) (hlater d)
      · rename_i hup
        intro d hd
        rcases ih h d hd with hmem | hmore
        · rcases List.mem_append.mp hmem with hold | hnew
          · exact Or.inl hold
          · exact Or.inr ⟨c,List.mem_cons_self,by simpa using hhere,by simpa using hup,
              List.mem_singleton.mp hnew⟩
        · exact Or.inr (hlater d hmore)

/-- Parts that cancel nothing are all kept. -/
theorem resolve_plain {cs : List β} (h : ∀ c ∈ cs,here c = false ∧ up c = false) (kept : List γ) :
    resolve here up push cs kept = some (kept ++ cs.map push) := by
  induction cs generalizing kept with
  | nil => rw [resolve,List.map_nil,List.append_nil]
  | cons c cs ih =>
    obtain ⟨hhere,hup⟩ := h c List.mem_cons_self
    have hrest := ih (fun d hd => h d (List.mem_cons_of_mem _ hd)) (kept ++ [push c])
    rw [resolve,hhere,hup,if_neg Bool.false_ne_true,if_neg Bool.false_ne_true,hrest,List.map_cons,
      List.append_assoc,List.singleton_append]

theorem render_dropLast_length (cs : List (List α)) :
    (render sep cs.dropLast).length ≤ (render sep cs).length := by
  induction cs using List.reverseRecOn with
  | nil => exact Nat.le_refl _
  | append_singleton cs c _ =>
    rw [List.dropLast_concat,render_append,List.length_append]
    exact Nat.le_add_right _ _

/-- Cancelling does not take more room. -/
theorem resolve_length {here up : List α → Bool} {push : List α → List α}
    (hpush : ∀ c,(push c).length ≤ c.length) {cs kept r : List (List α)}
    (h : resolve here up push cs kept = some r) :
    (render sep r).length ≤ (render sep kept).length + (render sep cs).length := by
  induction cs generalizing kept with
  | nil =>
    obtain rfl := Option.some.inj h
    exact Nat.le_add_right _ _
  | cons c cs ih =>
    have hcons : (render sep (c :: cs)).length = c.length + 1 + (render sep cs).length := by
      rw [render_cons,List.length_append,List.length_cons]
    rw [resolve] at h
    split at h
    · have hrest := ih h
      omega
    · split at h
      · split at h
        · cases h
        · have hrest := ih h
          have hdrop := render_dropLast_length sep kept
          omega
      · have hrest := ih h
        have hc := hpush c
        rw [render_concat,List.length_append,List.length_cons] at hrest
        omega

end Resolve

variable [DecidableEq α]

def components (s : List α) : List (List α) :=
  (s.splitOnP fun c => decide (c = sep)).filter (!·.isEmpty)

/-- The text ends in a separator. -/
def trails (s : List α) : Bool := s.getLast? = some sep

section Components

variable {sep} {s : List α} {c : List α} {cs ds : List (List α)}

@[simp] theorem components_nil : components sep [] = [] := rfl

theorem components_sep (s : List α) : components sep (sep :: s) = components sep s := by
  have hsplit : ([] ++ sep :: s).splitOnP (fun c => decide (c = sep)) = _ :=
    List.splitOnP_append_cons_of_forall_mem (by simp) sep (by simp) s
  rw [List.nil_append] at hsplit
  rw [components,hsplit]
  rfl

theorem components_run (hc : IsComponent sep c) (h : s = [] ∨ s.head? = some sep) :
    components sep (c ++ s) = c :: components sep s := by
  have hno : ∀ x ∈ c,decide (x = sep) = false := by
    intro x hx
    have hne : x ≠ sep := fun he => hc.2 (by rwa [he] at hx)
    simpa using hne
  have hkeep : (!c.isEmpty) = true := by simpa using hc.1
  cases s with
  | nil =>
    rw [List.append_nil,components,List.splitOnP_eq_singleton hno]
    exact List.filter_cons_of_pos hkeep
  | cons x s =>
    obtain rfl : x = sep := by simpa using h
    rw [components_sep,components,List.splitOnP_append_cons_of_forall_mem hno x (by simp) s]
    exact List.filter_cons_of_pos hkeep

theorem trails_sep (s : List α) : trails sep (sep :: s) = (decide (s = []) || trails sep s) := by
  cases s with
  | nil => simp [trails]
  | cons x s => simp [trails,List.getLast?_cons]

theorem trails_run (hc : IsComponent sep c) (s : List α) : trails sep (c ++ s) = trails sep s := by
  cases s with
  | nil =>
    have hlast : c.getLast? ≠ some sep := fun h => hc.2 (List.mem_of_getLast? h)
    simp [trails,hlast]
  | cons x s => simp [trails,List.getLast?_append,List.getLast?_cons]

/-- Rendered components can be read back. -/
theorem components_render (hcs : ∀ c ∈ cs,IsComponent sep c) (tail : Bool) :
    components sep (render sep cs ++ if tail then [sep] else []) = cs := by
  induction cs with
  | nil =>
    cases tail with
    | false => rfl
    | true => exact components_sep []
  | cons c cs ih =>
    rw [render_cons,List.cons_append,List.cons_append,components_sep,List.append_assoc,
      components_run (hcs c List.mem_cons_self)]
    · rw [ih fun d hd => hcs d (List.mem_cons_of_mem _ hd)]
    · cases cs with
      | nil => cases tail <;> simp
      | cons d cs => exact Or.inr rfl

theorem trails_render (hcs : ∀ c ∈ cs,IsComponent sep c) (tail : Bool) :
    trails sep (render sep cs ++ if tail then [sep] else []) = tail := by
  cases tail with
  | true => simp [trails]
  | false =>
    rw [if_neg Bool.false_ne_true,List.append_nil]
    induction cs with
    | nil => rfl
    | cons c cs ih =>
      have hc := hcs c List.mem_cons_self
      have hne : c ++ render sep cs ≠ [] := fun h => hc.1 (List.append_eq_nil_iff.mp h).1
      rw [render_cons,List.cons_append,trails_sep,trails_run hc,
        ih fun d hd => hcs d (List.mem_cons_of_mem _ hd)]
      simp [hne]

/-- The parts that a text is read in: separators only, or a component with the separators before
it and what follows. -/
theorem text_cases (sep : α) (s : List α) :
    s.dropWhile (decide <| · = sep) = [] ∨
    ∃ c t,IsComponent sep c ∧ (t = [] ∨ t.head? = some sep) ∧
      s.dropWhile (decide <| · = sep) = c ++ t := by
  set r := s.dropWhile (decide <| · = sep) with hr
  cases hcase : r with
  | nil => exact Or.inl rfl
  | cons x r' =>
    have hx : x ≠ sep := by
      have hhead := List.head?_dropWhile_not (decide <| · = sep) s
      rw [← hr,hcase] at hhead
      simpa using hhead
    refine Or.inr ⟨r.takeWhile (decide <| · ≠ sep),r.dropWhile (decide <| · ≠ sep),⟨?_,?_⟩,?_,?_⟩
    · rw [hcase,List.takeWhile_cons_of_pos (by simpa using hx)]
      exact List.cons_ne_nil _ _
    · intro hmem
      have hall := List.all_eq_true.mp List.all_takeWhile sep hmem
      simp at hall
    · have hhead := List.head?_dropWhile_not (decide <| · ≠ sep) r
      cases ht : r.dropWhile (decide <| · ≠ sep) with
      | nil => exact Or.inl rfl
      | cons y t =>
        rw [ht] at hhead
        exact Or.inr (by simpa using hhead)
    · rw [← hcase]
      exact List.takeWhile_append_dropWhile.symm

/-- Leading separators do not count. -/
theorem components_dropWhile (s : List α) :
    components sep (s.dropWhile (decide <| · = sep)) = components sep s := by
  induction s with
  | nil => rfl
  | cons x s ih =>
    by_cases hx : x = sep
    · rw [List.dropWhile_cons_of_pos (by simpa using hx),ih,hx,components_sep]
    · rw [List.dropWhile_cons_of_neg (by simpa using hx)]

/-- What is left when leading separators are skipped in front of a component. -/
theorem components_skip {t : List α} (hc : IsComponent sep c) (ht : t = [] ∨ t.head? = some sep)
    (h : s.dropWhile (decide <| · = sep) = c ++ t) : components sep s = c :: components sep t := by
  rw [← components_dropWhile,h,components_run hc ht]

theorem trails_skip {t : List α} (hc : IsComponent sep c)
    (h : s.dropWhile (decide <| · = sep) = c ++ t) : trails sep s = trails sep t := by
  have hne : c ++ t ≠ [] := fun he => hc.1 (List.append_eq_nil_iff.mp he).1
  induction s with
  | nil => exact absurd h.symm hne
  | cons x s ih =>
    by_cases hx : x = sep
    · rw [List.dropWhile_cons_of_pos (by simpa using hx)] at h
      have hs : s ≠ [] := by
        intro hs
        rw [hs] at h
        exact hne h.symm
      rw [hx,trails_sep,ih h,decide_eq_false hs,Bool.false_or]
    · rw [List.dropWhile_cons_of_neg (by simpa using hx)] at h
      rw [h,trails_run hc]

theorem trails_separators (h : s.dropWhile (decide <| · = sep) = []) (hne : s ≠ []) :
    trails sep s = true := by
  induction s with
  | nil => exact absurd rfl hne
  | cons x s ih =>
    by_cases hx : x = sep
    · rw [List.dropWhile_cons_of_pos (by simpa using hx)] at h
      rw [hx,trails_sep]
      by_cases hs : s = []
      · rw [decide_eq_true hs,Bool.true_or]
      · rw [ih h hs,Bool.or_true]
    · rw [List.dropWhile_cons_of_neg (by simpa using hx)] at h
      cases h

/-- Every component can be told apart, and they take no more room than the text from a separator
on. -/
theorem components_fit (n : ℕ) (h : s = [] ∨ s.head? = some sep) (hn : s.length ≤ n) :
    (∀ c ∈ components sep s,IsComponent sep c ∧ c ⊆ s) ∧
    (render sep (components sep s)).length + (trails sep s).toNat ≤ s.length := by
  induction n generalizing s with
  | zero =>
    obtain rfl := List.length_eq_zero_iff.mp (Nat.le_zero.mp hn)
    exact ⟨fun c hc => absurd hc List.not_mem_nil,Nat.le_refl _⟩
  | succ n ih =>
    cases s with
    | nil => exact ⟨fun c hc => absurd hc List.not_mem_nil,Nat.le_refl _⟩
    | cons x s =>
      obtain rfl : x = sep := by simpa using h
      have hdrop : (x :: s).dropWhile (decide <| · = x) = s.dropWhile (decide <| · = x) :=
        List.dropWhile_cons_of_pos (by simp)
      have hless : (s.dropWhile (decide <| · = x)).length ≤ s.length :=
        (List.dropWhile_suffix _).length_le
      rcases text_cases x s with hall | ⟨c,t,hc,ht,hct⟩
      · rw [← components_dropWhile,hdrop,hall,components_nil]
        refine ⟨fun c hc => absurd hc List.not_mem_nil,?_⟩
        have hone := Bool.toNat_le (trails x (x :: s))
        simp only [render_nil,List.length_nil,List.length_cons]
        omega
      · have hct' := hdrop.trans hct
        rw [hct,List.length_append] at hless
        have hpos : 0 < c.length := List.length_pos_of_ne_nil hc.1
        rw [List.length_cons] at hn
        obtain ⟨hparts,hroom⟩ := ih ht (by omega)
        rw [components_skip hc ht hct',trails_skip hc hct']
        constructor
        · have hsub : c ++ t ⊆ x :: s := by
            rw [← hct']
            exact (List.dropWhile_suffix _).subset
          rw [List.append_subset] at hsub
          refine List.forall_mem_cons.mpr ⟨⟨hc,hsub.1⟩,?_⟩
          exact fun d hd => ⟨(hparts d hd).1,List.Subset.trans (hparts d hd).2 hsub.2⟩
        · rw [render_cons,List.cons_append,List.length_cons,List.length_append,List.length_cons]
          omega

theorem isComponent_of_mem (h : c ∈ components sep s) : IsComponent sep c := by
  rw [← components_sep] at h
  exact ((components_fit _ (Or.inr rfl) (Nat.le_refl _)).1 c h).1

theorem subset_of_mem (h : c ∈ components sep s) : c ⊆ sep :: s := by
  rw [← components_sep] at h
  exact ((components_fit _ (Or.inr rfl) (Nat.le_refl _)).1 c h).2

/-- A text takes up at most one place less than its components with their separators. -/
theorem render_components_length (s : List α) :
    (render sep (components sep s)).length + (trails sep s).toNat ≤ s.length + 1 := by
  have hfit := (components_fit _ (Or.inr rfl) (Nat.le_refl (sep :: s).length)).2
  rw [components_sep,trails_sep,List.length_cons] at hfit
  have hless : (trails sep s).toNat ≤ (decide (s = []) || trails sep s).toNat := by
    cases trails sep s with
    | false => exact Nat.zero_le _
    | true => rw [Bool.or_true]
  omega

omit [DecidableEq α] in
/-- No two separators stand side by side in what is rendered. -/
theorem render_chain (hcs : ∀ c ∈ cs,IsComponent sep c) (tail : Bool) :
    (render sep cs ++ if tail then [sep] else []).IsChain (fun a b => a ≠ sep ∨ b ≠ sep) := by
  induction cs with
  | nil =>
    cases tail with
    | false => exact List.isChain_nil
    | true => exact List.isChain_singleton _
  | cons c cs ih =>
    have hc := hcs c List.mem_cons_self
    have hno : ∀ x ∈ c,x ≠ sep := fun x hx he => hc.2 (by rwa [← he])
    rw [render_cons,List.cons_append,List.cons_append,List.append_assoc,List.isChain_cons,
      List.isChain_append]
    refine ⟨?_,?_,ih fun d hd => hcs d (List.mem_cons_of_mem _ hd),?_⟩
    · intro x hx
      obtain ⟨y,c',rfl⟩ := List.exists_cons_of_ne_nil hc.1
      obtain rfl : y = x := by simpa using hx
      exact Or.inr (hno y List.mem_cons_self)
    · exact (List.pairwise_of_forall_mem_list fun x hx _ _ => Or.inl (hno x hx)).isChain
    · exact fun x hx _ _ => Or.inl (hno x (List.mem_of_getLast? hx))

end Components

end UcVfs.Framework
