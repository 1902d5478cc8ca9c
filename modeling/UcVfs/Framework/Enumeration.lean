import Mathlib.Data.List.Basic

/-!
# Enumerating blocks

A search for the next wanted element from a place in a list of blocks on, and what it leaves to
be found from behind that element on.
-/

namespace UcVfs.Framework

variable {α β : Type}

/-- The first wanted element with its place; the elements are counted from `i` on. -/
def findFrom (f : α → Option β) : List α → ℕ → Option (β × ℕ)
  | [],_ => none
  | a :: as,i =>
    match f a with
    | some b => some (b,i)
    | none => findFrom f as (i + 1)

/-- The blocks are counted from `bix` on, and the first one is searched from `ix` on. -/
def findInBlocks (f : α → Option β) : List (List α) → ℕ → ℕ → Option (β × ℕ × ℕ)
  | [],_,_ => none
  | blk :: rest,bix,ix =>
    match findFrom f (blk.drop ix) ix with
    | some (b,i) => some (b,bix,i)
    | none => findInBlocks f rest (bix + 1) 0

/-- What lies at a place in the blocks and behind it. -/
def fromPlace (blocks : List (List α)) (bix ix : ℕ) : List α :=
  match blocks.drop bix with
  | [] => []
  | blk :: rest => blk.drop ix ++ rest.flatten

variable {f : α → Option β}

theorem findFrom_none {as : List α} {i : ℕ} (h : findFrom f as i = none) : as.filterMap f = [] := by
  induction as generalizing i with
  | nil => rfl
  | cons a as ih =>
    rw [findFrom] at h
    cases hf : f a with
    | some b => simp [hf] at h
    | none =>
      rw [hf] at h
      rw [List.filterMap_cons_none hf]
      exact ih h

theorem findFrom_some {as : List α} {i j : ℕ} {b : β} (h : findFrom f as i = some (b,j)) :
    i ≤ j ∧ as.filterMap f = b :: (as.drop (j + 1 - i)).filterMap f := by
  induction as generalizing i with
  | nil => cases h
  | cons a as ih =>
    rw [findFrom] at h
    cases hf : f a with
    | some b' =>
      rw [hf] at h
      cases h
      rw [List.filterMap_cons_some hf]
      simp
    | none =>
      rw [hf] at h
      obtain ⟨hle,hfound⟩ := ih h
      have hdrop : j + 1 - i = (j + 1 - (i + 1)) + 1 := by omega
      rw [List.filterMap_cons_none hf,hfound,hdrop,List.drop_succ_cons]
      exact ⟨by omega,rfl⟩

variable {blocks : List (List α)} {bix : ℕ}

theorem fromPlace_zero (blocks : List (List α)) : fromPlace blocks 0 0 = blocks.flatten := by
  cases blocks <;> rfl

theorem fromPlace_cons {blk : List α} {rest : List (List α)} (h : blocks.drop bix = blk :: rest)
    (ix : ℕ) : fromPlace blocks bix ix = blk.drop ix ++ fromPlace blocks (bix + 1) 0 := by
  have hrest : blocks.drop (bix + 1) = rest := by
    rw [← List.drop_drop,h]
    rfl
  have hnext : fromPlace blocks (bix + 1) 0 = rest.flatten := by
    simp only [fromPlace,hrest]
    cases rest <;> rfl
  rw [hnext]
  simp only [fromPlace,h]

/-- A search finds the first wanted element from the place on, and the others lie behind it. -/
theorem findInBlocks_spec (f : α → Option β) (blocks : List (List α)) (bix ix : ℕ) :
    findInBlocks f (blocks.drop bix) bix ix = none ∧ (fromPlace blocks bix ix).filterMap f = [] ∨
    ∃ b bix' ix',findInBlocks f (blocks.drop bix) bix ix = some (b,bix',ix') ∧
      (fromPlace blocks bix ix).filterMap f =
        b :: (fromPlace blocks bix' (ix' + 1)).filterMap f := by
  generalize hrest : blocks.drop bix = rest
  induction rest generalizing bix ix with
  | nil =>
    left
    simp [findInBlocks,fromPlace,hrest]
  | cons blk rest ih =>
    have hplace := fromPlace_cons hrest
    rw [hplace ix,findInBlocks,List.filterMap_append]
    cases hfind : findFrom f (blk.drop ix) ix with
    | some v =>
      obtain ⟨b,j⟩ := v
      obtain ⟨hle,hfound⟩ := findFrom_some hfind
      have hsum : ix + (j + 1 - ix) = j + 1 := by omega
      right
      refine ⟨b,bix,j,rfl,?_⟩
      rw [hfound,hplace (j + 1),List.filterMap_append,List.drop_drop,hsum]
      rfl
    | none =>
      rw [findFrom_none hfind]
      apply ih
      rw [← List.drop_drop,hrest]
      rfl

end UcVfs.Framework
