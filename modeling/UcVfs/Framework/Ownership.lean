import Mathlib.Data.Finset.Card
import Mathlib.Data.Fintype.Basic

/-!
# Ownership

Resources that are out of a pool, each held by exactly one holder.
-/

namespace UcVfs.Framework

variable {Holder Resource : Type} [DecidableEq Holder] [DecidableEq Resource]

/-- What is out is what is held, and nothing is held twice. -/
structure Owns (held : Holder → Option Resource) (out : Finset Resource) : Prop where
  out : ∀ r,r ∈ out ↔ ∃ x,held x = some r
  once : ∀ x y r,held x = some r → held y = some r → x = y

variable {held : Holder → Option Resource} {out : Finset Resource} {x : Holder} {r : Resource}

omit [DecidableEq Holder] [DecidableEq Resource] in
theorem Owns.empty : Owns (fun _ : Holder => none) (∅ : Finset Resource) where
  out := by simp
  once := by simp

theorem Owns.take (h : Owns held out) (hx : held x = none) (hr : r ∉ out) :
    Owns (Function.update held x (some r)) (insert r out) where
  out := by
    intro r'
    rw [Finset.mem_insert,h.out]
    constructor
    · intro hout
      obtain rfl | ⟨y,hy⟩ := hout
      · exact ⟨x,Function.update_self ..⟩
      · have hne : y ≠ x := fun heq => by rw [heq,hx] at hy; cases hy
        exact ⟨y,by rw [Function.update_of_ne hne,hy]⟩
    · intro hout
      obtain ⟨y,hy⟩ := hout
      by_cases hyx : y = x
      · rw [hyx,Function.update_self] at hy
        exact .inl (Option.some.inj hy).symm
      · rw [Function.update_of_ne hyx] at hy
        exact .inr ⟨y,hy⟩
  once := by
    have hfree : ∀ y,held y ≠ some r := fun y hy => hr ((h.out r).mpr ⟨y,hy⟩)
    intro y z r' hy hz
    by_cases hyx : y = x <;> by_cases hzx : z = x
    · exact hyx.trans hzx.symm
    · rw [hyx,Function.update_self] at hy
      rw [Function.update_of_ne hzx,← hy] at hz
      exact absurd hz (hfree z)
    · rw [hzx,Function.update_self] at hz
      rw [Function.update_of_ne hyx,← hz] at hy
      exact absurd hy (hfree y)
    · rw [Function.update_of_ne hyx] at hy
      rw [Function.update_of_ne hzx] at hz
      exact h.once y z r' hy hz

theorem Owns.give (h : Owns held out) (hx : held x = some r) :
    Owns (Function.update held x none) (out.erase r) where
  out := by
    intro r'
    rw [Finset.mem_erase,h.out]
    constructor
    · intro hout
      obtain ⟨hne,y,hy⟩ := hout
      have hyx : y ≠ x := fun heq => hne (Option.some.inj (by rw [← hy,heq,hx]))
      exact ⟨y,by rw [Function.update_of_ne hyx,hy]⟩
    · intro hout
      obtain ⟨y,hy⟩ := hout
      have hyx : y ≠ x := fun heq => by rw [heq,Function.update_self] at hy; cases hy
      rw [Function.update_of_ne hyx] at hy
      exact ⟨fun heq => hyx (h.once y x r (heq ▸ hy) hx),y,hy⟩
  once := by
    intro y z r' hy hz
    have hyx : y ≠ x := fun heq => by rw [heq,Function.update_self] at hy; cases hy
    have hzx : z ≠ x := fun heq => by rw [heq,Function.update_self] at hz; cases hz
    rw [Function.update_of_ne hyx] at hy
    rw [Function.update_of_ne hzx] at hz
    exact h.once y z r' hy hz

omit [DecidableEq Holder] in
theorem Owns.card [Fintype Holder] (h : Owns held out) :
    out.card = (Finset.univ.filter fun x => (held x).isSome).card := by
  have himage : out.map Function.Embedding.some =
      (Finset.univ.filter fun x => (held x).isSome).image held := by
    ext b
    cases b with
    | none =>
      have hsome : ∀ x,(held x).isSome → held x ≠ none := by
        intro x hx hnone
        rw [hnone] at hx
        cases hx
      simpa using hsome
    | some r =>
      simp only [Finset.mem_map,Finset.mem_image,Finset.mem_filter,Finset.mem_univ,true_and,
        Function.Embedding.some_apply,Option.some.injEq,exists_eq_right]
      rw [h.out]
      constructor
      · intro hout
        obtain ⟨x,hx⟩ := hout
        exact ⟨x,by rw [hx]; rfl,hx⟩
      · intro hout
        obtain ⟨x,-,hx⟩ := hout
        exact ⟨x,hx⟩
  rw [← Finset.card_map Function.Embedding.some,himage,Finset.card_image_of_injOn]
  intro x hx y hy heq
  obtain ⟨r,hr⟩ := Option.isSome_iff_exists.mp (Finset.mem_filter.mp hx).2
  exact h.once x y r hr (heq.symm.trans hr)

end UcVfs.Framework
