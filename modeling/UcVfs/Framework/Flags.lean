import Mathlib.Data.Nat.Bitwise

/-!
# Flag words

A word of flags is often put together by a sequence of tests, each of which sets some bits.
The bits of the result are read off the list of tests.
-/

namespace UcVfs.Framework

/-- Each rule whose test holds sets its bits. -/
def setFlags : List (Bool × Nat) → Nat → Nat
  | [],w => w
  | (test,bits) :: rules,w => setFlags rules (if test then w ||| bits else w)

theorem testBit_setFlags (rules : List (Bool × Nat)) (w i : Nat) :
    (setFlags rules w).testBit i = (w.testBit i || rules.any fun r => r.1 && r.2.testBit i) := by
  induction rules generalizing w with
  | nil => simp [setFlags]
  | cons r rules ih =>
    obtain ⟨test,bits⟩ := r
    rw [setFlags,ih]
    cases test with
    | false => simp
    | true => simp [Nat.testBit_or,Bool.or_assoc]

/-- Some bit of the mask is set. -/
abbrev AnyFlag (w mask : Nat) : Prop := w &&& mask ≠ 0

/-- All bits of the mask are set. -/
abbrev AllFlags (w mask : Nat) : Prop := w &&& mask = mask

theorem anyFlag_two_pow (w i : Nat) : AnyFlag w (2 ^ i) ↔ w.testBit i = true := by
  rw [AnyFlag,Nat.and_two_pow]
  cases w.testBit i with
  | false => simp
  | true => simp

/-- For a single bit the two are the same. -/
theorem allFlags_two_pow (w i : Nat) : AllFlags w (2 ^ i) ↔ AnyFlag w (2 ^ i) := by
  rw [anyFlag_two_pow,AllFlags,Nat.and_two_pow]
  cases w.testBit i with
  | false => simpa using (Nat.two_pow_pos i).ne
  | true => simp

/-- A word put together from nothing has a bit when some rule sets it. -/
theorem anyFlag_setFlags (rules : List (Bool × Nat)) (i : Nat) :
    AnyFlag (setFlags rules 0) (2 ^ i) ↔ ∃ r ∈ rules,r.1 = true ∧ r.2.testBit i = true := by
  simp [anyFlag_two_pow,testBit_setFlags]

/-- A mask of all the bits that the rules can set is no restriction. -/
theorem setFlags_and (rules : List (Bool × Nat)) {mask : Nat}
    (h : ∀ r ∈ rules,r.2 &&& mask = r.2) : setFlags rules 0 &&& mask = setFlags rules 0 := by
  apply Nat.eq_of_testBit_eq
  intro i
  rw [Nat.testBit_and,testBit_setFlags,Nat.zero_testBit,Bool.false_or,Bool.and_eq_left_iff_imp,
    List.any_eq_true]
  rintro ⟨r,hr,hbit⟩
  rw [Bool.and_eq_true,← h r hr,Nat.testBit_and,Bool.and_eq_true] at hbit
  exact hbit.2.2

theorem anyFlag_lor (a b mask : Nat) : AnyFlag (a ||| b) mask ↔ AnyFlag a mask ∨ AnyFlag b mask := by
  simp only [AnyFlag,Nat.and_or_distrib_right,ne_eq,Nat.or_eq_zero_iff,not_and_or]

theorem anyFlag_or_self {w mask : Nat} (h : mask ≠ 0) : AnyFlag (w ||| mask) mask := by
  rw [anyFlag_lor,AnyFlag,AnyFlag,Nat.and_self]
  exact Or.inr h

theorem anyFlag_or (w a b : Nat) : AnyFlag w (a ||| b) ↔ AnyFlag w a ∨ AnyFlag w b := by
  simp only [AnyFlag,Nat.and_or_distrib_left,ne_eq,Nat.or_eq_zero_iff,not_and_or]

theorem allFlags_or (w a b : Nat) : AllFlags w (a ||| b) ↔ AllFlags w a ∧ AllFlags w b := by
  have hbit : ∀ m,AllFlags w m ↔ ∀ i,m.testBit i = true → w.testBit i = true := by
    intro m
    rw [AllFlags]
    constructor
    · intro h i hi
      rw [← h,Nat.testBit_and,Bool.and_eq_true] at hi
      exact hi.1
    · intro h
      apply Nat.eq_of_testBit_eq
      intro i
      rw [Nat.testBit_and]
      by_cases hi : m.testBit i = true
      · rw [h i hi,hi,Bool.and_self]
      · simp [Bool.not_eq_true _ ▸ hi]
  simp only [hbit,Nat.testBit_or,Bool.or_eq_true]
  constructor
  · intro h
    exact ⟨fun i hi => h i (Or.inl hi),fun i hi => h i (Or.inr hi)⟩
  · intro h i hi
    exact hi.elim (h.1 i) (h.2 i)

end UcVfs.Framework
