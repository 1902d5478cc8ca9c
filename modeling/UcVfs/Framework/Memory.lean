import Mathlib.Algebra.Order.Ring.Int
import Mathlib.Data.UInt

/-!
# Bytes behind a pointer

What a copy or a fill writes, byte by byte, and that it leaves the rest alone.
-/

namespace UcVfs.Framework

/-- The memory from a pointer on. -/
abbrev Mem := ℕ → UInt8

/-- `n` bytes of `src` from `s` on, copied to `dst` from `d` on. -/
def memcpy (dst : Mem) (d : ℕ) (src : Mem) (s n : ℕ) : Mem := fun a =>
  if d ≤ a ∧ a < d + n then src (s + (a - d)) else dst a

def memset (dst : Mem) (d : ℕ) (c : UInt8) (n : ℕ) : Mem := fun a =>
  if d ≤ a ∧ a < d + n then c else dst a

theorem memcpy_inside {dst src : Mem} {d s n i : ℕ} (hi : i < n) :
    memcpy dst d src s n (d + i) = src (s + i) := by
  have hrange : d ≤ d + i ∧ d + i < d + n := by omega
  rw [memcpy,if_pos hrange,Nat.add_sub_cancel_left]

theorem memcpy_outside {dst src : Mem} {d s n a : ℕ} (ha : a < d ∨ d + n ≤ a) :
    memcpy dst d src s n a = dst a := by
  have hrange : ¬(d ≤ a ∧ a < d + n) := by omega
  rw [memcpy,if_neg hrange]

theorem memset_inside {dst : Mem} {d n i : ℕ} {c : UInt8} (hi : i < n) :
    memset dst d c n (d + i) = c := by
  have hrange : d ≤ d + i ∧ d + i < d + n := by omega
  rw [memset,if_pos hrange]

theorem memset_outside {dst : Mem} {d n a : ℕ} {c : UInt8} (ha : a < d ∨ d + n ≤ a) :
    memset dst d c n a = dst a := by
  have hrange : ¬(d ≤ a ∧ a < d + n) := by omega
  rw [memset,if_neg hrange]

theorem memcpy_zero (dst : Mem) (d : ℕ) (src : Mem) (s : ℕ) : memcpy dst d src s 0 = dst := by
  funext a
  exact memcpy_outside (by omega)

theorem memcpy_congr {dst src src' : Mem} {d s s' n : ℕ} (h : ∀ j < n,src (s + j) = src' (s' + j)) :
    memcpy dst d src s n = memcpy dst d src' s' n := by
  funext a
  by_cases ha : d ≤ a ∧ a < d + n
  · obtain ⟨j,rfl⟩ := Nat.exists_eq_add_of_le ha.1
    rw [memcpy_inside (by omega),memcpy_inside (by omega),h j (by omega)]
  · rw [memcpy_outside (by omega),memcpy_outside (by omega)]

/-- One copy behind the other. -/
theorem memcpy_append (dst src : Mem) (d s n k : ℕ) :
    memcpy (memcpy dst d src s n) (d + n) src (s + n) k = memcpy dst d src s (n + k) := by
  funext a
  by_cases hin : d ≤ a ∧ a < d + (n + k)
  · obtain ⟨j,rfl⟩ := Nat.exists_eq_add_of_le hin.1
    rw [memcpy_inside (by omega)]
    by_cases hfirst : j < n
    · rw [memcpy_outside (by omega),memcpy_inside hfirst]
    · obtain ⟨l,rfl⟩ := Nat.exists_eq_add_of_le (not_lt.mp hfirst)
      rw [← Nat.add_assoc,memcpy_inside (by omega),Nat.add_assoc]
  · rw [memcpy_outside (by omega),memcpy_outside (by omega),memcpy_outside (by omega)]

theorem memset_zero (dst : Mem) (d : ℕ) (c : UInt8) : memset dst d c 0 = dst := by
  funext a
  exact memset_outside (by omega)

/-- `n` bytes from `s` on, as a list. -/
def bytesFrom (m : Mem) (s n : ℕ) : List UInt8 := (List.range n).map fun j => m (s + j)

/-- The memory that holds these bytes. -/
def memOf (l : List UInt8) : Mem := fun a => l.getD a 0

@[simp] theorem bytesFrom_length (m : Mem) (s n : ℕ) : (bytesFrom m s n).length = n := by
  rw [bytesFrom,List.length_map,List.length_range]

theorem bytesFrom_getElem? {m : Mem} {s n k : ℕ} (hk : k < n) :
    (bytesFrom m s n)[k]? = some (m (s + k)) := by
  rw [bytesFrom,List.getElem?_map,List.getElem?_range hk,Option.map_some]

theorem memOf_getElem? {l : List UInt8} {k : ℕ} (hk : k < l.length) : l[k]? = some (memOf l k) := by
  rw [memOf,List.getD_eq_getElem?_getD,List.getElem?_eq_getElem hk,Option.getD_some]

theorem bytesFrom_eq {m : Mem} {s : ℕ} {l : List UInt8}
    (h : ∀ k < l.length,l[k]? = some (m (s + k))) : bytesFrom m s l.length = l := by
  refine List.ext_getElem? fun k => ?_
  by_cases hk : k < l.length
  · rw [bytesFrom_getElem? hk,h k hk]
  · rw [List.getElem?_eq_none (by simpa using hk),List.getElem?_eq_none (not_lt.mp hk)]

/-- A range of addresses and the bytes that were put there. -/
structure Store where
  start : ℕ
  len : ℕ
  bytes : Mem

namespace Store

def Covers (w : Store) (a : ℕ) : Prop := w.start ≤ a ∧ a < w.start + w.len

instance (w : Store) (a : ℕ) : Decidable (w.Covers a) := inferInstanceAs (Decidable (_ ∧ _))

def byteAt (w : Store) (a : ℕ) : UInt8 := w.bytes (a - w.start)

def apply (m : Mem) (w : Store) : Mem := memcpy m w.start w.bytes 0 w.len

theorem apply_at (m : Mem) (w : Store) (a : ℕ) :
    apply m w a = if w.Covers a then w.byteAt a else m a := by
  show (if w.Covers a then w.bytes (0 + (a - w.start)) else m a) = _
  rw [Nat.zero_add,byteAt]

/-- The last one of a history, oldest first, that covers an address. -/
def last : List Store → ℕ → Option Store
  | [],_ => none
  | w :: hist,a =>
    match last hist a with
    | some later => some later
    | none => if w.Covers a then some w else none

/-- After a history of stores an address holds what the last one covering it put there, and what
it held before when none does. -/
theorem foldl_apply (hist : List Store) (m : Mem) (a : ℕ) :
    hist.foldl apply m a = ((last hist a).map (·.byteAt a)).getD (m a) := by
  induction hist generalizing m with
  | nil => rfl
  | cons w hist ih =>
    rw [List.foldl_cons,ih,last]
    cases hlast : last hist a with
    | some later => rfl
    | none =>
      rw [Option.map_none,Option.getD_none,apply_at]
      by_cases hcov : w.Covers a
      · simp only [hcov,if_true,Option.map_some,Option.getD_some]
      · simp only [hcov,if_false,Option.map_none,Option.getD_none]

end Store

end UcVfs.Framework
