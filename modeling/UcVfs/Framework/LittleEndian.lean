import UcVfs.Framework.Memory
import Mathlib.Logic.Function.Basic

/-!
# Little-endian numbers in memory

Loading and storing numbers of any width, and which bytes they depend on.
-/

namespace UcVfs.Framework

/-- The number in `n` bytes from `a` on. -/
def loadLE (m : Mem) : ℕ → ℕ → ℕ
  | _,0 => 0
  | a,n + 1 => (m a).toNat + 256 * loadLE m (a + 1) n

/-- Stores the last `n` bytes of a number from `a` on. -/
def storeLE (m : Mem) : ℕ → ℕ → ℕ → Mem
  | _,_,0 => m
  | a,val,n + 1 => storeLE (Function.update m a (UInt8.ofNat val)) (a + 1) (val / 256) n

theorem loadLE_congr {m m' : Mem} {a a' n : ℕ} (h : ∀ i < n,m (a + i) = m' (a' + i)) :
    loadLE m a n = loadLE m' a' n := by
  induction n generalizing a a' with
  | zero => rfl
  | succ n ih =>
    have hhead : m a = m' a' := h 0 (Nat.succ_pos n)
    have htail : ∀ i < n,m (a + 1 + i) = m' (a' + 1 + i) := by
      intro i hi
      have hi' := h (i + 1) (Nat.succ_lt_succ hi)
      rwa [Nat.add_right_comm,Nat.add_assoc a',Nat.add_comm 1]
    rw [loadLE,loadLE,hhead,ih htail]

theorem loadLE_lt (m : Mem) (a n : ℕ) : loadLE m a n < 256 ^ n := by
  induction n generalizing a with
  | zero => exact Nat.one_pos
  | succ n ih =>
    have hbyte := (m a).toNat_lt
    have hrest := ih (a + 1)
    rw [loadLE,Nat.pow_succ]
    omega

theorem storeLE_outside {m : Mem} {a val n x : ℕ} (hx : x < a ∨ a + n ≤ x) :
    storeLE m a val n x = m x := by
  induction n generalizing m a val with
  | zero => rfl
  | succ n ih =>
    have hne : x ≠ a := by omega
    rw [storeLE,ih (by omega),Function.update_of_ne hne]

theorem storeLE_inside {m : Mem} {a val n i : ℕ} (hi : i < n) :
    storeLE m a val n (a + i) = UInt8.ofNat (val / 256 ^ i) := by
  induction n generalizing m a val i with
  | zero => omega
  | succ n ih =>
    cases i with
    | zero =>
      have hplace : a + 0 = a := Nat.add_zero a
      rw [hplace,storeLE,storeLE_outside (Or.inl (Nat.lt_succ_self a)),Function.update_self,
        Nat.pow_zero,Nat.div_one]
    | succ i =>
      have hplace : a + (i + 1) = a + 1 + i := by omega
      have hpow : 256 ^ (i + 1) = 256 * 256 ^ i := Nat.pow_succ'
      rw [storeLE,hplace,ih (by omega),hpow,Nat.div_div_eq_div_mul]

theorem loadLE_storeLE (m : Mem) (a val n : ℕ) : loadLE (storeLE m a val n) a n = val % 256 ^ n := by
  induction n generalizing m a val with
  | zero => rw [Nat.pow_zero,Nat.mod_one]; rfl
  | succ n ih =>
    have hfirst : storeLE m a val (n + 1) a = UInt8.ofNat val := by
      have hbyte := @storeLE_inside m a val (n + 1) 0 (Nat.succ_pos n)
      rwa [Nat.add_zero,Nat.pow_zero,Nat.div_one] at hbyte
    have hpow : 256 ^ (n + 1) = 256 * 256 ^ n := Nat.pow_succ'
    rw [loadLE,hfirst,storeLE,ih,UInt8.toNat_ofNat',hpow]
    exact Nat.mod_mul.symm

/-- A number elsewhere is not touched. -/
theorem loadLE_storeLE_outside {m : Mem} {a val n b k : ℕ} (h : b + k ≤ a ∨ a + n ≤ b) :
    loadLE (storeLE m a val n) b k = loadLE m b k :=
  loadLE_congr fun i hi => storeLE_outside (by omega)

end UcVfs.Framework
