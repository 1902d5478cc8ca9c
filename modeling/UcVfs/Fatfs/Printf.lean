import UcVfs.Vfs.Types
import Mathlib.Data.List.TakeWhile

/-!
# Bounded printing

`snprintf` of `printf.c` for the formats of the FatFs adapter, and `strncpy`. A buffer is its
list of bytes.
-/

namespace UcVfs

/-- A piece of a format with its argument: literal characters, `%s` or `%u`. -/
inductive Piece
  | lit (cs : List Char)
  | str (s : CStr)
  | uint (n : Nat)

def Piece.chars : Piece → List Char
  | lit cs => cs
  | str s => s.chars
  | uint n => Nat.toDigits 10 n

/-- `_out_buffer`: what does not fit is dropped. -/
def outBuffer (maxlen : Nat) (character : Char) (buffer : List Char) (idx : Nat) : List Char :=
  if idx < maxlen then buffer.set idx character else buffer

/-- The output loop of `_vsnprintf`, from `idx` on. -/
def outChars (maxlen : Nat) : List Char → List Char → Nat → List Char × Nat
  | [],buffer,idx => (buffer,idx)
  | c :: cs,buffer,idx => outChars maxlen cs (outBuffer maxlen c buffer idx) (idx + 1)

def snprintf (buffer : List Char) (count : Nat) (format : List Piece) : List Char :=
  let (buffer,idx) := outChars count (format.flatMap Piece.chars) buffer 0
  outBuffer count nul buffer (if idx < count then idx else count - 1)

@[simp] theorem outBuffer_length (maxlen : Nat) (c : Char) (buffer : List Char) (idx : Nat) :
    (outBuffer maxlen c buffer idx).length = buffer.length := by
  unfold outBuffer
  split <;> simp

theorem outChars_length (maxlen : Nat) (cs buffer : List Char) (idx : Nat) :
    (outChars maxlen cs buffer idx).1.length = buffer.length := by
  induction cs generalizing buffer idx with
  | nil => rfl
  | cons c cs ih =>
    rw [outChars,ih]
    simp

theorem outChars_idx (maxlen : Nat) (cs buffer : List Char) (idx : Nat) :
    (outChars maxlen cs buffer idx).2 = idx + cs.length := by
  induction cs generalizing buffer idx with
  | nil => rfl
  | cons c cs ih =>
    rw [outChars,ih,List.length_cons]
    omega

/-- The part of the buffer that has been printed to. -/
theorem outChars_take {maxlen : Nat} (cs : List Char) {buffer : List Char} (idx : Nat)
    (h : buffer.length = maxlen) :
    (outChars maxlen cs buffer idx).1.take (idx + cs.length) =
      (buffer.take idx ++ cs).take maxlen := by
  induction cs generalizing buffer idx with
  | nil =>
    simp only [outChars,List.length_nil,Nat.add_zero,List.append_nil,List.take_take]
    by_cases hidx : idx ≤ maxlen
    · rw [min_eq_right hidx]
    · rw [List.take_of_length_le (by omega),List.take_of_length_le (by omega)]
  | cons c cs ih =>
    have hlen : (outBuffer maxlen c buffer idx).length = maxlen := by simp [h]
    have hout : (outBuffer maxlen c buffer idx).take (idx + 1) =
        if idx < maxlen then buffer.take idx ++ [c] else buffer := by
      by_cases hidx : idx < maxlen
      · simp [outBuffer,hidx,List.take_add_one,h,List.take_set_of_le]
      · simp only [outBuffer,hidx,if_false]
        exact List.take_of_length_le (by omega)
    have hsum : idx + (c :: cs).length = idx + 1 + cs.length := by
      rw [List.length_cons]
      omega
    rw [outChars,hsum,ih (idx + 1) hlen,hout]
    by_cases hidx : idx < maxlen
    · simp [hidx]
    · rw [if_neg hidx,List.take_of_length_le (l := buffer) (by omega),← h,List.take_left',
        List.take_left']
      all_goals rfl

private theorem takeWhile_set {buffer cs : List Char} {k : Nat} (hk : k < buffer.length)
    (hcs : buffer.take k = cs) (hnul : nul ∉ cs) :
    (buffer.set k nul).takeWhile (· ≠ nul) = cs := by
  have hkeep : ∀ c ∈ cs,decide (c ≠ nul) = true := by
    intro c hc
    have hne : c ≠ nul := fun he => hnul (he ▸ hc)
    simp [hne]
  rw [List.set_eq_take_append_cons_drop,if_pos hk,hcs,List.takeWhile_append_of_pos hkeep,
    List.takeWhile_cons_of_neg (by simp),List.append_nil]

/-- Read as a string, the buffer holds as much of the text as leaves room for the NUL. -/
theorem snprintf_chars {buffer : List Char} {count : Nat} (h : buffer.length = count)
    (hpos : 0 < count) (format : List Piece) (hnul : nul ∉ format.flatMap Piece.chars) :
    (CStr.ofList (snprintf buffer count format)).chars =
      (format.flatMap Piece.chars).take (count - 1) := by
  generalize hcs : format.flatMap Piece.chars = cs at hnul
  have htake : (outChars count cs buffer 0).1.take cs.length = cs.take count := by
    simpa using outChars_take cs 0 h
  have hidx : (outChars count cs buffer 0).2 = cs.length := by
    simpa using outChars_idx count cs buffer 0
  have hlen : (outChars count cs buffer 0).1.length = count := by
    rw [outChars_length,h]
  simp only [snprintf,hcs,hidx,CStr.ofList]
  generalize hk : (if cs.length < count then cs.length else count - 1) = k
  have hlt : k < count := by
    rw [← hk]
    split <;> omega
  have hle : k ≤ cs.length := by
    rw [← hk]
    split <;> omega
  have hprefix : (outChars count cs buffer 0).1.take k = cs.take (count - 1) := by
    have htwice := congrArg (List.take k) htake
    rw [List.take_take,List.take_take,min_eq_left hle,min_eq_left hlt.le] at htwice
    rw [htwice,← hk]
    split
    · rw [List.take_length,List.take_of_length_le (by omega)]
    · rfl
  rw [outBuffer,if_pos hlt]
  exact takeWhile_set (by omega) hprefix fun hm => hnul (List.mem_of_mem_take hm)

theorem snprintf_length (buffer : List Char) (count : Nat) (format : List Piece) :
    (snprintf buffer count format).length = buffer.length := by
  simp [snprintf,outChars_length]

end UcVfs
