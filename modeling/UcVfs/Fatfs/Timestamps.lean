import UcVfs.Fatfs.Adapter

/-!
# FAT timestamps

A FAT date and time packs a local date from 1980 on into two 16-bit numbers. What
`_fatfs_time_to_timespec` makes of it is compared with the seconds that a calendar counts.
-/

namespace UcVfs.Fatfs

/-! ### The calendar -/

def isLeap (year : ℕ) : Bool := year % 4 = 0 ∧ (year % 100 ≠ 0 ∨ year % 400 = 0)

def yearDays (year : ℕ) : ℕ := if isLeap year then 366 else 365

def monthDays (year : ℕ) : ℕ → ℕ
  | 2 => if isLeap year then 29 else 28
  | 4 | 6 | 9 | 11 => 30
  | _ => 31

/-- The days of the years from 1970 on, before the `n`-th of them. -/
def daysOfYears : ℕ → ℕ
  | 0 => 0
  | n + 1 => daysOfYears n + yearDays (1970 + n)

/-- The days of the first months of a year. -/
def daysOfMonths (year : ℕ) : ℕ → ℕ
  | 0 => 0
  | n + 1 => daysOfMonths year n + monthDays year (n + 1)

/-- A local date and time. -/
structure Stamp where
  year : ℕ
  month : ℕ
  day : ℕ
  hour : ℕ
  minute : ℕ
  second : ℕ
  deriving DecidableEq

namespace Stamp

def Valid (t : Stamp) : Prop :=
  1980 ≤ t.year ∧ t.year ≤ 2107 ∧ 1 ≤ t.month ∧ t.month ≤ 12 ∧ 1 ≤ t.day ∧
    t.day ≤ monthDays t.year t.month ∧ t.hour < 24 ∧ t.minute < 60 ∧ t.second < 60

instance (t : Stamp) : Decidable t.Valid := inferInstanceAs (Decidable (_ ∧ _))

def days (t : Stamp) : ℕ :=
  daysOfYears (t.year - 1970) + daysOfMonths t.year (t.month - 1) + (t.day - 1)

/-- Seconds from 1970-01-01 00:00:00. -/
def seconds (t : Stamp) : ℕ := ((t.days * 24 + t.hour) * 60 + t.minute) * 60 + t.second

end Stamp

/-- The date and time that two numbers encode. -/
def stampOf (fdate ftime : UInt16) : Stamp where
  year := 1980 + fdate.toNat / 512
  month := fdate.toNat / 32 % 16
  day := fdate.toNat % 32
  hour := ftime.toNat / 2048
  minute := ftime.toNat / 32 % 64
  second := ftime.toNat % 32 * 2

/-- The index into `days_for_month`. -/
def monthIndex (fdate : ℕ) : Int := (fdate >>> 5 &&& 0x0F : Nat) - 1

/-- The days that the function counts, with the entry of the table. -/
def daysCounted (fdate : ℕ) (days : Int) : Int :=
  let year : Int := (fdate >>> 9 &&& 0x7F : Nat) + FATFS_YEAR_OFFSET - EPOCH_YEAR_OFFSET
  let leapYears : Int := (year - 1 - EPOCH_YEAR_OFFSET - 2).tdiv 4 - (year - 1 - 1900).tdiv 100 +
    (year - 1 - 1600).tdiv 400
  let daysSinceEpoch := (year - EPOCH_YEAR_OFFSET) * 365 + days + leapYears +
    ((fdate &&& 0x1F : Nat) - 1)
  if monthIndex fdate > 2 ∧ year.tmod 4 = 0 ∧ (year.tmod 100 ≠ 0 ∨ year.tmod 400 = 0) then
    daysSinceEpoch + 1
  else
    daysSinceEpoch

/-- The seconds that it counts, as an exact number. -/
def secondsCounted (days : Int) (ftime : ℕ) : Int :=
  ((days * 24 + (ftime >>> 11 &&& 0x1F : Nat)) * 60 + (ftime >>> 5 &&& 0x3F : Nat)) * 60 +
    (ftime &&& 0x1F : Nat) * 2

theorem timeToTimespec_none {fdate ftime : ℕ}
    (h : daysForMonth[(monthIndex fdate).toNat]? = none ∨ monthIndex fdate < 0) :
    timeToTimespec fdate ftime = none := by
  unfold monthIndex at h
  by_cases hneg : ((fdate >>> 5 &&& 0x0F : Nat) - 1 : Int) < 0
  · exact if_pos hneg
  · simp only [timeToTimespec,if_neg hneg,h.resolve_right hneg]

theorem timeToTimespec_some {fdate ftime : ℕ} {days : Int} (hneg : ¬monthIndex fdate < 0)
    (hdays : daysForMonth[(monthIndex fdate).toNat]? = some days)
    (hover : ¬fitsInt (secondsCounted (daysCounted fdate days) ftime)) :
    timeToTimespec fdate ftime = none := by
  unfold monthIndex at hneg hdays
  simp only [timeToTimespec,if_neg hneg,hdays]
  exact if_neg fun h => hover (Bool.and_eq_true_iff.mp h).2

/-! ### How far the counts are apart -/

theorem tdiv_bounds {a k : Int} (ha : a ≤ 0) (hk : 0 < k) : a ≤ a.tdiv k ∧ a.tdiv k ≤ 0 := by
  obtain ⟨b,rfl⟩ : ∃ b,a = -b := ⟨-a,(Int.neg_neg a).symm⟩
  have hb : 0 ≤ b := by omega
  rw [Int.neg_tdiv,Int.tdiv_eq_ediv_of_nonneg hb]
  have hle := Int.ediv_le_self k hb
  have hnonneg := Int.ediv_nonneg hb hk.le
  omega

theorem daysForMonth_bounds {i : ℕ} {days : Int} (h : daysForMonth[i]? = some days) :
    0 ≤ days ∧ days ≤ 334 := by
  have hall : ∀ d ∈ daysForMonth,0 ≤ d ∧ d ≤ 334 := by decide
  exact hall days (List.mem_of_getElem? h)

/-- The years are counted from 1970 twice, so the count is far below zero. -/
theorem daysCounted_bounds (fdate : ℕ) {days : Int} (hdays : 0 ≤ days ∧ days ≤ 334) :
    -720000 ≤ daysCounted fdate days ∧ daysCounted fdate days ≤ -660000 := by
  have hyear : fdate >>> 9 &&& 0x7F ≤ 0x7F := Nat.and_le_right
  have hday : fdate &&& 0x1F ≤ 0x1F := Nat.and_le_right
  have hoff : FATFS_YEAR_OFFSET = 1980 ∧ EPOCH_YEAR_OFFSET = 1970 := ⟨rfl,rfl⟩
  obtain ⟨year,hyearEq⟩ : ∃ year : Int,
      year = (fdate >>> 9 &&& 0x7F : ℕ) + FATFS_YEAR_OFFSET - EPOCH_YEAR_OFFSET := ⟨_,rfl⟩
  have h4 := tdiv_bounds (a := year - 1 - EPOCH_YEAR_OFFSET - 2) (k := 4) (by omega) (by decide)
  have h100 := tdiv_bounds (a := year - 1 - 1900) (k := 100) (by omega) (by decide)
  have h400 := tdiv_bounds (a := year - 1 - 1600) (k := 400) (by omega) (by decide)
  simp only [daysCounted,← hyearEq]
  split <;> omega

theorem secondsCounted_overflows {days : Int} (h : days ≤ -660000) (ftime : ℕ) :
    ¬fitsInt (secondsCounted days ftime) := by
  have hhour : ftime >>> 11 &&& 0x1F ≤ 0x1F := Nat.and_le_right
  have hminute : ftime >>> 5 &&& 0x3F ≤ 0x3F := Nat.and_le_right
  have hsecond : ftime &&& 0x1F ≤ 0x1F := Nat.and_le_right
  intro hfits
  have hlow : -2 ^ 31 ≤ secondsCounted days ftime :=
    of_decide_eq_true (Bool.and_eq_true _ _ ▸ hfits).1
  simp only [secondsCounted] at hlow
  omega

/-- No date gets a result. -/
theorem timeToTimespec_eq_none (fdate ftime : ℕ) : timeToTimespec fdate ftime = none := by
  by_cases hneg : monthIndex fdate < 0
  · exact timeToTimespec_none (Or.inr hneg)
  · cases hdays : daysForMonth[(monthIndex fdate).toNat]? with
    | none => exact timeToTimespec_none (Or.inl hdays)
    | some days =>
      have hbounds := daysCounted_bounds fdate (daysForMonth_bounds hdays)
      exact timeToTimespec_some hneg hdays (secondsCounted_overflows hbounds.2 ftime)

theorem daysOfYears_bounds (n : ℕ) : 365 * n ≤ daysOfYears n ∧ daysOfYears n ≤ 366 * n := by
  induction n with
  | zero => decide
  | succ n ih =>
    have hyear : 365 ≤ yearDays (1970 + n) ∧ yearDays (1970 + n) ≤ 366 := by
      unfold yearDays
      split <;> omega
    rw [daysOfYears]
    omega

theorem monthDays_le (year month : ℕ) : monthDays year month ≤ 31 := by
  unfold monthDays
  split <;> first | omega | (split <;> omega)

theorem daysOfMonths_le (year n : ℕ) : daysOfMonths year n ≤ 31 * n := by
  induction n with
  | zero => exact Nat.le_refl 0
  | succ n ih =>
    have hmonth := monthDays_le year (n + 1)
    rw [daysOfMonths]
    omega

theorem Stamp.days_bounds {t : Stamp} (h : t.Valid) : t.days ≤ 51000 := by
  obtain ⟨hlow,hhigh,_,hmonth,_,hday,_⟩ := h
  have hyears := (daysOfYears_bounds (t.year - 1970)).2
  have hmonths := daysOfMonths_le t.year (t.month - 1)
  have hmax := monthDays_le t.year t.month
  unfold days
  omega

/-! ### The fields of a stamp -/

theorem monthIndex_eq (fdate ftime : UInt16) :
    monthIndex fdate.toNat = ((stampOf fdate ftime).month : ℕ) - 1 := by
  have hmask := Nat.and_two_pow_sub_one_eq_mod (fdate.toNat >>> 5) 4
  rw [Nat.shiftRight_eq_div_pow] at hmask
  show ((fdate.toNat >>> 5 &&& 15 : ℕ) : Int) - 1 = _
  rw [Nat.shiftRight_eq_div_pow]
  exact congrArg (fun n : ℕ => (n : Int) - 1) hmask

theorem secondsCounted_eq (days : Int) (fdate ftime : UInt16) :
    secondsCounted days ftime.toNat =
      ((days * 24 + (stampOf fdate ftime).hour) * 60 + (stampOf fdate ftime).minute) * 60 +
        (stampOf fdate ftime).second := by
  have hlt := ftime.toNat_lt
  have hhour : ftime.toNat >>> 11 &&& 0x1F = (stampOf fdate ftime).hour := by
    have hmask := Nat.and_two_pow_sub_one_eq_mod (ftime.toNat >>> 11) 5
    rw [Nat.shiftRight_eq_div_pow] at hmask ⊢
    refine hmask.trans ?_
    show ftime.toNat / 2048 % 32 = ftime.toNat / 2048
    omega
  have hminute : ftime.toNat >>> 5 &&& 0x3F = (stampOf fdate ftime).minute := by
    have hmask := Nat.and_two_pow_sub_one_eq_mod (ftime.toNat >>> 5) 6
    rw [Nat.shiftRight_eq_div_pow] at hmask ⊢
    exact hmask
  have hsecond : (ftime.toNat &&& 0x1F) * 2 = (stampOf fdate ftime).second :=
    congrArg (· * 2) (Nat.and_two_pow_sub_one_eq_mod ftime.toNat 5)
  rw [secondsCounted,hhour,hminute,← hsecond,Int.natCast_mul]
  rfl

/-- The month is an index of the table, and a valid date and time becomes its seconds. -/
def Converts (fdate ftime : UInt16) : Prop :=
  (0 ≤ monthIndex fdate.toNat ∧ monthIndex fdate.toNat < 12) ∧
    ((stampOf fdate ftime).Valid →
      timeToTimespec fdate.toNat ftime.toNat = some ((stampOf fdate ftime).seconds : Int))

/-- Nothing valid is converted: the sum overflows, and not even what is left of it in 32 bits is
right. -/
theorem timestamps (fdate ftime : UInt16) :
    (Converts fdate ftime ↔ (1 ≤ (stampOf fdate ftime).month ∧ (stampOf fdate ftime).month ≤ 12) ∧
      ¬(stampOf fdate ftime).Valid) ∧
    ∀ days,(stampOf fdate ftime).Valid → daysForMonth[(monthIndex fdate.toNat).toNat]? = some days →
      (secondsCounted (daysCounted fdate.toNat days) ftime.toNat).bmod (2 ^ 32) ≠
        ((stampOf fdate ftime).seconds : Int).bmod (2 ^ 32) := by
  have hindex := monthIndex_eq fdate ftime
  constructor
  · constructor
    · rintro ⟨hmonth,hconv⟩
      refine ⟨by omega,?_⟩
      intro hvalid
      have hsome := hconv hvalid
      rw [timeToTimespec_eq_none] at hsome
      cases hsome
    · rintro ⟨hmonth,hinvalid⟩
      exact ⟨by omega,fun hvalid => absurd hvalid hinvalid⟩
  · intro days hvalid hdays heq
    have hcount := daysCounted_bounds fdate.toNat (daysForMonth_bounds hdays)
    have htrue := Stamp.days_bounds hvalid
    have hdvd := Int.dvd_of_bmod_eq_zero (Int.bmod_eq_bmod_iff_bmod_sub_eq_zero.mp heq)
    rw [secondsCounted_eq _ fdate ftime] at hdvd
    simp only [Stamp.seconds,Int.natCast_add,Int.natCast_mul] at hdvd
    omega

theorem timestamps_newYear :
    (Converts 22561 0 ↔ (1 ≤ (stampOf 22561 0).month ∧ (stampOf 22561 0).month ≤ 12) ∧
      ¬(stampOf 22561 0).Valid) ∧
    (secondsCounted (daysCounted 22561 0) 0).bmod (2 ^ 32) ≠
      ((stampOf 22561 0).seconds : Int).bmod (2 ^ 32) :=
  ⟨(timestamps 22561 0).1,(timestamps 22561 0).2 0 (by decide) (by decide)⟩

/-- 2024-01-01 00:00:00. -/
theorem newYear_overflows :
    stampOf 22561 0 = ⟨2024,1,1,0,0,0⟩ ∧ (stampOf 22561 0).Valid ∧
      (stampOf 22561 0).seconds = 1704067200 ∧ timeToTimespec 22561 0 = none := by
  decide

end UcVfs.Fatfs
