import Mathlib.Tactic.Common
import Mathlib.Tactic.IntervalCases

/-! # The Gregorian calendar

Years of 365 or 366 days and their twelve months, without end in both directions; months are counted from zero.
`dayNumber` numbers the days, also for a day of the month out of range, which is then a day of another month
(`dayNumber_month`, `dayNumber_year`). A `Date` is a day that exists, and `ofNumber` finds the one of a number
(`number_ofNumber`). -/

namespace Calendar

def leap (y : Int) : Bool := y % 4 = 0 && (y % 100 ≠ 0 || y % 400 = 0)

def daysInYear (y : Int) : Int := if leap y then 366 else 365

def daysInMonth (y : Int) (m : Nat) : Int :=
  if m = 1 then if leap y then 29 else 28
  else if m = 3 ∨ m = 5 ∨ m = 8 ∨ m = 10 then 30 else 31

/-- The days from the beginning of year 1. -/
def daysBeforeYear (y : Int) : Int := 365 * (y - 1) + (y - 1) / 4 - (y - 1) / 100 + (y - 1) / 400

def daysBeforeMonth (y : Int) : Nat → Int
  | 0 => 0
  | m + 1 => daysBeforeMonth y m + daysInMonth y m

def dayNumber (y : Int) (m : Nat) (d : Int) : Int := daysBeforeYear y + daysBeforeMonth y m + d - 1

/-! ### Years and months -/

theorem leap_iff {y : Int} : leap y = true ↔ y % 4 = 0 ∧ (y % 100 ≠ 0 ∨ y % 400 = 0) := by
  simp [leap]

theorem daysInMonth_ge (y : Int) (m : Nat) : 28 ≤ daysInMonth y m := by
  unfold daysInMonth
  split_ifs <;> decide

theorem daysBeforeYear_succ (y : Int) : daysBeforeYear (y + 1) = daysBeforeYear y + daysInYear y := by
  unfold daysBeforeYear daysInYear
  split_ifs with h
  · rw [leap_iff] at h
    omega
  · rw [leap_iff] at h
    omega

/-- The calendar comes back after 400 years. -/
theorem daysBeforeYear_add (y : Int) : daysBeforeYear (y + 400) = daysBeforeYear y + 146097 := by
  unfold daysBeforeYear
  omega

theorem daysBeforeYear_le {y z : Int} (h : y ≤ z) : daysBeforeYear y ≤ daysBeforeYear z := by
  unfold daysBeforeYear
  omega

theorem daysBeforeMonth_succ (y : Int) (m : Nat) : daysBeforeMonth y (m + 1) = daysBeforeMonth y m + daysInMonth y m := rfl

theorem daysBeforeMonth_twelve (y : Int) : daysBeforeMonth y 12 = daysInYear y := by
  cases h : leap y <;> simp [daysBeforeMonth, daysInMonth, daysInYear, h]

theorem daysBeforeMonth_le (y : Int) {m n : Nat} (h : m ≤ n) : daysBeforeMonth y m ≤ daysBeforeMonth y n := by
  induction h with
  | refl => exact le_rfl
  | @step n _ ih =>
    have := daysInMonth_ge y n
    rw [Nat.succ_eq_add_one, daysBeforeMonth_succ]
    omega

theorem dayNumber_month (y : Int) (m : Nat) (d : Int) : dayNumber y (m + 1) d = dayNumber y m (d + daysInMonth y m) := by
  unfold dayNumber
  rw [daysBeforeMonth_succ]
  omega

theorem dayNumber_year (y d : Int) : dayNumber (y + 1) 0 d = dayNumber y 12 d := by
  unfold dayNumber
  rw [daysBeforeYear_succ, daysBeforeMonth_twelve, daysBeforeMonth]
  omega

theorem dayNumber_add (y : Int) (m : Nat) (d e : Int) : dayNumber y m (d + e) = dayNumber y m d + e := by
  unfold dayNumber
  omega

/-! ### Counting off -/

/-- Blocks of the sizes given are taken off a number, from block `i` on: the block that is too large, and what is left for it. -/
def countOff (size : Nat → Int) : Nat → Nat → Int → Nat × Int
  | 0, i, n => (i, n)
  | fuel + 1, i, n => if n < size i then (i, n) else countOff size fuel (i + 1) (n - size i)

/-- With a closed form for the sizes taken so far, and a number within `fuel` blocks. -/
theorem countOff_spec (size before : Nat → Int) (hbefore : ∀ i, before (i + 1) = before i + size i) (fuel i : Nat) {n : Int}
    (h₀ : 0 ≤ n) (hn : before i + n < before (i + fuel)) :
    before (countOff size fuel i n).1 + (countOff size fuel i n).2 = before i + n ∧ 0 ≤ (countOff size fuel i n).2 ∧
      (countOff size fuel i n).2 < size (countOff size fuel i n).1 ∧ (countOff size fuel i n).1 < i + fuel := by
  induction fuel generalizing i n with
  | zero =>
    rw [Nat.add_zero] at hn
    omega
  | succ fuel ih =>
    unfold countOff
    split_ifs with hlt
    · exact ⟨rfl, h₀, hlt, by omega⟩
    · have hi := hbefore i
      have hnext := ih (i + 1) (n := n - size i) (by omega) (by rw [hi, show i + 1 + fuel = i + (fuel + 1) by omega]; omega)
      refine ⟨?_, hnext.2.1, hnext.2.2.1, by omega⟩
      rw [hnext.1]
      omega

/-! ### Dates -/

structure Date where
  year : Int
  month : Nat
  day : Int
  month_lt : month < 12
  day_pos : 0 < day
  day_le : day ≤ daysInMonth year month

def Date.number (d : Date) : Int := dayNumber d.year d.month d.day

theorem Date.number_lt (d : Date) : d.number < daysBeforeYear (d.year + 1) := by
  have hmonth := daysBeforeMonth_le d.year (m := d.month + 1) d.month_lt
  have hday := d.day_le
  rw [daysBeforeMonth_twelve, daysBeforeMonth] at hmonth
  rw [daysBeforeYear_succ, number, dayNumber]
  omega

theorem Date.le_number (d : Date) : daysBeforeYear d.year ≤ d.number := by
  have hmonth := daysBeforeMonth_le d.year (Nat.zero_le d.month)
  have hday := d.day_pos
  rw [daysBeforeMonth] at hmonth
  rw [number, dayNumber]
  omega

/-- The year is known from the number. -/
theorem Date.year_mem {d : Date} {y z : Int} (hy : daysBeforeYear y ≤ d.number) (hz : d.number < daysBeforeYear z) :
    y ≤ d.year ∧ d.year < z := by
  constructor
  · by_contra hlt
    have := daysBeforeYear_le (y := d.year + 1) (z := y) (by omega)
    have := d.number_lt
    omega
  · by_contra hle
    have := daysBeforeYear_le (y := z) (z := d.year) (by omega)
    have := d.le_number
    omega

section
variable (n : Int)

/-- The year of a day: 400 years from the one that begins the cycle. -/
def yearOf : Nat × Int := countOff (fun i => daysInYear (400 * (n / 146097) + 1 + i)) 400 0 (n % 146097)

def monthOf (y yday : Int) : Nat × Int := countOff (daysInMonth y) 12 0 yday

theorem yearOf_spec : daysBeforeYear (400 * (n / 146097) + 1 + (yearOf n).1) + (yearOf n).2 = n ∧ 0 ≤ (yearOf n).2 ∧
    (yearOf n).2 < daysInYear (400 * (n / 146097) + 1 + (yearOf n).1) := by
  have hcycle : daysBeforeYear (400 * (n / 146097) + 1) = 146097 * (n / 146097) := by
    unfold daysBeforeYear
    omega
  have hspec := countOff_spec (fun i => daysInYear (400 * (n / 146097) + 1 + i))
    (fun i => daysBeforeYear (400 * (n / 146097) + 1 + i)) (fun i => by
      have := daysBeforeYear_succ (400 * (n / 146097) + 1 + i)
      rw [← this]
      congr 1
      push_cast
      omega) 400 0 (n := n % 146097) (by omega) (by
      have := daysBeforeYear_add (400 * (n / 146097) + 1)
      simp only [Nat.cast_zero, Int.add_zero, Nat.zero_add, Nat.cast_ofNat]
      omega)
  refine ⟨?_, hspec.2.1, hspec.2.2.1⟩
  have hsum := hspec.1
  simp only [Nat.cast_zero, Int.add_zero] at hsum
  unfold yearOf
  rw [hsum]
  omega

theorem monthOf_spec {y yday : Int} (h₀ : 0 ≤ yday) (h : yday < daysInYear y) :
    daysBeforeMonth y (monthOf y yday).1 + (monthOf y yday).2 = yday ∧ 0 ≤ (monthOf y yday).2 ∧
      (monthOf y yday).2 < daysInMonth y (monthOf y yday).1 ∧ (monthOf y yday).1 < 12 := by
  have hspec := countOff_spec (daysInMonth y) (daysBeforeMonth y) (fun _ => rfl) 12 0 h₀ (by
    rw [Nat.zero_add, daysBeforeMonth_twelve, daysBeforeMonth]
    omega)
  refine ⟨?_, hspec.2.1, hspec.2.2.1, by simpa [monthOf] using hspec.2.2.2⟩
  rw [monthOf, hspec.1, daysBeforeMonth, Int.zero_add]

/-- The date of a day. -/
def ofNumber : Date :=
  let year : Int := 400 * (n / 146097) + 1 + (yearOf n).1
  have hyear := yearOf_spec n
  have hmonth := monthOf_spec hyear.2.1 hyear.2.2
  { year
    month := (monthOf year (yearOf n).2).1
    day := (monthOf year (yearOf n).2).2 + 1
    month_lt := hmonth.2.2.2
    day_pos := Int.lt_add_one_of_le hmonth.2.1
    day_le := Int.add_one_le_of_lt hmonth.2.2.1 }

theorem number_ofNumber : (ofNumber n).number = n := by
  have hyear := yearOf_spec n
  have hmonth := monthOf_spec hyear.2.1 hyear.2.2
  unfold Date.number ofNumber dayNumber
  dsimp only
  omega

end

end Calendar
