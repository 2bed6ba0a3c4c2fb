import Mathlib.Tactic.Linarith
import Snapwebsites.Lib.Calendar

/-! # Broken down times

`mkgmtime()` and the `gmtime_r()` it undoes. `validate_structure()` brings the fields into their ranges, one
field after the other, and then goes from month to month until the day exists; every one of its steps keeps the
instant of the fields (`Tm.instant`), so that `mkgmtime()` gives it for fields out of range too (`mkgmtime_eq`). -/

namespace Snapwebsites
namespace SnapChild
open Calendar

/-- `struct tm`, less the fields that are not read. -/
structure Tm where
  sec : Int := 0
  min : Int := 0
  hour : Int := 0
  mday : Int := 0
  mon : Int := 0
  year : Int := 0
  wday : Int := 0
  deriving DecidableEq

/-! ### The source -/

namespace Mkgmtime

/-- `_ISLEAP`, of a year counted from 1900. -/
def isLeap (y : Int) : Bool := y.tmod 4 = 0 && (y.tmod 100 ≠ 0 || (y + 1900).tmod 400 = 0)

/-- `_DAYS_IN_YEAR` -/
def daysInYear (y : Int) : Int := if isLeap y then 366 else 365

def daysInFeb (y : Int) : Int := if daysInYear y = 366 then 29 else 28

def daysInMonthTable : List Int := [31, 28, 31, 30, 31, 30, 31, 31, 30, 31, 30, 31]

def daysBeforeMonthTable : List Int := [0, 31, 59, 90, 120, 151, 181, 212, 243, 273, 304, 334]

/-- `_DAYS_IN_MONTH`, which reads the variable `days_in_feb`. -/
def daysInMonth (feb mon : Int) : Int := if mon = 1 then feb else daysInMonthTable.getD mon.toNat 0

/-- A field out of its range: what is added to the next field, and what is left of this one. -/
def carry (base field : Int) : Int × Int :=
  if field < 0 ∨ field > base - 1 then
    if field.tmod base < 0 then (field.tdiv base - 1, field.tmod base + base) else (field.tdiv base, field.tmod base)
  else (0, field)

def carrySec (tm : Tm) : Tm := { tm with min := tm.min + (carry 60 tm.sec).1, sec := (carry 60 tm.sec).2 }

def carryMin (tm : Tm) : Tm := { tm with hour := tm.hour + (carry 60 tm.min).1, min := (carry 60 tm.min).2 }

def carryHour (tm : Tm) : Tm := { tm with mday := tm.mday + (carry 24 tm.hour).1, hour := (carry 24 tm.hour).2 }

/-- Months are only brought down, never up. -/
def carryMon (tm : Tm) : Tm :=
  if tm.mon > 11 then { tm with year := tm.year + (carry 12 tm.mon).1, mon := (carry 12 tm.mon).2 } else tm

/-- `while(tim_p->tm_mday <= 0)`. Every turn adds a month, so there are fewer turns than days to make up for. -/
def mdayUp : Nat → Int → Tm → Tm
  | 0, _, tm => tm
  | turns + 1, feb, tm =>
    if tm.mday ≤ 0 then
      if tm.mon - 1 = -1 then
        mdayUp turns (daysInFeb (tm.year - 1))
          { tm with year := tm.year - 1, mon := 11, mday := tm.mday + daysInMonth (daysInFeb (tm.year - 1)) 11 }
      else mdayUp turns feb { tm with mon := tm.mon - 1, mday := tm.mday + daysInMonth feb (tm.mon - 1) }
    else tm

/-- `while(tim_p->tm_mday > _DAYS_IN_MONTH(tim_p->tm_mon))` -/
def mdayDown : Nat → Int → Tm → Tm
  | 0, _, tm => tm
  | turns + 1, feb, tm =>
    if tm.mday > daysInMonth feb tm.mon then
      if tm.mon + 1 = 12 then
        mdayDown turns (daysInFeb (tm.year + 1)) { tm with year := tm.year + 1, mon := 0, mday := tm.mday - daysInMonth feb tm.mon }
      else mdayDown turns feb { tm with mon := tm.mon + 1, mday := tm.mday - daysInMonth feb tm.mon }
    else tm

def validateDay (tm : Tm) : Tm :=
  if tm.mday ≤ 0 then mdayUp (1 - tm.mday).toNat (daysInFeb tm.year) tm else mdayDown tm.mday.toNat (daysInFeb tm.year) tm

def validateStructure (tm : Tm) : Tm := validateDay (carryMon (carryHour (carryMin (carrySec tm))))

/-- `for(year = 70; year < tim_p->tm_year; year++)` -/
def yearsUp : Nat → Int → Int → Int
  | 0, _, days => days
  | turns + 1, year, days => yearsUp turns (year + 1) (days + daysInYear year)

/-- `for(year = 69; year > tim_p->tm_year; year--)`, and once more for the year the loop stops at. -/
def yearsDown : Nat → Int → Int → Int
  | 0, year, days => days - daysInYear year
  | turns + 1, year, days => yearsDown turns (year - 1) (days - daysInYear year)

/-- The day of the year. -/
def yday (tm : Tm) : Int :=
  tm.mday - 1 + daysBeforeMonthTable.getD tm.mon.toNat 0 + if tm.mon > 1 ∧ daysInYear tm.year = 366 then 1 else 0

def days (tm : Tm) : Int :=
  if tm.year > 70 then yearsUp (tm.year - 70).toNat 70 (yday tm)
  else if tm.year < 70 then yearsDown (69 - tm.year).toNat 69 (yday tm)
  else yday tm

def seconds (tm : Tm) : Int :=
  if tm.year > 10000 ∨ tm.year < -10000 then -1
  else tm.sec + tm.min * 60 + tm.hour * 3600 + days tm * 86400

end Mkgmtime

def mkgmtime (tm : Tm) : Int := Mkgmtime.seconds (Mkgmtime.validateStructure tm)

/-- The days before 1970. -/
def epoch : Int := 719162

/-- `gmtime_r()`: the fields of an instant, in UTC. -/
def gmtimeR (seconds : Int) : Tm where
  sec := seconds % 60
  min := seconds % 3600 / 60
  hour := seconds % 86400 / 3600
  mday := (ofNumber (seconds / 86400 + epoch)).day
  mon := (ofNumber (seconds / 86400 + epoch)).month
  year := (ofNumber (seconds / 86400 + epoch)).year - 1900
  wday := (seconds / 86400 + 4) % 7

/-- The instant the fields stand for, whatever their ranges, except for the month. -/
def Tm.instant (tm : Tm) : Int :=
  86400 * (dayNumber (tm.year + 1900) tm.mon.toNat tm.mday - epoch) + 3600 * tm.hour + 60 * tm.min + tm.sec

/-- The month is one of the calendar. -/
def Tm.Month (tm : Tm) : Prop := 0 ≤ tm.mon ∧ tm.mon < 12

namespace Mkgmtime
variable {tm : Tm}

/-! ### The tables -/

theorem isLeap_eq (y : Int) : isLeap y = leap (y + 1900) := by
  rw [Bool.eq_iff_iff, leap_iff]
  simp only [isLeap, Bool.and_eq_true, Bool.or_eq_true, decide_eq_true_eq, ← Int.dvd_iff_tmod_eq_zero, ne_eq]
  omega

theorem daysInYear_eq (y : Int) : daysInYear y = Calendar.daysInYear (y + 1900) := by
  rw [daysInYear, Calendar.daysInYear, isLeap_eq]

theorem daysInFeb_eq (y : Int) : daysInFeb y = if leap (y + 1900) then 29 else 28 := by
  rw [daysInFeb, daysInYear_eq, Calendar.daysInYear]
  cases leap (y + 1900) <;> rfl

theorem daysInMonth_eq (y : Int) {mon : Int} (h : 0 ≤ mon ∧ mon < 12) :
    daysInMonth (daysInFeb y) mon = Calendar.daysInMonth (y + 1900) mon.toNat := by
  obtain ⟨h₀, h₁⟩ := h
  rw [daysInFeb_eq]
  interval_cases mon <;> rfl

theorem daysBeforeMonth_eq (y : Int) {mon : Int} (h : 0 ≤ mon ∧ mon < 12) :
    daysBeforeMonthTable.getD mon.toNat 0 + (if mon > 1 ∧ daysInYear y = 366 then 1 else 0) =
      daysBeforeMonth (y + 1900) mon.toNat := by
  obtain ⟨h₀, h₁⟩ := h
  rw [daysInYear_eq, Calendar.daysInYear]
  cases hleap : leap (y + 1900) <;> interval_cases mon <;>
    simp [daysBeforeMonthTable, daysBeforeMonth, Calendar.daysInMonth, hleap]

/-! ### The steps keep the instant -/

theorem carry_eq (base field : Int) : (carry base field).1 * base + (carry base field).2 = field := by
  have hdiv := Int.tdiv_mul_add_tmod field base
  unfold carry
  split_ifs
  · dsimp only
    rw [Int.sub_mul]
    omega
  · exact hdiv
  · simp

/-- A carry is not further from zero than the field, less one for a field below zero. -/
theorem carry_bound (base field : Int) : (carry base field).1.natAbs ≤ field.natAbs + 1 := by
  have hdiv : (field.tdiv base).natAbs ≤ field.natAbs := by
    rw [Int.natAbs_tdiv]
    exact Nat.div_le_self _ _
  unfold carry
  split_ifs <;> dsimp only <;> omega

theorem carrySec_instant (tm : Tm) : (carrySec tm).instant = tm.instant := by
  have := carry_eq 60 tm.sec
  unfold carrySec Tm.instant
  dsimp only
  omega

theorem carryMin_instant (tm : Tm) : (carryMin tm).instant = tm.instant := by
  have := carry_eq 60 tm.min
  unfold carryMin Tm.instant
  dsimp only
  omega

theorem carryHour_instant (tm : Tm) : (carryHour tm).instant = tm.instant := by
  have := carry_eq 24 tm.hour
  unfold carryHour Tm.instant
  dsimp only
  rw [dayNumber_add]
  omega

theorem carried_mday (tm : Tm) : (carryHour (carryMin (carrySec tm))).mday.natAbs ≤
    tm.mday.natAbs + tm.hour.natAbs + tm.min.natAbs + tm.sec.natAbs + 3 := by
  have hmin := (carry_bound 60 _).trans (Nat.succ_le_succ (Int.natAbs_add_le tm.min (carry 60 tm.sec).1))
  have hhour := (carry_bound 24 _).trans (Nat.succ_le_succ (Int.natAbs_add_le tm.hour (carry 60 (tm.min + (carry 60 tm.sec).1)).1))
  have hday := Int.natAbs_add_le tm.mday (carry 24 (tm.hour + (carry 60 (tm.min + (carry 60 tm.sec).1)).1)).1
  have hmday : (carryHour (carryMin (carrySec tm))).mday =
      tm.mday + (carry 24 (tm.hour + (carry 60 (tm.min + (carry 60 tm.sec).1)).1)).1 := rfl
  rw [hmday]
  linarith only [hday, hhour, hmin, carry_bound 60 tm.sec]

theorem carryMon_eq_self (h : tm.Month) : carryMon tm = tm := if_neg (by have := h.2; omega)

/-- What a loop over the months keeps; it changes the year by its number of turns at most. -/
structure Kept (tm tm' : Tm) (turns : Nat) : Prop where
  instant : tm'.instant = tm.instant
  month : tm'.Month
  year : (tm'.year - tm.year).natAbs ≤ turns

theorem Kept.refl (h : tm.Month) (turns : Nat) : Kept tm tm turns := ⟨rfl, h, by simp⟩

theorem Kept.step {tm₁ tm₂ : Tm} {turns : Nat} (h : Kept tm₁ tm₂ turns) (hi : tm₁.instant = tm.instant)
    (hy : (tm₁.year - tm.year).natAbs ≤ 1) : Kept tm tm₂ (turns + 1) where
  instant := h.instant.trans hi
  month := h.month
  year := by
    have := h.year
    omega

theorem mdayUp_kept (turns : Nat) (h : tm.Month) : Kept tm (mdayUp turns (daysInFeb tm.year) tm) turns := by
  induction turns generalizing tm with
  | zero => exact .refl h 0
  | succ turns ih =>
    obtain ⟨h₀, h₁⟩ := h
    unfold mdayUp
    split_ifs with hday hmon
    · -- January of one year is the thirteenth month of the year before
      have hmonth : Tm.Month { tm with year := tm.year - 1, mon := 11, mday := tm.mday + daysInMonth (daysInFeb (tm.year - 1)) 11 } :=
        ⟨by dsimp only; decide, by dsimp only; decide⟩
      refine (ih hmonth).step ?_ (by dsimp only; omega)
      have hzero : tm.mon = 0 := by omega
      unfold Tm.instant
      dsimp only
      rw [daysInMonth_eq _ (by decide), hzero, show tm.year + 1900 = tm.year - 1 + 1900 + 1 by omega]
      rw [show (0 : Int).toNat = 0 from rfl, dayNumber_year, dayNumber_month]
      rfl
    · have hmonth : Tm.Month { tm with mon := tm.mon - 1, mday := tm.mday + daysInMonth (daysInFeb tm.year) (tm.mon - 1) } :=
        ⟨by dsimp only; omega, by dsimp only; omega⟩
      refine (ih hmonth).step ?_ (by dsimp only; omega)
      unfold Tm.instant
      dsimp only
      rw [daysInMonth_eq _ (by omega), ← dayNumber_month, show (tm.mon - 1).toNat + 1 = tm.mon.toNat by omega]
    · exact .refl ⟨h₀, h₁⟩ _

theorem mdayDown_kept (turns : Nat) (h : tm.Month) : Kept tm (mdayDown turns (daysInFeb tm.year) tm) turns := by
  induction turns generalizing tm with
  | zero => exact .refl h 0
  | succ turns ih =>
    obtain ⟨h₀, h₁⟩ := h
    unfold mdayDown
    split_ifs with hday hmon
    · have hmonth : Tm.Month { tm with year := tm.year + 1, mon := 0, mday := tm.mday - daysInMonth (daysInFeb tm.year) tm.mon } :=
        ⟨by dsimp only; decide, by dsimp only; decide⟩
      refine (ih hmonth).step ?_ (by dsimp only; omega)
      have heleven : tm.mon = 11 := by omega
      unfold Tm.instant
      dsimp only
      rw [daysInMonth_eq _ ⟨h₀, h₁⟩, heleven, show tm.year + 1 + 1900 = tm.year + 1900 + 1 by omega]
      rw [show (0 : Int).toNat = 0 from rfl, dayNumber_year, show (11 : Int).toNat = 11 from rfl, dayNumber_month, Int.sub_add_cancel]
    · have hmonth : Tm.Month { tm with mon := tm.mon + 1, mday := tm.mday - daysInMonth (daysInFeb tm.year) tm.mon } :=
        ⟨by dsimp only; omega, by dsimp only; omega⟩
      refine (ih hmonth).step ?_ (by dsimp only; omega)
      unfold Tm.instant
      dsimp only
      rw [daysInMonth_eq _ ⟨h₀, h₁⟩, show (tm.mon + 1).toNat = tm.mon.toNat + 1 by omega, dayNumber_month, Int.sub_add_cancel]
    · exact .refl ⟨h₀, h₁⟩ _

theorem validateDay_kept (h : tm.Month) : Kept tm (validateDay tm) (tm.mday.natAbs + 1) := by
  have hup := mdayUp_kept (1 - tm.mday).toNat h
  have hdown := mdayDown_kept tm.mday.toNat h
  unfold validateDay
  split_ifs with hday
  · exact ⟨hup.instant, hup.month, le_trans hup.year (by omega)⟩
  · exact ⟨hdown.instant, hdown.month, le_trans hdown.year (by omega)⟩

/-! ### The days of the years -/

theorem yearsUp_eq (turns : Nat) (year days : Int) :
    yearsUp turns year days = days + daysBeforeYear (year + turns + 1900) - daysBeforeYear (year + 1900) := by
  induction turns generalizing year days with
  | zero => simp [yearsUp]
  | succ turns ih =>
    have hyear := daysBeforeYear_succ (year + 1900)
    rw [yearsUp, ih, daysInYear_eq]
    rw [show year + 1 + turns + 1900 = year + (turns + 1 : Nat) + 1900 by push_cast; omega, show year + 1 + 1900 = year + 1900 + 1 by omega]
    omega

theorem yearsDown_eq (turns : Nat) (year days : Int) :
    yearsDown turns year days = days + daysBeforeYear (year - turns + 1900) - daysBeforeYear (year + 1901) := by
  induction turns generalizing year days with
  | zero =>
    have hyear := daysBeforeYear_succ (year + 1900)
    rw [yearsDown, daysInYear_eq, show year + 1901 = year + 1900 + 1 by omega, Nat.cast_zero, Int.sub_zero]
    omega
  | succ turns ih =>
    have hyear := daysBeforeYear_succ (year + 1900)
    rw [yearsDown, ih, daysInYear_eq]
    rw [show year - 1 - turns + 1900 = year - (turns + 1 : Nat) + 1900 by push_cast; omega, show year - 1 + 1901 = year + 1900 by omega,
      show year + 1901 = year + 1900 + 1 by omega]
    omega

theorem days_eq (h : tm.Month) : days tm = dayNumber (tm.year + 1900) tm.mon.toNat tm.mday - epoch := by
  have hyday : yday tm = daysBeforeMonth (tm.year + 1900) tm.mon.toNat + tm.mday - 1 := by
    have := daysBeforeMonth_eq tm.year h
    unfold yday
    omega
  have hepoch : daysBeforeYear 1970 = epoch := by decide
  unfold days dayNumber
  split_ifs with hgt hlt
  · rw [yearsUp_eq, hyday, show 70 + ((tm.year - 70).toNat : Int) + 1900 = tm.year + 1900 by omega, show (70 + 1900 : Int) = 1970 from rfl]
    omega
  · rw [yearsDown_eq, hyday, show 69 - ((69 - tm.year).toNat : Int) + 1900 = tm.year + 1900 by omega, show (69 + 1901 : Int) = 1970 from rfl]
    omega
  · rw [hyday, show tm.year + 1900 = 1970 by omega]
    omega

theorem seconds_eq (h : tm.Month) (hy : tm.year.natAbs ≤ 10000) : seconds tm = tm.instant := by
  unfold seconds Tm.instant
  rw [if_neg (by omega), days_eq h]
  omega

end Mkgmtime

section
variable {tm : Tm}
open Mkgmtime

/-- Out of range fields are brought into range: the result is the instant of the fields, as long as the year is one `mkgmtime()` takes. -/
theorem mkgmtime_eq (h : tm.Month)
    (hy : tm.year.natAbs + tm.mday.natAbs + tm.hour.natAbs + tm.min.natAbs + tm.sec.natAbs ≤ 9000) : mkgmtime tm = tm.instant := by
  have hcarried : (carryHour (carryMin (carrySec tm))).Month := h
  have hkept := validateDay_kept hcarried
  have hyear : (validateDay (carryHour (carryMin (carrySec tm)))).year.natAbs ≤ 10000 := by
    have hsame : (carryHour (carryMin (carrySec tm))).year = tm.year := rfl
    have hchange := Int.natAbs_add_le ((validateDay (carryHour (carryMin (carrySec tm)))).year - tm.year) tm.year
    have hturns := hkept.year
    rw [Int.sub_add_cancel] at hchange
    rw [hsame] at hturns
    linarith only [hturns, hchange, carried_mday tm, hy]
  rw [mkgmtime, validateStructure, carryMon_eq_self hcarried, seconds_eq hkept.month hyear]
  rw [hkept.instant, carryHour_instant, carryMin_instant, carrySec_instant]

end

/-! ### `gmtime_r()` -/

theorem gmtimeR_month (t : Int) : (gmtimeR t).Month := by
  have := (ofNumber (t / 86400 + epoch)).month_lt
  unfold gmtimeR Tm.Month
  dsimp only
  omega

/-- What the fields of a date in UTC are within. -/
structure Tm.Utc (tm : Tm) : Prop where
  sec : 0 ≤ tm.sec ∧ tm.sec < 60
  min : 0 ≤ tm.min ∧ tm.min < 60
  hour : 0 ≤ tm.hour ∧ tm.hour < 24
  mday : 1 ≤ tm.mday ∧ tm.mday ≤ daysInMonth (tm.year + 1900) tm.mon.toNat
  mon : tm.Month
  wday : 0 ≤ tm.wday ∧ tm.wday < 7

theorem Tm.Utc.mday_le {tm : Tm} (h : tm.Utc) : tm.mday ≤ 31 := by
  refine h.mday.2.trans ?_
  unfold daysInMonth
  split_ifs <;> decide

theorem utc_gmtimeR (t : Int) : (gmtimeR t).Utc := by
  have hday := (ofNumber (t / 86400 + epoch)).day_pos
  have hday' := (ofNumber (t / 86400 + epoch)).day_le
  refine ⟨?_, ?_, ?_, ?_, gmtimeR_month t, ?_⟩ <;> dsimp only [gmtimeR]
  · omega
  · omega
  · omega
  · rw [Int.sub_add_cancel, Int.toNat_natCast]
    exact ⟨hday, hday'⟩
  · omega

/-- The years from 1970 to the one before `year`. -/
theorem year_gmtimeR {t year : Int} (h₀ : 0 ≤ t) (h : t < 86400 * (daysBeforeYear year - epoch)) :
    70 ≤ (gmtimeR t).year ∧ (gmtimeR t).year + 1900 < year := by
  have hnumber := number_ofNumber (t / 86400 + epoch)
  have h1970 : daysBeforeYear 1970 = epoch := by decide
  have hyear := Date.year_mem (d := ofNumber (t / 86400 + epoch)) (y := 1970) (z := year) (by omega) (by omega)
  dsimp only [gmtimeR]
  omega

theorem gmtimeR_instant (t : Int) : (gmtimeR t).instant = t := by
  have hnumber : dayNumber (ofNumber (t / 86400 + epoch)).year (ofNumber (t / 86400 + epoch)).month (ofNumber (t / 86400 + epoch)).day =
      t / 86400 + epoch := number_ofNumber _
  unfold gmtimeR Tm.instant
  dsimp only
  rw [Int.sub_add_cancel, Int.toNat_natCast, hnumber]
  omega

end SnapChild
end Snapwebsites
