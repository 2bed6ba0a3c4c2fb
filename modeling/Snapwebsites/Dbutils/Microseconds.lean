import Snapwebsites.Lib.Double
import Snapwebsites.SnapChild.DateRoundTrip

/-! # Times in microseconds

`microseconds_to_string()` and `string_to_microseconds()`. The seconds are read back with their fraction as a double, which is
multiplied and cut off: of the microseconds of a minute those that `Cut` describes come back one short
(`fromTimestamp_timestamp`). -/

namespace Snapwebsites
namespace Dbutils
open QString SnapChild SnapChild.Parser

/-- `QString::toDouble()`, which gives the double nearest to a decimal number. -/
structure ToDouble where
  toDouble : QString → ℚ
  decimal : ∀ a b : QString, a ≠ [] → b ≠ [] → (∀ c ∈ a, c.isDigit = true) → (∀ c ∈ b, c.isDigit = true) →
    toDouble (a ++ '.' :: b) = Double.round (Nat.ofDigitChars 10 (a ++ b) 0 / 10 ^ b.length)

/-! ### The source -/

/-- `%Y-%m-%d` -/
def dateText (tm : Tm) : QString := number (tm.year + 1900) ++ '-' :: padded 2 (tm.mon + 1) ++ '-' :: padded 2 tm.mday

def microsecondsToString (time : Int) (full : Bool) : QString :=
  let t := gmtimeR (time.tdiv 1000000)
  let text := dateText t ++ ' ' :: clock t ++ '.' :: padded 6 (time.tmod 1000000)
  if full then text ++ " (".toList ++ number time ++ [')'] else text

/-- `QString::toInt()` without `ok`. -/
def toIntOrZero (s : QString) : Int := (toInt s).getD 0

/-- The fields of a date and a time that have three parts each. -/
def fields (date time : QString) : Option Tm :=
  match date.splitOn '-', time.splitOn ':' with
  | [year, mon, mday], [hour, min, sec] => some
    { sec := toIntOrZero sec, min := toIntOrZero min, hour := toIntOrZero hour, mday := toIntOrZero mday, mon := toIntOrZero mon - 1,
      year := toIntOrZero year - 1900 }
  | _, _ => none

/-- `(time_split[2].toDouble() - to.tm_sec) * 1000000.0`, in doubles, as an integer. -/
def microseconds (Q : ToDouble) (time : QString) (sec : Int) : Int :=
  Double.truncate (Double.round (Double.round (Q.toDouble ((time.splitOn ':').getD 2 []) - sec) * 1000000))

/-- The number of a date and a time. -/
def fromTimestamp (Q : ToDouble) (date time : QString) : Option Int :=
  (fields date time).map fun tm => mkgmtime tm * 1000000 + microseconds Q time tm.sec

/-- `string_to_microseconds()`; the -1 of the source is cast to an unsigned integer and back. -/
def stringToMicroseconds (Q : ToDouble) (time : QString) : Int :=
  match time.splitOn ' ' with
  | date :: clock :: _ => (fromTimestamp Q date clock).getD (-1)
  | _ => -1

/-! ### What the double keeps -/

/-- The microseconds of a minute that the double loses: the number is above 1.907 times a power of two, and its 53 bits are cut off
    by more than the multiplication makes up for. -/
def Cut (n : Nat) : Prop :=
  1000000 * 2 ^ n.log2 ≤ n * 2 ^ 19 ∧ 262144 < n * 2 ^ (71 - n.log2) % 1000000 ∧ n * 2 ^ (71 - n.log2) % 1000000 < 500000

instance Cut.decidable (n : Nat) : Decidable (Cut n) := by unfold Cut; infer_instance

/-- The number of microseconds after the division, the multiplication and the conversion. -/
def cutOff (n : Nat) : Int := Double.truncate (Double.round (Double.round (n / 1000000) * 1000000))

section
variable {n e w : Nat}

/-- The 53 bits of the quotient: `w` is the number of bits it is shifted by. -/
theorem round_div (hlow : 1000000 * 2 ^ 52 ≤ n * 2 ^ w) (hhigh : n * 2 ^ w < 1000000 * 2 ^ 53) :
    Double.round (n / 1000000) = Double.roundEven ((n * 2 ^ w : ℕ) / 1000000) / 2 ^ w := by
  have hpow : (0 : ℚ) < 2 ^ w := by positivity
  have hlow' : (1000000 : ℚ) * 2 ^ 52 ≤ n * 2 ^ w := by exact_mod_cast hlow
  have hhigh' : (n : ℚ) * 2 ^ w < 1000000 * 2 ^ 53 := by exact_mod_cast hhigh
  have hexp : (2 : ℚ) ^ (52 - (52 - (w : ℤ))) = 2 ^ w := by
    rw [sub_sub_cancel, zpow_natCast]
  have hunit : (2 : ℚ) ^ (52 - (w : ℤ) - 52) = (2 ^ w)⁻¹ := by
    rw [show 52 - (w : ℤ) - 52 = -(w : ℤ) by ring, zpow_neg, zpow_natCast]
  have hk : (2 : ℚ) ^ (52 - (w : ℤ)) = 2 ^ 52 / 2 ^ w := by
    rw [zpow_sub₀ (by norm_num), zpow_natCast]
    rfl
  have hk' : (2 : ℚ) ^ (52 - (w : ℤ) + 1) = 2 ^ 53 / 2 ^ w := by
    rw [zpow_add_one₀ (by norm_num), hk]
    ring
  have hnumber : (n : ℚ) / 1000000 * 2 ^ w = (n * 2 ^ w : ℕ) / 1000000 := by
    push_cast
    ring
  rw [Double.round_eq (k := 52 - (w : ℤ)), hexp, hunit, ← div_eq_mul_inv, hnumber]
  · rw [hk, div_le_div_iff₀ hpow (by norm_num)]
    linarith
  · rw [hk', div_lt_div_iff₀ (by norm_num) hpow]
    linarith

/-- What the product is: the number, or next to it. -/
theorem quotient_eq (hr : 2 * (n * 2 ^ w % 1000000) ≠ 1000000) :
    (Double.roundEven ((n * 2 ^ w : ℕ) / 1000000) / 2 ^ w * 1000000 : ℚ) =
      if 2 * (n * 2 ^ w % 1000000) < 1000000 then (n : ℚ) - ((n * 2 ^ w % 1000000 : ℕ) : ℚ) / 2 ^ w
      else (n : ℚ) + (1000000 - ((n * 2 ^ w % 1000000 : ℕ) : ℚ)) / 2 ^ w := by
  have hpow : (2 : ℚ) ^ w ≠ 0 := by positivity
  have hround := Double.roundEven_div (n := n * 2 ^ w) (d := 1000000) (by decide) hr
  have hdiv : ((n * 2 ^ w / 1000000 : ℕ) : ℚ) * 1000000 = n * 2 ^ w - (n * 2 ^ w % 1000000 : ℕ) := by
    have : ((n * 2 ^ w / 1000000 : ℕ) : ℚ) * 1000000 + (n * 2 ^ w % 1000000 : ℕ) = ((n * 2 ^ w : ℕ) : ℚ) := by
      exact_mod_cast Nat.div_add_mod' (n * 2 ^ w) 1000000
    push_cast at this ⊢
    linarith
  rw [Nat.cast_ofNat] at hround
  rw [hround]
  split_ifs with hlt
  · rw [Int.cast_natCast, div_mul_eq_mul_div, hdiv]
    field_simp
  · rw [Int.cast_add, Int.cast_one, Int.cast_natCast, div_mul_eq_mul_div, add_mul, hdiv]
    field_simp
    ring

/-- The shift is long enough for the remainder not to be a half. -/
theorem remainder_ne_half (hw : 6 ≤ w) : 2 * (n * 2 ^ w % 1000000) ≠ 1000000 := by
  obtain ⟨v, rfl⟩ : ∃ v, w = v + 6 := ⟨w - 6, by omega⟩
  rw [pow_add, ← mul_assoc]
  omega

section
variable (hlow : 1000000 * 2 ^ 52 ≤ n * 2 ^ w) (hhigh : n * 2 ^ w < 1000000 * 2 ^ 53) (hw : 46 ≤ w) (he : e < 26)
include hlow hhigh hw he

/-- The quotient was rounded up, or is exact. -/
theorem cutOff_of_le (hn : 2 ^ e ≤ n) (hn' : n < 2 ^ (e + 1)) (hr : n * 2 ^ w % 1000000 = 0 ∨ 500000 < n * 2 ^ w % 1000000) :
    cutOff n = n := by
  have hpow : (2 : ℚ) ^ 46 ≤ 2 ^ w := pow_le_pow_right₀ (by norm_num) hw
  have hquotient := quotient_eq (n := n) (w := w) (remainder_ne_half (by omega))
  have hlt := Nat.mod_lt (n * 2 ^ w) (show 0 < 1000000 by decide)
  rw [cutOff, round_div hlow hhigh, hquotient]
  rcases hr with hr | hr
  · rw [hr, if_pos (by decide)]
    exact Double.truncate_round_of_le hn hn' (by omega) (by simp) (by simp)
  · rw [if_neg (by omega)]
    have hlt' : ((n * 2 ^ w % 1000000 : ℕ) : ℚ) ≤ 1000000 := by exact_mod_cast hlt.le
    have hr' : (500000 : ℚ) ≤ ((n * 2 ^ w % 1000000 : ℕ) : ℚ) := by exact_mod_cast hr.le
    refine Double.truncate_round_of_le hn hn' (by omega) ?_ ?_
    · have : (0 : ℚ) ≤ (1000000 - ((n * 2 ^ w % 1000000 : ℕ) : ℚ)) / 2 ^ w := div_nonneg (by linarith) (by positivity)
      linarith
    · have : (1000000 - ((n * 2 ^ w % 1000000 : ℕ) : ℚ)) / 2 ^ w ≤ 1 / 2 := by
        rw [div_le_div_iff₀ (by positivity) (by norm_num)]
        linarith
      linarith

/-- The quotient was rounded down. -/
theorem cutOff_iff_of_lt (hn : 2 ^ e < n) (hn' : n < 2 ^ (e + 1)) (hr : n * 2 ^ w % 1000000 < 500000) :
    cutOff n = n ↔ n * 2 ^ w % 1000000 * 2 ^ (53 - e) ≤ 2 ^ w := by
  have hpow : (2 : ℚ) ^ 46 ≤ 2 ^ w := pow_le_pow_right₀ (by norm_num) hw
  have hquotient := quotient_eq (n := n) (w := w) (remainder_ne_half (by omega))
  have hr' : ((n * 2 ^ w % 1000000 : ℕ) : ℚ) ≤ 500000 := by exact_mod_cast hr.le
  have hdiv : ((n * 2 ^ w % 1000000 : ℕ) : ℚ) / 2 ^ w ≤ 1 := by
    rw [div_le_one₀ (by positivity)]
    linarith
  have hnonneg : (0 : ℚ) ≤ ((n * 2 ^ w % 1000000 : ℕ) : ℚ) / 2 ^ w := by positivity
  rw [cutOff, round_div hlow hhigh, hquotient, if_pos (by omega),
    Double.truncate_round_iff hn hn' (by omega) (by linarith) (by linarith), sub_sub_cancel, div_mul_eq_mul_div,
    div_le_one₀ (by positivity)]
  exact_mod_cast Iff.rfl

end

end

theorem cutOff_two_pow {e : Nat} (he : e < 26) : cutOff (2 ^ e) = (2 ^ e : ℕ) := by
  rcases Nat.eq_zero_or_pos e with rfl | hpos
  · decide +kernel
  have hshift : 2 ^ e * 2 ^ (72 - e) = 2 ^ 72 := by rw [← pow_add, Nat.add_sub_cancel' (by omega)]
  have hquotient := quotient_eq (n := 2 ^ e) (w := 72 - e) (remainder_ne_half (by omega))
  have hunit : (2 : ℚ) ^ (72 - e) = 2 ^ 18 * 2 ^ (54 - e) := by
    rw [← pow_add, show 18 + (54 - e) = 72 - e by omega]
  have hunit' : (0 : ℚ) < 2 ^ (54 - e) := by positivity
  rw [hshift, if_pos (by decide), show 2 ^ 72 % 1000000 = 213696 from rfl] at hquotient
  push_cast at hquotient
  rw [cutOff, round_div (w := 72 - e) (by rw [hshift]; decide) (by rw [hshift]; decide), hshift]
  push_cast
  rw [hquotient]
  have htwo := Double.truncate_round_two_pow (q := 2 ^ e - 213696 / 2 ^ (72 - e)) hpos (by omega)
    (by
      rw [sub_sub_cancel, hunit, div_mul_eq_mul_div, div_le_one₀ (by positivity)]
      linarith)
    (by
      have : (0 : ℚ) < 213696 / 2 ^ (72 - e) := by positivity
      linarith)
  rw [htwo]
  push_cast
  rfl

/-- Of the microseconds of a minute, those that come back. -/
theorem cutOff_eq_iff {n : Nat} (h : n < 2 ^ 26) : cutOff n = n ↔ ¬ Cut n := by
  rcases Nat.eq_zero_or_pos n with rfl | hpos
  · exact ⟨fun _ => by decide, fun _ => by decide +kernel⟩
  have hn : 2 ^ n.log2 ≤ n := Nat.log2_self_le hpos.ne'
  have hn' : n < 2 ^ (n.log2 + 1) := Nat.lt_log2_self
  have he : n.log2 < 26 := (Nat.log2_lt hpos.ne').mpr h
  unfold Cut
  generalize n.log2 = e at hn hn' he ⊢
  by_cases hA : 1000000 * 2 ^ e ≤ n * 2 ^ 19
  · -- the quotient has an exponent of 19 less than the number
    have hsplit : 2 ^ (71 - e) = 2 ^ 19 * 2 ^ (52 - e) := by rw [← pow_add, show 19 + (52 - e) = 71 - e by omega]
    have hsplit' : 2 ^ (71 - e) = 2 ^ 18 * 2 ^ (53 - e) := by rw [← pow_add, show 18 + (53 - e) = 71 - e by omega]
    have hlow : 1000000 * 2 ^ 52 ≤ n * 2 ^ (71 - e) := by
      calc 1000000 * 2 ^ 52 = 1000000 * 2 ^ e * 2 ^ (52 - e) := by rw [mul_assoc, ← pow_add, Nat.add_sub_cancel' (by omega)]
        _ ≤ n * 2 ^ 19 * 2 ^ (52 - e) := Nat.mul_le_mul_right _ hA
        _ = n * 2 ^ (71 - e) := by rw [hsplit, mul_assoc]
    have hhigh : n * 2 ^ (71 - e) < 1000000 * 2 ^ 53 := by
      calc n * 2 ^ (71 - e) < 2 ^ (e + 1) * 2 ^ (71 - e) := Nat.mul_lt_mul_of_pos_right hn' (Nat.two_pow_pos _)
        _ = 2 ^ 72 := by rw [← pow_add, show e + 1 + (71 - e) = 72 by omega]
        _ < 1000000 * 2 ^ 53 := by decide
    have hstrict : 2 ^ e < n := by
      have := Nat.two_pow_pos e
      omega
    have hhalf := remainder_ne_half (n := n) (w := 71 - e) (by omega)
    rcases Nat.lt_or_ge (n * 2 ^ (71 - e) % 1000000) 500000 with hr | hr
    · rw [cutOff_iff_of_lt hlow hhigh (by omega) he hstrict hn' hr, hsplit', Nat.mul_le_mul_right_iff (Nat.two_pow_pos _), ← hsplit']
      omega
    · refine iff_of_true (cutOff_of_le hlow hhigh (by omega) he hn hn' (.inr (by omega))) fun hcut => ?_
      exact absurd hcut.2.2 (not_lt.mpr hr)
  · have hlow : 1000000 * 2 ^ 52 ≤ n * 2 ^ (72 - e) := by
      calc 1000000 * 2 ^ 52 ≤ 2 ^ 72 := by decide
        _ = 2 ^ e * 2 ^ (72 - e) := by rw [← pow_add, Nat.add_sub_cancel' (by omega)]
        _ ≤ n * 2 ^ (72 - e) := Nat.mul_le_mul_right _ hn
    have hsplit : 2 ^ (72 - e) = 2 ^ 19 * 2 ^ (53 - e) := by rw [← pow_add, show 19 + (53 - e) = 72 - e by omega]
    have hhigh : n * 2 ^ (72 - e) < 1000000 * 2 ^ 53 := by
      calc n * 2 ^ (72 - e) = n * 2 ^ 19 * 2 ^ (53 - e) := by rw [hsplit, mul_assoc]
        _ < 1000000 * 2 ^ e * 2 ^ (53 - e) := Nat.mul_lt_mul_of_pos_right (not_le.mp hA) (Nat.two_pow_pos _)
        _ = 1000000 * 2 ^ 53 := by rw [mul_assoc, ← pow_add, Nat.add_sub_cancel' (by omega)]
    refine iff_of_true ?_ fun hcut => hA hcut.1
    have hhalf := remainder_ne_half (n := n) (w := 72 - e) (by omega)
    rcases Nat.lt_or_ge (n * 2 ^ (72 - e) % 1000000) 500000 with hr | hr
    · rcases hn.lt_or_eq with hstrict | rfl
      · rw [cutOff_iff_of_lt hlow hhigh (by omega) he hstrict hn' hr, hsplit]
        exact Nat.mul_le_mul_right _ (by rw [← hsplit]; omega)
      · exact cutOff_two_pow he
    · exact cutOff_of_le hlow hhigh (by omega) he hn hn' (.inr (by omega))

/-! ### Texts that are printed -/

section
variable {q : QString} {tm : Tm} {width n : Nat}

theorem notMem_of_digits {x : Char} (h : ∀ c ∈ q, c.isDigit = true) (hx : x.isDigit = false) : x ∉ q := fun hmem =>
  Bool.false_ne_true (hx.symm.trans (h x hmem))

theorem toIntOrZero_padded (h : IsPadded width n q) (hwidth : 0 < width) (hn : n < 2 ^ 31) : toIntOrZero q = n := by
  have hlong := toLongLong_digits h.digits (h.ne_nil hwidth) (by rw [h.value]; omega)
  rw [h.value] at hlong
  rw [toIntOrZero, toInt, hlong, Option.filter_some, if_pos (by simp; omega), Option.getD_some]

/-- Digits with a point among them are no integer. -/
theorem toIntOrZero_decimal {a b : QString} (ha : ∀ c ∈ a, c.isDigit = true) (hne : a ≠ []) (hb : ∀ c ∈ b, c.isDigit = true) (hne' : b ≠ []) :
    toIntOrZero (a ++ '.' :: b) = 0 := by
  have hhead : ∀ c, (a ++ '.' :: b).head? = some c → c.isDigit = true := fun c hc => by
    rw [List.head?_append_of_ne_nil _ hne] at hc
    exact ha c (List.mem_of_mem_head? hc)
  have hlast : ∀ c, (a ++ '.' :: b).getLast? = some c → c.isDigit = true := fun c hc => by
    rw [List.getLast?_append_of_ne_nil _ (by simp), List.getLast?_cons_of_ne_nil hne'] at hc
    exact hb c (List.mem_of_getLast? hc)
  have htrim : trimmed (a ++ '.' :: b) = a ++ '.' :: b :=
    trimmed_eq_self (fun c hc => isSpace_of_isDigit (hhead c hc)) (fun c hc => isSpace_of_isDigit (hlast c hc))
  have hnone : toLongLong (a ++ '.' :: b) = none := by
    unfold toLongLong
    rw [htrim]
    split
    · rename_i he
      have := hhead '-' (by rw [he]; rfl)
      cases this
    · rename_i he
      have := hhead '+' (by rw [he]; rfl)
      cases this
    · have hdigits : digits (a ++ '.' :: b) = none := by
        refine if_neg fun h => ?_
        have := List.all_eq_true.mp h.2 '.' (by simp)
        cases this
      rw [hdigits]
      rfl
  rw [toIntOrZero, toInt, hnone]
  rfl

/-- The fields that are printed, with what is read of the seconds. -/
theorem fields_dateText (h : tm.Utc) (hyear : 70 ≤ tm.year ∧ tm.year + 1900 < 10000) {sec : QString} (hsec : ':' ∉ sec) :
    fields (dateText tm) (padded 2 tm.hour ++ ':' :: padded 2 tm.min ++ ':' :: sec) =
      some { tm with sec := toIntOrZero sec, wday := 0 } := by
  have hmday := h.mday
  have hmday' := h.mday_le
  obtain ⟨hmon, hmon'⟩ := h.mon
  have hhour := h.hour
  have hmin := h.min
  have hyears := isPadded_of_nonneg 4 (n := tm.year + 1900) (by decide) (by omega) (by omega)
  have hmonths := isPadded_of_nonneg 2 (n := tm.mon + 1) (by decide) (by omega) (by omega)
  have hdays := isPadded_of_nonneg 2 (n := tm.mday) (by decide) (by omega) (by omega)
  have hhours := isPadded_of_nonneg 2 (n := tm.hour) (by decide) (by omega) (by omega)
  have hmins := isPadded_of_nonneg 2 (n := tm.min) (by decide) (by omega) (by omega)
  have hdate : (dateText tm).splitOn '-' = [padded 4 (tm.year + 1900), padded 2 (tm.mon + 1), padded 2 tm.mday] := by
    rw [dateText, number_eq_padded (by omega), List.append_assoc, List.cons_append,
      List.splitOn_append_cons_self_of_not_mem (notMem_of_digits hyears.digits rfl),
      List.splitOn_append_cons_self_of_not_mem (notMem_of_digits hmonths.digits rfl),
      List.splitOn_eq_singleton (notMem_of_digits hdays.digits rfl)]
  have htime : (padded 2 tm.hour ++ ':' :: padded 2 tm.min ++ ':' :: sec).splitOn ':' = [padded 2 tm.hour, padded 2 tm.min, sec] := by
    rw [List.append_assoc, List.cons_append, List.splitOn_append_cons_self_of_not_mem (notMem_of_digits hhours.digits rfl),
      List.splitOn_append_cons_self_of_not_mem (notMem_of_digits hmins.digits rfl), List.splitOn_eq_singleton hsec]
  unfold fields
  rw [hdate, htime]
  dsimp only
  rw [toIntOrZero_padded hyears (by decide) (by omega), toIntOrZero_padded hmonths (by decide) (by omega),
    toIntOrZero_padded hdays (by decide) (by omega), toIntOrZero_padded hhours (by decide) (by omega),
    toIntOrZero_padded hmins (by decide) (by omega), Int.toNat_of_nonneg (by omega), Int.toNat_of_nonneg (by omega),
    Int.toNat_of_nonneg (by omega), Int.toNat_of_nonneg (by omega), Int.toNat_of_nonneg (by omega), Int.add_sub_cancel, Int.add_sub_cancel]

/-- A time of the years from 1970 to 9999, in microseconds. -/
def IsTime (t : Int) : Prop := 0 ≤ t ∧ t < 1000000 * (86400 * (Calendar.daysBeforeYear 10000 - Calendar.daysBeforeYear 1970))

variable {t : Int}

theorem IsTime.seconds (h : IsTime t) :
    t.tdiv 1000000 = t / 1000000 ∧ t.tmod 1000000 = t % 1000000 ∧ (gmtimeR (t / 1000000)).Utc ∧
      70 ≤ (gmtimeR (t / 1000000)).year ∧ (gmtimeR (t / 1000000)).year + 1900 < 10000 := by
  obtain ⟨h₀, h₁⟩ := h
  have hepoch : Calendar.daysBeforeYear 1970 = epoch := by decide
  exact ⟨Int.tdiv_eq_ediv_of_nonneg h₀, Int.tmod_eq_emod_of_nonneg h₀, utc_gmtimeR _, year_gmtimeR (by omega) (by omega)⟩

/-- The instant of the fields with other seconds. -/
theorem mkgmtime_sec (h : tm.Utc) (hyear : 70 ≤ tm.year ∧ tm.year + 1900 < 10000) {sec : Int} (hsec : 0 ≤ sec ∧ sec < 60) :
    mkgmtime { tm with sec, wday := 0 } = tm.instant - tm.sec + sec := by
  have hmday := h.mday
  have hmday' := h.mday_le
  have hmin := h.min
  have hhour := h.hour
  have hmkgmtime : mkgmtime { tm with sec, wday := 0 } = Tm.instant { tm with sec, wday := 0 } := mkgmtime_eq h.mon (by dsimp only; omega)
  rw [hmkgmtime]
  unfold Tm.instant
  dsimp only
  omega

/-- The fraction of the seconds that is read. -/
theorem microseconds_decimal (Q : ToDouble) (front : QString) {sec us : Nat} {a b : QString} (ha : IsPadded 2 sec a) (hb : IsPadded 6 us b)
    (hfront : (front ++ ':' :: (a ++ '.' :: b)).splitOn ':' = front.splitOn ':' ++ [a ++ '.' :: b]) (hlen : (front.splitOn ':').length = 2) :
    microseconds Q (front ++ ':' :: (a ++ '.' :: b)) 0 = cutOff (sec * 1000000 + us) := by
  have hvalue : Nat.ofDigitChars 10 (a ++ b) 0 = sec * 1000000 + us := by
    rw [Nat.ofDigitChars_append, Nat.ofDigitChars_eq_ofDigitChars_zero, ha.value, hb.value, hb.length]
    omega
  have hlast : (front.splitOn ':' ++ [a ++ '.' :: b]).getD 2 [] = a ++ '.' :: b := by
    rw [List.getD_eq_getElem?_getD, List.getElem?_append_right (by omega), hlen]
    rfl
  have hpow : (10 : ℚ) ^ 6 = 1000000 := by norm_num
  have hround := Double.round_round (q := ((sec * 1000000 + us : ℕ) : ℚ) / 1000000) (div_nonneg (Nat.cast_nonneg _) (by norm_num))
  rw [microseconds, hfront, hlast, Q.decimal a b (ha.ne_nil (by decide)) (hb.ne_nil (by decide)) ha.digits hb.digits, hvalue, hb.length,
    hpow, Int.cast_zero, sub_zero, hround, cutOff]

/-- The text of a time is read as that time, but for what the double cuts off. -/
theorem fromTimestamp_timestamp (Q : ToDouble) (h : IsTime t) :
    fromTimestamp Q (dateText (gmtimeR (t / 1000000))) (clock (gmtimeR (t / 1000000)) ++ '.' :: padded 6 (t % 1000000)) =
      some (t - t % 60000000 + cutOff (t % 60000000).toNat) := by
  obtain ⟨-, -, hutc, hyear⟩ := h.seconds
  have hinstant := gmtimeR_instant (t / 1000000)
  have hsec' : (gmtimeR (t / 1000000)).sec = t / 1000000 % 60 := rfl
  have hsec := isPadded_of_nonneg 2 (n := t / 1000000 % 60) (by decide) (by omega) (by omega)
  have hus := isPadded_of_nonneg 6 (n := t % 1000000) (by decide) (by omega) (by omega)
  have hhours := isPadded_of_nonneg 2 (n := (gmtimeR (t / 1000000)).hour) (by decide) hutc.hour.1 (by have := hutc.hour.2; omega)
  have hmins := isPadded_of_nonneg 2 (n := (gmtimeR (t / 1000000)).min) (by decide) hutc.min.1 (by have := hutc.min.2; omega)
  have hcolon : ':' ∉ padded 2 (t / 1000000 % 60) ++ '.' :: padded 6 (t % 1000000) := fun hmem => by
    rcases List.mem_append.mp hmem with hmem | hmem
    · exact notMem_of_digits hsec.digits rfl hmem
    · rcases List.mem_cons.mp hmem with hmem | hmem
      · cases hmem
      · exact notMem_of_digits hus.digits rfl hmem
  have htext : clock (gmtimeR (t / 1000000)) ++ '.' :: padded 6 (t % 1000000) = padded 2 (gmtimeR (t / 1000000)).hour ++
      ':' :: padded 2 (gmtimeR (t / 1000000)).min ++ ':' :: (padded 2 (t / 1000000 % 60) ++ '.' :: padded 6 (t % 1000000)) := by
    rw [clock, hsec', List.append_assoc, List.cons_append]
  have hfront : (padded 2 (gmtimeR (t / 1000000)).hour ++ ':' :: padded 2 (gmtimeR (t / 1000000)).min).splitOn ':' =
      [padded 2 (gmtimeR (t / 1000000)).hour, padded 2 (gmtimeR (t / 1000000)).min] := by
    rw [List.splitOn_append_cons_self_of_not_mem (notMem_of_digits hhours.digits rfl),
      List.splitOn_eq_singleton (notMem_of_digits hmins.digits rfl)]
  have hmicroseconds := microseconds_decimal Q
    (padded 2 (gmtimeR (t / 1000000)).hour ++ ':' :: padded 2 (gmtimeR (t / 1000000)).min) hsec hus
    (by rw [List.splitOn_append_cons_self, List.splitOn_eq_singleton hcolon]) (by rw [hfront]; rfl)
  rw [fromTimestamp, htext, fields_dateText hutc hyear hcolon,
    toIntOrZero_decimal hsec.digits (hsec.ne_nil (by decide)) hus.digits (hus.ne_nil (by decide)), Option.map_some, hmicroseconds,
    mkgmtime_sec hutc hyear ⟨le_rfl, by decide⟩, hinstant, hsec']
  have hnat : (t / 1000000 % 60).toNat * 1000000 + (t % 1000000).toNat = (t % 60000000).toNat := by omega
  rw [hnat]
  refine congrArg some ?_
  omega

end

end Dbutils
end Snapwebsites
