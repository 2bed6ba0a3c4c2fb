import Snapwebsites.SnapChild.DateRoundTrip

/-! # Time zones

RFC 822 gives the local time and how far the zone is ahead of UTC, so that the instant is the local time less the offset of
the zone. `parse_timezone()` adds the offset instead: the hours of `EST` are taken off, those of `+hhmm` are added. The
number is then right for the zones that have no offset, and for no other (`instant_iff`). -/

namespace Snapwebsites
namespace SnapChild
open QString Calendar

/-! ### Zones -/

inductive Zone
  | ut
  | gmt
  | est
  | edt
  | cst
  | cdt
  | mst
  | mdt
  | pst
  | pdt
  | east (hours minutes : Fin 100)
  | west (hours minutes : Fin 100)

namespace Zone

/-- The zone in a text that is in lower case. -/
def text : Zone → QString
  | ut => "ut".toList
  | gmt => "gmt".toList
  | est => "est".toList
  | edt => "edt".toList
  | cst => "cst".toList
  | cdt => "cdt".toList
  | mst => "mst".toList
  | mdt => "mdt".toList
  | pst => "pst".toList
  | pdt => "pdt".toList
  | east hours minutes => '+' :: padded 2 hours.val ++ padded 2 minutes.val
  | west hours minutes => '-' :: padded 2 hours.val ++ padded 2 minutes.val

/-- How far the zone is ahead of UTC, in minutes. -/
def offset : Zone → Int
  | ut | gmt => 0
  | est | cdt => -5 * 60
  | edt => -4 * 60
  | cst | mdt => -6 * 60
  | mst | pdt => -7 * 60
  | pst => -8 * 60
  | east hours minutes => hours.val * 60 + minutes.val
  | west hours minutes => -(hours.val * 60 + minutes.val)

end Zone

/-! ### The local time -/

namespace Parser
variable {s s' z rest : Bytes} {tm tm' : Tm} {n : Int}

/-- What `parse()` has read when it comes to `parse_timezone()`, and the text that is left; two of the layouts have no zone. -/
def localFields (s : Bytes) : Option (Tm × Bytes) :=
  if isShort s then none
  else if isLetter (peek s 0) then
    match parseWeekDay {} s with
    | none => if isUs s then none else ansiFields {} s
    | some (tm, s) =>
      if peek s 0 = byte ' ' then ansiFields tm s
      else if peek s 0 = byte ',' then rfcFields tm (skipSpaces (s.drop 1))
      else none
  else rfcFields {} s

theorem parseAnsi_eq (h : ansiFields tm' s = some (tm, z)) : parseAnsi tm' s = parseTimezone tm z := by
  rw [parseAnsi, h]
  rfl

theorem parseRfc_eq (h : rfcFields tm' s = some (tm, z)) : parseRfc tm' s = parseTimezone tm z := by
  rw [parseRfc, h]
  rfl

/-- The fields are those of one of the two layouts with a zone, and the zone comes next. -/
theorem localFields_cases (h : localFields s = some (tm, z)) :
    (∃ tm' s', ansiFields tm' s' = some (tm, z) ∨ rfcFields tm' s' = some (tm, z)) ∧ parse s = parseTimezone tm z := by
  unfold localFields at h
  unfold parse
  by_cases hshort : isShort s
  · rw [if_pos hshort] at h
    cases h
  rw [if_neg hshort] at h ⊢
  by_cases hletter : isLetter (peek s 0)
  · rw [if_pos hletter] at h ⊢
    rcases hday : parseWeekDay {} s with _ | ⟨tm₁, s₁⟩ <;> rw [hday] at h <;> dsimp only at h ⊢
    · split_ifs at h ⊢ with hus
      exact ⟨⟨_, _, .inl h⟩, parseAnsi_eq h⟩
    · split_ifs at h ⊢ with hblank hcomma
      · exact ⟨⟨_, _, .inl h⟩, parseAnsi_eq h⟩
      · exact ⟨⟨_, _, .inr h⟩, parseRfc_eq h⟩
  · rw [if_neg hletter] at h ⊢
    exact ⟨⟨_, _, .inr h⟩, parseRfc_eq h⟩

/-- What the fields that are read are within. -/
structure IsLocal (tm : Tm) : Prop where
  sec : 0 ≤ tm.sec ∧ tm.sec ≤ 60
  min : 0 ≤ tm.min ∧ tm.min ≤ 59
  hour : 0 ≤ tm.hour ∧ tm.hour ≤ 23
  mday : 1 ≤ tm.mday ∧ tm.mday ≤ 31
  mon : tm.Month
  year : 0 ≤ tm.year ∧ tm.year ≤ 3000

theorem integer_bounds {minLen maxLen minValue maxValue : Nat} (h : integer minLen maxLen minValue maxValue s = some (n, rest)) :
    minValue ≤ n ∧ n ≤ maxValue := by
  unfold integer at h
  dsimp only at h
  split_ifs at h with hout
  obtain ⟨rfl, rfl⟩ := Prod.mk.inj (Option.some.inj h)
  omega

theorem parseMonth_eq (h : parseMonth tm s = some (tm', rest)) : ∃ mon : Int, (0 ≤ mon ∧ mon < 12) ∧ tm' = { tm with mon } := by
  simp only [parseMonth, Option.bind_eq_bind, Option.bind_eq_some_iff, Option.pure_def, Option.some.injEq, Prod.mk.injEq] at h
  obtain ⟨month, hfind, rfl, -⟩ := h
  have hmonth : ∀ month ∈ months, month.2 < 12 := by decide
  have := hmonth month (List.mem_of_find?_eq_some hfind)
  exact ⟨month.2, by omega, rfl⟩

theorem parseTime_eq (h : parseTime tm s = some (tm', rest)) : ∃ hour min sec : Int,
    (0 ≤ hour ∧ hour ≤ 23) ∧ (0 ≤ min ∧ min ≤ 59) ∧ (0 ≤ sec ∧ sec ≤ 60) ∧ tm' = { tm with hour, min, sec } := by
  simp only [parseTime, Option.bind_eq_bind, Option.bind_eq_some_iff, Option.pure_def, Option.some.injEq, Prod.mk.injEq, Prod.exists] at h
  obtain ⟨hour, s₁, hhour, s₂, -, min, s₃, hmin, s₄, -, sec, s₅, hsec, rfl, -⟩ := h
  exact ⟨hour, min, sec, integer_bounds hhour, integer_bounds hmin, integer_bounds hsec, rfl⟩

theorem isLocal_ansiFields (h : ansiFields tm s = some (tm', rest)) : IsLocal tm' := by
  simp only [ansiFields, Option.bind_eq_bind, Option.bind_eq_some_iff, Option.pure_def, Option.some.injEq, Prod.mk.injEq, Prod.exists] at h
  obtain ⟨tm₁, s₁, hmonth, mday, s₂, hmday, tm₂, s₃, htime, year, s₄, hyear, rfl, -⟩ := h
  obtain ⟨mon, hmon, rfl⟩ := parseMonth_eq hmonth
  obtain ⟨hour, min, sec, hhour, hmin, hsec, rfl⟩ := parseTime_eq htime
  exact ⟨hsec, hmin, hhour, integer_bounds hmday, hmon, integer_bounds hyear⟩

theorem isLocal_rfcFields (h : rfcFields tm s = some (tm', rest)) : IsLocal tm' := by
  simp only [rfcFields, Option.bind_eq_bind, Option.bind_eq_some_iff, Option.pure_def, Option.some.injEq, Prod.mk.injEq, Prod.exists] at h
  obtain ⟨mday, s₁, hmday, tm₁, s₂, hmonth, year, s₃, hyear, tm₂, s₄, htime, rfl, -⟩ := h
  obtain ⟨mon, hmon, rfl⟩ := parseMonth_eq hmonth
  obtain ⟨hour, min, sec, hhour, hmin, hsec, rfl⟩ := parseTime_eq htime
  exact ⟨hsec, hmin, hhour, integer_bounds hmday, hmon, integer_bounds hyear⟩

theorem isLocal_localFields (h : localFields s = some (tm, z)) : IsLocal tm := by
  obtain ⟨⟨tm', s', hansi | hrfc⟩, -⟩ := localFields_cases h
  · exact isLocal_ansiFields hansi
  · exact isLocal_rfcFields hrfc

/-! ### The zone -/

/-- What `parse_timezone()` adds to the hours and the minutes. -/
structure Adds (tm tm' : Tm) (minutes : Int) : Prop where
  hour : (tm'.hour - tm.hour).natAbs ≤ 99
  min : (tm'.min - tm.min).natAbs ≤ 99
  sum : tm'.hour * 60 + tm'.min = tm.hour * 60 + tm.min + minutes
  others : tm'.sec = tm.sec ∧ tm'.mday = tm.mday ∧ tm'.mon = tm.mon ∧ tm'.year = tm.year

/-- The two digits of a number below 100. -/
theorem digits_two (n : Fin 100) : ∃ a b : Char, padded 2 n.val = [a, b] ∧ isDigit (byte a) ∧ isDigit (byte b) ∧
    ((byte a).toNat - 48 : Int) * 10 + (byte b).toNat - 48 = n.val := by
  have hpadded := isPadded 2 (by decide) n.isLt
  obtain ⟨a, b, hq⟩ := List.length_eq_two.mp hpadded.length
  have hdigits := hpadded.digits
  have hvalue := hpadded.value
  rw [hq] at hdigits hvalue
  have ha := hdigits a (by simp)
  have hb := hdigits b (by simp)
  have ha' := digit_bounds ha
  have hb' := digit_bounds hb
  refine ⟨a, b, hq, isDigit_byte ha, isDigit_byte hb, ?_⟩
  rw [toNat_byte (by omega), toNat_byte (by omega)]
  rw [Nat.ofDigitChars_cons, Nat.ofDigitChars_cons, Nat.ofDigitChars_nil] at hvalue
  change 10 * (10 * 0 + (a.toNat - 48)) + (b.toNat - 48) = n.val at hvalue
  omega

theorem parseTimezone_numeric (tm : Tm) {sign : Char} {factor : Int} (hsign : sign = '+' ∧ factor = 1 ∨ sign = '-' ∧ factor = -1)
    (hours minutes : Fin 100) (hrest : peek rest 0 = 0) :
    parseTimezone tm (bytes (sign :: padded 2 hours.val ++ padded 2 minutes.val) ++ rest) =
      some { tm with hour := tm.hour + hours.val * factor, min := tm.min + minutes.val * factor } := by
  obtain ⟨a, b, hhours, ha, hb, hab⟩ := digits_two hours
  obtain ⟨c, d, hminutes, hc, hd, hcd⟩ := digits_two minutes
  rw [hhours, hminutes]
  have hnumeric : isNumericZone (bytes (sign :: [a, b] ++ [c, d]) ++ rest) = true := by
    have hend : peek (bytes (sign :: [a, b] ++ [c, d]) ++ rest) 5 = peek rest 0 := rfl
    rw [isNumericZone, hend, hrest]
    rcases hsign with ⟨rfl, rfl⟩ | ⟨rfl, rfl⟩ <;> simp [peek, bytes, ha, hb, hc, hd]
  have hhour : twoDigits (bytes (sign :: [a, b] ++ [c, d]) ++ rest) 1 = hours.val := hab
  have hmin : twoDigits (bytes (sign :: [a, b] ++ [c, d]) ++ rest) 3 = minutes.val := hcd
  have hfirst : peek (bytes (sign :: [a, b] ++ [c, d]) ++ rest) 0 = byte sign := rfl
  have hnonzero : byte sign ≠ 0 := by rcases hsign with ⟨rfl, rfl⟩ | ⟨rfl, rfl⟩ <;> decide
  have hname : zones.find? (fun zone => isZone (bytes (sign :: [a, b] ++ [c, d]) ++ rest) zone.1) = none := by
    rcases hsign with ⟨rfl, rfl⟩ | ⟨rfl, rfl⟩ <;> rfl
  have hletter : isLetter (byte sign) = false := by rcases hsign with ⟨rfl, rfl⟩ | ⟨rfl, rfl⟩ <;> decide
  have hfactor : zoneSign (bytes (sign :: [a, b] ++ [c, d]) ++ rest) = factor := by
    rcases hsign with ⟨rfl, rfl⟩ | ⟨rfl, rfl⟩ <;> rfl
  rw [parseTimezone, hfirst, if_neg hnonzero, hname]
  dsimp only
  rw [hletter, Bool.false_and, Bool.false_and, if_neg Bool.false_ne_true, if_pos hnumeric, hhour, hmin, hfactor]

theorem parseTimezone_zone (tm : Tm) (zone : Zone) (hrest : peek rest 0 = 0) :
    ∃ tm', parseTimezone tm (bytes zone.text ++ rest) = some tm' ∧ Adds tm tm' zone.offset := by
  have hnamed : ∀ {text : QString} (hours : Int), hours.natAbs ≤ 99 →
      parseTimezone tm (bytes text ++ rest) = some { tm with hour := tm.hour + hours } →
      ∃ tm', parseTimezone tm (bytes text ++ rest) = some tm' ∧ Adds tm tm' (hours * 60) := fun _ hhours h =>
    ⟨_, h, by dsimp only; omega, by dsimp only; omega, by dsimp only; omega, rfl, rfl, rfl, rfl⟩
  -- a name is compared up to the NUL behind it
  have hend : rest = [] ∨ ∃ s, rest = 0 :: s := by
    rcases rest with _ | ⟨b, s⟩
    · exact .inl rfl
    · exact .inr ⟨s, congrArg (· :: s) hrest⟩
  cases zone with
  | east hours minutes =>
    refine ⟨_, parseTimezone_numeric tm (.inl ⟨rfl, rfl⟩) hours minutes hrest, ?_, ?_, ?_, rfl, rfl, rfl, rfl⟩ <;>
      simp only [Zone.offset] <;> omega
  | west hours minutes =>
    refine ⟨_, parseTimezone_numeric tm (.inr ⟨rfl, rfl⟩) hours minutes hrest, ?_, ?_, ?_, rfl, rfl, rfl, rfl⟩ <;>
      simp only [Zone.offset] <;> omega
  | ut => exact hnamed 0 (by decide) (by rcases hend with rfl | ⟨s, rfl⟩ <;> rfl)
  | gmt => exact hnamed 0 (by decide) (by rcases hend with rfl | ⟨s, rfl⟩ <;> rfl)
  | est => exact hnamed (-5) (by decide) (by rcases hend with rfl | ⟨s, rfl⟩ <;> rfl)
  | edt => exact hnamed (-4) (by decide) (by rcases hend with rfl | ⟨s, rfl⟩ <;> rfl)
  | cst => exact hnamed (-6) (by decide) (by rcases hend with rfl | ⟨s, rfl⟩ <;> rfl)
  | cdt => exact hnamed (-5) (by decide) (by rcases hend with rfl | ⟨s, rfl⟩ <;> rfl)
  | mst => exact hnamed (-7) (by decide) (by rcases hend with rfl | ⟨s, rfl⟩ <;> rfl)
  | mdt => exact hnamed (-6) (by decide) (by rcases hend with rfl | ⟨s, rfl⟩ <;> rfl)
  | pst => exact hnamed (-8) (by decide) (by rcases hend with rfl | ⟨s, rfl⟩ <;> rfl)
  | pdt => exact hnamed (-7) (by decide) (by rcases hend with rfl | ⟨s, rfl⟩ <;> rfl)

end Parser

/-! ### Dates with a zone -/

/-- A date that is accepted and has one of the zones: the fields of its local time, the zone, and what stands behind its NUL. -/
structure Dated (toLower : QString → QString) where
  text : QString
  fields : Tm
  zone : Zone
  rest : Bytes
  read : Parser.localFields (utf8 (toLower (simplified text))) = some (fields, Parser.bytes zone.text ++ rest)
  ends : Parser.peek rest 0 = 0
  accepted : ∃ last, lastDayOfMonth (fields.mon + 1) (fullYear fields.year) = .ok last ∧ fields.mday ≤ last

namespace Dated
variable {toLower : QString → QString} (d e : Dated toLower)

/-- The local fields read in UTC, less the offset of the zone. -/
def instant : Int := fromTm d.fields - d.zone.offset * 60

/-- The offset is added. -/
theorem stringToDate_eq : stringToDate toLower d.text = .ok (fromTm d.fields + d.zone.offset * 60) := by
  obtain ⟨tm, htm, hadds⟩ := Parser.parseTimezone_zone d.fields d.zone d.ends
  obtain ⟨hsec, hmday, hmon, hyear⟩ := hadds.others
  obtain ⟨last, hlast, hle⟩ := d.accepted
  have hlocal := Parser.isLocal_localFields d.read
  have hsec' := hlocal.sec
  have hmin' := hlocal.min
  have hhour' := hlocal.hour
  have hmday' := hlocal.mday
  have hyear' : 0 ≤ fullYear d.fields.year ∧ fullYear d.fields.year ≤ 3000 := by
    have := hlocal.year
    unfold fullYear
    split_ifs <;> omega
  have hhour := hadds.hour
  have hmin := hadds.min
  have hsum := hadds.sum
  have hmonth : tm.Month := by
    rw [Tm.Month, hmon]
    exact hlocal.mon
  have hresult : fromTm tm = fromTm d.fields + d.zone.offset * 60 := by
    rw [fromTm_eq hmonth (by rwa [hyear]) (by omega), fromTm_eq hlocal.mon hyear' (by omega), hyear, hmon, hmday, hsec]
    omega
  rw [stringToDate, (Parser.localFields_cases d.read).2, htm]
  dsimp only
  rw [hmon, hyear, hlast, hmday, hresult]
  exact if_neg (not_lt.mpr hle)

/-- The number is the instant just for the zones without an offset; two texts of one instant have the same number just when their
    zones have the same offset. -/
theorem instant_iff : (stringToDate toLower d.text = .ok d.instant ↔ d.zone.offset = 0) ∧
    (d.instant = e.instant → (stringToDate toLower d.text = stringToDate toLower e.text ↔ d.zone.offset = e.zone.offset)) := by
  rw [stringToDate_eq, stringToDate_eq]
  unfold instant
  simp only [Except.ok.injEq]
  omega

end Dated

/-- One hour ahead of UTC: the number is that of 09:49:37 UTC in place of 07:49:37 UTC. -/
def plusOneHour : Dated (List.map Char.toLower) where
  text := "06 Nov 1994 08:49:37 +0100".toList
  fields := { sec := 37, min := 49, hour := 8, mday := 6, mon := 10, year := 1994 }
  zone := .east 1 0
  rest := []
  read := by decide +kernel
  ends := rfl
  accepted := ⟨30, rfl, by decide⟩

theorem plusOneHour_wrong : stringToDate (List.map Char.toLower) plusOneHour.text ≠ .ok plusOneHour.instant := by
  have hnumber : stringToDate (List.map Char.toLower) plusOneHour.text = .ok 784115377 := by rfl
  have hinstant : plusOneHour.instant = 784108177 := by decide +kernel
  rw [hnumber, hinstant]
  exact fun h => absurd (Except.ok.inj h) (by decide)

end SnapChild
end Snapwebsites
