import Snapwebsites.Dbutils.Escapes
import Snapwebsites.Libdbproxy.Cassvalue

/-! # Values that are edited

A value is printed, and the text is taken for the value again. `Kept` says that the same bytes come back or none: for each type
of column the values for which it does are those of `Cell.Lossless` (`kept_iff_lossless`). -/

namespace Snapwebsites
namespace Dbutils
open QString SnapChild SnapChild.Parser

/-! ### Formats -/

section
variable {α : Type} (format : Format α) {a b : α}

theorem valueOf_append (a : α) (rest : Bytes) : valueOf format (format.write a ++ rest) = some a := by
  rw [valueOf, (format.read_write a).run rest]
  rfl

theorem valueOf_write (a : α) : valueOf format (format.write a) = some a := by
  have h := valueOf_append format a []
  rwa [List.append_nil] at h

theorem map_valueOf_write {β : Type} (a : α) (f : α → β) : (valueOf format (format.write a)).map f = some (f a) := by
  rw [valueOf_write, Option.map_some]

theorem write_inj (h : format.write a = format.write b) : a = b := by
  have ha := valueOf_write format a
  rw [h, valueOf_write format b] at ha
  exact (Option.some.inj ha).symm

theorem write_inj_iff : format.write a = format.write b ↔ a = b := ⟨write_inj format, congrArg _⟩

theorem safeValueOf_append (zero a : α) (rest : Bytes) : safeValueOf format zero (format.write a ++ rest) = a := by
  rw [safeValueOf, valueOf_append]
  rfl

theorem safeValueOf_write (zero a : α) : safeValueOf format zero (format.write a) = a := by
  rw [safeValueOf, valueOf_write]
  rfl

end

/-- A value that is stored is the one it was, or nothing is stored. -/
theorem some_kept_iff {b value : Bytes} : (∀ b', some b = some b' → b' = value) ↔ b = value :=
  ⟨fun h => h b rfl, fun h _ heq => (Option.some.inj heq).symm.trans h⟩

/-! ### Times -/

section
variable {t : Int}

theorem mem_padded {c : Char} {n : Int} {width : Nat} (h : c ∈ padded width n) : c = '-' ∨ c.isDigit = true := by
  rcases List.mem_append.mp h with h | h
  · rw [List.eq_of_mem_replicate h]
    exact .inr rfl
  · exact mem_number h

/-- The characters of a date and of a time of the day. -/
theorem mem_dateText {c : Char} {tm : Tm} (h : c ∈ dateText tm) : c = '-' ∨ c.isDigit = true := by
  simp only [dateText, List.mem_append, List.mem_cons] at h
  obtain (h | h | h) | h | h := h
  · exact mem_number h
  · exact .inl h
  · exact mem_padded h
  · exact .inl h
  · exact mem_padded h

theorem mem_clock {c : Char} {tm : Tm} (h : c ∈ clock tm) : c = ':' ∨ c = '-' ∨ c.isDigit = true := by
  simp only [clock, List.mem_append, List.mem_cons] at h
  obtain (h | h | h) | h | h := h
  · exact .inr (mem_padded h)
  · exact .inl h
  · exact .inr (mem_padded h)
  · exact .inl h
  · exact .inr (mem_padded h)

/-- The time of the day with its microseconds. -/
def timeText (t : Int) : QString := clock (gmtimeR (t / 1000000)) ++ '.' :: padded 6 (t % 1000000)

theorem mem_timeText {c : Char} (h : c ∈ timeText t) : c = ':' ∨ c = '.' ∨ c = '-' ∨ c.isDigit = true := by
  rcases List.mem_append.mp h with h | h
  · exact (mem_clock h).imp_right .inr
  · exact .inr ((List.mem_cons.mp h).imp_right mem_padded)

/-- The number of a time, behind it. -/
def numberText (t : Int) : QString := '(' :: (number t ++ [')'])

theorem microsecondsToString_eq (h : IsTime t) :
    microsecondsToString t true = dateText (gmtimeR (t / 1000000)) ++ ' ' :: (timeText t ++ ' ' :: numberText t) := by
  obtain ⟨hdiv, hmod, -⟩ := h.seconds
  have hopen : " (".toList = [' ', '('] := by decide
  simp [microsecondsToString, timeText, numberText, hdiv, hmod, hopen]

theorem splitOn_dateText {tm : Tm} {time rest : QString} (htime : ' ' ∉ time) :
    (dateText tm ++ ' ' :: (time ++ ' ' :: rest)).splitOn ' ' = dateText tm :: time :: rest.splitOn ' ' := by
  have hdate : ' ' ∉ dateText tm := fun h => by
    have := mem_dateText h
    revert this
    decide
  rw [List.splitOn_append_cons_self_of_not_mem hdate, List.splitOn_append_cons_self_of_not_mem htime]

theorem space_notMem_timeText (t : Int) : ' ' ∉ timeText t := fun h => by
  have := mem_timeText h
  revert this
  decide

theorem space_notMem_numberText (t : Int) : ' ' ∉ numberText t := fun h => by
  have hnumber : ' ' ∉ number t := fun h => by
    have := mem_number h
    revert this
    decide
  simp [numberText, hnumber] at h

/-- The parts of a time that is printed, with a text behind it. -/
theorem splitOn_time (h : IsTime t) (s : QString) :
    (microsecondsToString t true ++ ' ' :: s).splitOn ' ' =
      dateText (gmtimeR (t / 1000000)) :: timeText t :: numberText t :: s.splitOn ' ' := by
  have happend : microsecondsToString t true ++ ' ' :: s =
      dateText (gmtimeR (t / 1000000)) ++ ' ' :: (timeText t ++ ' ' :: (numberText t ++ ' ' :: s)) := by
    simp [microsecondsToString_eq h]
  rw [happend, splitOn_dateText (space_notMem_timeText t), List.splitOn_append_cons_self_of_not_mem (space_notMem_numberText t)]

theorem splitOn_microsecondsToString (h : IsTime t) :
    (microsecondsToString t true).splitOn ' ' = [dateText (gmtimeR (t / 1000000)), timeText t, numberText t] := by
  rw [microsecondsToString_eq h, splitOn_dateText (space_notMem_timeText t), List.splitOn_eq_singleton (space_notMem_numberText t)]

theorem cutOff_bounds (n : Nat) : 0 ≤ cutOff n ∧ cutOff n ≤ 4 * n := by
  have hdiv : (0 : ℚ) ≤ n / 1000000 := by positivity
  obtain ⟨hquotient, hquotient'⟩ := Double.round_bounds hdiv
  obtain ⟨hproduct, hproduct'⟩ := Double.round_bounds (mul_nonneg hquotient (by norm_num : (0 : ℚ) ≤ 1000000))
  obtain ⟨h, h'⟩ := Double.truncate_bounds hproduct
  refine ⟨h, ?_⟩
  have hle : (cutOff n : ℚ) ≤ ((4 * n : ℤ) : ℚ) := by
    push_cast
    have hback : (n : ℚ) / 1000000 * 1000000 = n := div_mul_cancel₀ _ (by norm_num)
    unfold cutOff
    linarith
  exact_mod_cast hle

/-- The time that is read. -/
def readTime (t : Int) : Int := t - t % 60000000 + cutOff (t % 60000000).toNat

theorem fromTimestamp_timeText (Q : ToDouble) (h : IsTime t) :
    fromTimestamp Q (dateText (gmtimeR (t / 1000000))) (timeText t) = some (readTime t) := fromTimestamp_timestamp Q h

theorem stringToMicroseconds_time (Q : ToDouble) (h : IsTime t) (s : QString) :
    stringToMicroseconds Q (microsecondsToString t true ++ ' ' :: s) = readTime t := by
  rw [stringToMicroseconds, splitOn_time h]
  dsimp only
  rw [fromTimestamp_timeText Q h, Option.getD_some]

theorem stringToMicroseconds_microsecondsToString (Q : ToDouble) (h : IsTime t) :
    stringToMicroseconds Q (microsecondsToString t true) = readTime t := by
  rw [stringToMicroseconds, splitOn_microsecondsToString h]
  dsimp only
  rw [fromTimestamp_timeText Q h, Option.getD_some]

/-- The time that is read is the one that was printed, unless its microseconds are cut off. -/
theorem readTime_eq_iff (t : Time) : Int64.ofInt (readTime t.value.toInt) = t.value ↔ ¬ Cut (t.value.toInt % 60000000).toNat := by
  obtain ⟨h₀, h₁⟩ := t.isTime
  have hlast : 1000000 * (86400 * (Calendar.daysBeforeYear 10000 - Calendar.daysBeforeYear 1970)) < (2 ^ 62 : Int) := by decide
  obtain ⟨hcut₀, hcut₁⟩ := cutOff_bounds (t.value.toInt % 60000000).toNat
  have hread : (Int64.ofInt (readTime t.value.toInt)).toInt = readTime t.value.toInt := by
    refine Int64.toInt_ofInt_of_le ?_ ?_ <;> unfold readTime <;> omega
  have hlt : (t.value.toInt % 60000000).toNat < 2 ^ 26 := by omega
  rw [← Int64.toInt_inj, hread, ← cutOff_eq_iff hlt, readTime]
  omega

theorem Seconds.fields_eq (t : Seconds) : ∃ tm, fields (dateText (gmtimeR t.value.toNat)) (clock (gmtimeR t.value.toNat)) = some tm ∧
    mkgmtime tm = t.value.toNat := by
  have hlt := t.lt
  have hepoch : Calendar.daysBeforeYear 1970 = epoch := by decide
  have hutc := utc_gmtimeR t.value.toNat
  have hyear : 70 ≤ (gmtimeR t.value.toNat).year ∧ (gmtimeR t.value.toNat).year + 1900 < 10000 := year_gmtimeR (by omega) (by omega)
  have hsec := isPadded_of_nonneg 2 (n := (gmtimeR t.value.toNat).sec) (by decide) hutc.sec.1 (by have := hutc.sec.2; omega)
  have hcolon : ':' ∉ padded 2 (gmtimeR t.value.toNat).sec := notMem_of_digits hsec.digits rfl
  have hread := toIntOrZero_padded hsec (by decide) (by have := hutc.sec.2; omega)
  rw [Int.toNat_of_nonneg hutc.sec.1] at hread
  refine ⟨_, fields_dateText hutc hyear hcolon, ?_⟩
  rw [hread, mkgmtime_sec hutc hyear ⟨hutc.sec.1, hutc.sec.2⟩, gmtimeR_instant]
  omega

end

/-! ### The types of columns -/

section
variable {A : Accessors} {Q : ToDouble} {displayLen : Nat}

/-- The text of a cell makes the bytes of the cell, or none. -/
def Kept (A : Accessors) (Q : ToDouble) (displayLen : Nat) (cell : Cell) : Prop :=
  ∀ b, setColumnValue A Q cell.type (getColumnValue A displayLen cell.type (cell.bytes A) false) = some b → b = cell.bytes A

theorem kept_of_text (cell : Cell) (text : QString) {b : Bytes} (htext : columnText A displayLen false (cell.bytes A) cell.type = some text)
    (hset : setColumnValue A Q cell.type text = some b) : Kept A Q displayLen cell ↔ b = cell.bytes A := by
  rw [Kept, getColumnValue, htext, Option.getD_some, hset, some_kept_iff]

theorem kept_of_throw (cell : Cell) (text : QString) (htext : columnText A displayLen false (cell.bytes A) cell.type = some text)
    (hset : setColumnValue A Q cell.type text = none) : Kept A Q displayLen cell := fun b hb => by
  rw [getColumnValue, htext, Option.getD_some, hset] at hb
  cases hb

theorem toIntOrZero_number {n : Int} (h₀ : -0x80000000 ≤ n) (h : n < 0x80000000) : toIntOrZero (number n) = n := by
  rw [toIntOrZero, toInt_of_number h₀ h, Option.getD_some]

/-! #### Integers -/

theorem kept_int8 (n : Int8) : Kept A Q displayLen (.int8 n) := by
  have h₀ := n.le_toInt
  have h₁ := n.toInt_lt
  refine (kept_of_text (.int8 n) (number n.toInt) ?_ rfl).mpr ?_
  · exact map_valueOf_write A.signedCharValue n _
  · rw [toIntOrZero_number (by omega) (by omega), Int8.ofInt_toInt]
    rfl

theorem kept_uint8 (n : UInt8) : Kept A Q displayLen (.uint8 n) := by
  have h := n.toNat_lt
  refine (kept_of_text (.uint8 n) (number n.toNat) ?_ rfl).mpr ?_
  · exact map_valueOf_write A.unsignedCharValue n _
  · rw [toUInt_number (by omega), Option.getD_some, UInt8.ofNat_toNat]
    rfl

theorem kept_int16 (n : Int16) : Kept A Q displayLen (.int16 n) ↔ -128 ≤ n.toInt ∧ n.toInt ≤ 127 := by
  have h₀ := n.le_toInt
  have h₁ := n.toInt_lt
  rw [kept_of_text (.int16 n) (number n.toInt) (map_valueOf_write A.int16Value n _) rfl, toIntOrZero_number (by omega) (by omega),
    Cell.bytes, write_inj_iff, ← Int16.toInt_inj, Int8.toInt_toInt16, Int8.toInt_ofInt]
  have hlow := (Int8.ofInt n.toInt).le_toInt
  have hhigh := (Int8.ofInt n.toInt).toInt_lt
  rw [Int8.toInt_ofInt] at hlow hhigh
  constructor
  · intro h
    omega
  · rintro ⟨h, h'⟩
    exact Int.bmod_eq_of_le (by simpa [Int8.size] using h) (by simp [Int8.size]; omega)

theorem kept_uint16 (n : UInt16) : Kept A Q displayLen (.uint16 n) ↔ n.toNat < 256 := by
  have h := n.toNat_lt
  rw [kept_of_text (.uint16 n) (number n.toNat) (map_valueOf_write A.uint16Value n _) rfl, toUInt_number (by omega), Option.getD_some,
    Cell.bytes, write_inj_iff, ← UInt16.toNat_inj, UInt8.toNat_toUInt16, UInt8.toNat_ofNat']
  omega

theorem kept_int32 (n : Int32) : Kept A Q displayLen (.int32 n) := by
  have h₀ := n.le_toInt
  have h₁ := n.toInt_lt
  refine (kept_of_text (.int32 n) (number n.toInt) ?_ rfl).mpr ?_
  · exact map_valueOf_write A.int32Value n _
  · rw [toLongLong_of_number (by omega) (by omega), Option.getD_some, Int32.ofInt_toInt]
    rfl

theorem kept_uint32 (n : UInt32) : Kept A Q displayLen (.uint32 n) := by
  have h := n.toNat_lt
  refine (kept_of_text (.uint32 n) (number n.toNat) ?_ rfl).mpr ?_
  · exact map_valueOf_write A.uint32Value n _
  · rw [toULongLong_number (by omega), Option.getD_some, UInt32.ofNat_toNat]
    rfl

theorem kept_int64 (n : Int64) : Kept A Q displayLen (.int64 n) := by
  have h₀ := n.le_toInt
  have h₁ := n.toInt_lt
  refine (kept_of_text (.int64 n) (number n.toInt) ?_ rfl).mpr ?_
  · exact map_valueOf_write A.int64Value n _
  · rw [toLongLong_of_number (by omega) (by omega), Option.getD_some, Int64.ofInt_toInt]
    rfl

theorem kept_uint64 (n : UInt64) : Kept A Q displayLen (.uint64 n) := by
  have h := n.toNat_lt
  refine (kept_of_text (.uint64 n) (number n.toNat) ?_ rfl).mpr ?_
  · exact map_valueOf_write A.uint64Value n _
  · rw [toULongLong_number (by omega), Option.getD_some, UInt64.ofNat_toNat]
    rfl

/-! #### Bytes -/

theorem hexText_eq (value : Bytes) (limited : Bool) :
    hexText displayLen false limited value = value.flatMap fun byte => byteToHex byte ++ [' '] := by
  simp [hexText]

/-- The blank behind the last byte is taken for one more number. -/
theorem stringToKey_hexText (value : Bytes) (limited : Bool) : stringToKey (hexText displayLen false limited value) = none := by
  rw [hexText_eq]
  rcases List.eq_nil_or_concat value with rfl | ⟨front, last, rfl⟩
  · exact stringToKey_nil
  · rw [List.concat_eq_append, List.flatMap_append, List.flatMap_singleton, ← List.append_assoc, stringToKey_blank]

theorem kept_binary (b : Bytes) : Kept A Q displayLen (.binary b) :=
  kept_of_throw (.binary b) _ rfl (stringToKey_hexText b _)

theorem kept_hexarray (b : Bytes) : Kept A Q displayLen (.hexarray b) :=
  kept_of_throw (.hexarray b) _ rfl (stringToKey_hexText b _)

theorem kept_hexarrayLimited (b : Bytes) : Kept A Q displayLen (.hexarrayLimited b) :=
  kept_of_throw (.hexarrayLimited b) _ rfl (stringToKey_hexText b _)

theorem kept_md5array (b : Bytes) (h : b.length = 16) : Kept A Q displayLen (.md5array b h) :=
  (kept_of_text (.md5array b h) (keyToString b) rfl (stringToKey_keyToString h)).mpr rfl

/-! #### Names -/

theorem secureOf_secureText (k : Int) :
    secureOf (secureText k) = if k = -1 then some (-1) else if k = 0 then some 0 else if k = 1 then some 1 else none := by
  unfold secureText
  split_ifs with h₁ h₂ h₃
  · decide
  · decide
  · decide
  · have hhead : (unknownSecure ++ number k ++ [')']).head? = some 'u' := by
      rw [List.append_assoc, List.head?_append_of_ne_nil _ (by decide)]
      decide
    have hne : ∀ {v : QString}, v.head? ≠ some 'u' → unknownSecure ++ number k ++ [')'] ≠ v := fun hv heq => hv (by rw [← heq, hhead])
    unfold secureOf
    rw [if_neg fun h => h.elim (hne (by decide)) (hne (by decide)), if_neg fun h => h.elim (hne (by decide)) (hne (by decide)),
      if_neg fun h => h.elim (hne (by decide)) (hne (by decide))]

theorem kept_secure (n : Int8) : Kept A Q displayLen (.secure n) := by
  have htext : columnText A displayLen false (Cell.bytes A (.secure n)) (Cell.type (.secure n)) = some (secureText n.toInt) :=
    map_valueOf_write A.signedCharValue n _
  have hset : setColumnValue A Q .secureValue (secureText n.toInt) = (secureOf (secureText n.toInt)).map A.signedCharValue.write := rfl
  have hbytes : ∀ m : Int8, n.toInt = m.toInt → A.signedCharValue.write m = Cell.bytes A (.secure n) := fun m hm => by
    rw [Int8.toInt_inj.mp hm]
    rfl
  rw [secureOf_secureText] at hset
  split_ifs at hset with h₁ h₂ h₃
  · exact (kept_of_text _ _ htext hset).mpr (hbytes (-1) h₁)
  · exact (kept_of_text _ _ htext hset).mpr (hbytes 0 h₂)
  · exact (kept_of_text _ _ htext hset).mpr (hbytes 1 h₃)
  · exact kept_of_throw _ _ htext hset

/-- Of the numbers of a byte the first six are accepted. -/
theorem statusOf_number : ∀ m < 256, statusOf (number (m : Nat)) = if m < 6 then some m else none := by
  decide +kernel

theorem kept_status (n : UInt32) : Kept A Q displayLen (.status n) ↔ n.toNat < 256 ∨ 6 ≤ n.toNat % 256 := by
  have htext : columnText A displayLen false (Cell.bytes A (.status n)) (Cell.type (.status n)) = some (number (n.toNat % 256 : Nat)) :=
    map_valueOf_write A.uint32Value n _
  have hset : setColumnValue A Q .statusValue (number (n.toNat % 256 : Nat)) =
      (statusOf (trimmed (number (n.toNat % 256 : Nat)))).map fun status => A.uint32Value.write (UInt32.ofNat status) := rfl
  rw [trimmed_number, statusOf_number _ (Nat.mod_lt _ (by decide))] at hset
  have hn := n.toNat_lt
  split_ifs at hset with h
  · rw [kept_of_text _ _ htext hset, Cell.bytes, write_inj_iff, ← UInt32.toNat_inj, UInt32.toNat_ofNat']
    omega
  · exact iff_of_true (kept_of_throw _ _ htext hset) (.inr (by omega))

/-! #### Strings -/

theorem fromUtf8_eq_self_iff (s : QString) : fromUtf8 s = s ↔ s.head? ≠ some bom := by
  refine ⟨fun h hbom => ?_, fromUtf8_eq_self⟩
  obtain ⟨t, rfl⟩ := List.head?_eq_some_iff.mp hbom
  have hlength := congrArg List.length h
  rw [fromUtf8_bom, List.length_cons] at hlength
  omega

theorem utf8_eq_iff {s t : QString} : s.utf8 = t.utf8 ↔ s = t := ⟨utf8_inj, congrArg _⟩

theorem kept_string (s : QString) :
    Kept A Q displayLen (.string s) ↔ s.head? ≠ some bom ∧ ¬ ['\\', 'r'] <:+: s ∧ ¬ ['\\', 'n'] <:+: s := by
  have htext : columnText A displayLen false (Cell.bytes A (.string s)) (Cell.type (.string s)) = some (escape (fromUtf8 s)) :=
    congrArg (fun s => some (escape s)) (A.stringValue_utf8 s)
  rw [kept_of_text _ _ htext rfl, unescape_escape, Cell.bytes, utf8_eq_iff]
  constructor
  · intro h
    have hsub := fromUtf8_sublist s
    have hlength := (length_collapse (fromUtf8 s)).1
    rw [h] at hlength
    have hself := hsub.eq_of_length (le_antisymm hsub.length_le hlength)
    rw [hself] at h
    exact ⟨(fromUtf8_eq_self_iff s).mp hself, (collapse_eq_self_iff s).mp h⟩
  · rintro ⟨hbom, h⟩
    rw [fromUtf8_eq_self hbom]
    exact (collapse_eq_self_iff s).mpr h

/-! #### Times -/

theorem stringToMicroseconds_timeNotSet (Q : ToDouble) : stringToMicroseconds Q timeNotSet = -1 := by
  have hsplit : timeNotSet.splitOn ' ' = ["time".toList, "not".toList, "set".toList, "(0)".toList] := by decide
  have hfields : fields "time".toList "not".toList = none := by decide
  rw [stringToMicroseconds, hsplit]
  dsimp only
  rw [fromTimestamp, hfields]
  rfl

theorem kept_timeMicroseconds (t : Time) :
    Kept A Q displayLen (.timeMicroseconds t) ↔ t.value ≠ 0 ∧ ¬ Cut (t.value.toInt % 60000000).toNat := by
  have htext : columnText A displayLen false (Cell.bytes A (.timeMicroseconds t)) (Cell.type (.timeMicroseconds t)) =
      some (if t.value = 0 then timeNotSet else microsecondsToString t.value.toInt true) :=
    congrArg (fun time : Int64 => some (if time = 0 then timeNotSet else microsecondsToString time.toInt true))
      (safeValueOf_write A.int64Value 0 t.value)
  split_ifs at htext with h
  · rw [kept_of_text _ _ htext rfl, stringToMicroseconds_timeNotSet, Cell.bytes, write_inj_iff, h]
    exact iff_of_false (by decide) fun h => h.1 rfl
  · rw [kept_of_text _ _ htext rfl, stringToMicroseconds_microsecondsToString Q t.isTime, Cell.bytes, write_inj_iff, readTime_eq_iff]
    exact ⟨fun hcut => ⟨h, hcut⟩, And.right⟩

theorem splitOn_secondsText (seconds : Int) :
    (secondsText seconds).splitOn ' ' = [dateText (gmtimeR seconds), clock (gmtimeR seconds)] := by
  have hdate : ' ' ∉ dateText (gmtimeR seconds) := fun h => by
    have := mem_dateText h
    revert this
    decide
  have hclock : ' ' ∉ clock (gmtimeR seconds) := fun h => by
    have := mem_clock h
    revert this
    decide
  rw [secondsText, List.splitOn_append_cons_self_of_not_mem hdate, List.splitOn_eq_singleton hclock]

/-- The time that was not set is no time. -/
theorem setColumnValue_timeNotSet : setColumnValue A Q .timeSeconds timeNotSet = some [] := by
  have hsplit : timeNotSet.splitOn ' ' = ["time".toList, "not".toList, "set".toList, "(0)".toList] := by decide
  have hfields : fields "time".toList "not".toList = none := by decide
  rw [setColumnValue, hsplit]
  dsimp only
  rw [hfields]

theorem setColumnValue_secondsText (t : Seconds) :
    setColumnValue A Q .timeSeconds (secondsText t.value.toNat) = some (A.uint64Value.write t.value) := by
  obtain ⟨tm, hfields, htm⟩ := t.fields_eq
  have hcast : UInt64.ofInt (t.value.toNat : Int) = t.value := by
    have hlt := t.value.toNat_lt
    have hmod : (t.value.toNat : Int) % 2 ^ 64 = t.value.toNat := by omega
    rw [UInt64.ofInt, hmod, Int.toNat_natCast, UInt64.ofNat_toNat]
  rw [setColumnValue, splitOn_secondsText]
  dsimp only
  rw [hfields]
  dsimp only
  rw [htm, hcast]

theorem Seconds.toInt (t : Seconds) : t.value.toInt64.toInt = t.value.toNat := by
  have hlt := t.lt
  have hlast : 86400 * (Calendar.daysBeforeYear 10000 - Calendar.daysBeforeYear 1970) < (2 ^ 62 : Int) := by decide
  have hsize : t.value.toNat < 2 ^ 63 := by omega
  show t.value.toBitVec.toInt = t.value.toNat
  rw [BitVec.toInt_eq_toNat_of_lt (by show 2 * t.value.toNat < 2 ^ 64; omega)]
  rfl

theorem kept_timeSeconds (t : Seconds) : Kept A Q displayLen (.timeSeconds t) ↔ t.value ≠ 0 := by
  have htext : columnText A displayLen false (Cell.bytes A (.timeSeconds t)) (Cell.type (.timeSeconds t)) =
      some (if t.value = 0 then timeNotSet else secondsText t.value.toInt64.toInt ++ []) :=
    map_valueOf_write A.uint64Value t.value _
  rw [t.toInt, List.append_nil] at htext
  split_ifs at htext with h
  · rw [kept_of_text _ _ htext setColumnValue_timeNotSet]
    refine iff_of_false (fun hnil => ?_) (not_not_intro h)
    have hlength := A.uint64Value_length t.value
    rw [show A.uint64Value.write t.value = [] from hnil.symm] at hlength
    cases hlength
  · rw [kept_of_text _ _ htext (setColumnValue_secondsText t)]
    exact iff_of_true rfl h

/-! #### Times with strings -/

/-- The length of a string in bytes, and how much a byte order mark takes of it. -/
theorem length_utf8_fromUtf8 (s : QString) : s.utf8.length ≤ (fromUtf8 s).utf8.length + 3 := by
  by_cases h : s.head? = some bom
  · obtain ⟨t, rfl⟩ := List.head?_eq_some_iff.mp h
    have hbom : (String.utf8EncodeChar bom).length = 3 := by decide
    rw [fromUtf8_bom, utf8, List.flatMap_cons, List.length_append, hbom, ← utf8]
    omega
  · rw [fromUtf8_eq_self h]
    omega

theorem length_le_utf8 : ∀ s : QString, s.length ≤ s.utf8.length
  | [] => le_rfl
  | c :: s => by
    have hs := length_le_utf8 s
    have hc := c.utf8Size_pos
    rw [utf8, List.flatMap_cons, List.length_append, String.length_utf8EncodeChar, ← utf8, List.length_cons]
    omega

/-- The number of a time stays in front of the string. -/
theorem utf8_numberText_ne (t : Int) (s : QString) : (numberText t ++ ' ' :: fromUtf8 s).utf8 ≠ s.utf8 := fun h => by
  have hnumber : 3 ≤ (numberText t).length := by
    have hne : (number t).length ≠ 0 := by
      unfold number
      split
      · simp
      · exact fun h => Nat.toDigits_ne_nil (List.length_eq_zero_iff.mp h)
    simp only [numberText, List.length_cons, List.length_append, List.length_nil]
    omega
  have hspace : (utf8 (' ' :: fromUtf8 s)).length = 1 + (fromUtf8 s).utf8.length := by
    rw [utf8, List.flatMap_cons, List.length_append, ← utf8]
    rfl
  have hlength := congrArg List.length h
  have hle := length_utf8_fromUtf8 s
  have hutf8 := length_le_utf8 (numberText t)
  rw [utf8, List.flatMap_append, List.length_append, ← utf8, ← utf8, hspace] at hlength
  omega

theorem join_splitOn (s : QString) : join ' ' (s.splitOn ' ') = s := List.intercalate_splitOn ' '

theorem join_numberText (t : Int) (s : QString) : join ' ' (numberText t :: s.splitOn ' ') = numberText t ++ ' ' :: s := by
  have hsplit : (numberText t ++ ' ' :: s).splitOn ' ' = numberText t :: s.splitOn ' ' :=
    List.splitOn_append_cons_self_of_not_mem (space_notMem_numberText t) s
  rw [← hsplit, join_splitOn]

/-- The bytes behind a time. -/
theorem drop_time (n : Int64) (b : Bytes) : (A.int64Value.write n ++ b).drop 8 = b :=
  List.drop_left' (A.int64Value_length n)

theorem time_append_inj {n m : Int64} {b c : Bytes} : A.int64Value.write n ++ b = A.int64Value.write m ++ c ↔ n = m ∧ b = c := by
  constructor
  · intro h
    obtain ⟨htime, hrest⟩ := List.append_inj h (by rw [A.int64Value_length, A.int64Value_length])
    exact ⟨write_inj A.int64Value htime, hrest⟩
  · rintro ⟨rfl, rfl⟩
    rfl

theorem kept_timeMicrosecondsAndString (t : Time) (s : QString) : ¬ Kept A Q displayLen (.timeMicrosecondsAndString t s) := by
  have htext : columnText A displayLen false (Cell.bytes A (.timeMicrosecondsAndString t s)) (Cell.type (.timeMicrosecondsAndString t s)) =
      some (microsecondsToString t.value.toInt true ++ ' ' :: fromUtf8 s) := by
    rw [← A.stringValue_utf8, ← drop_time (A := A) t.value s.utf8]
    nth_rewrite 1 [← safeValueOf_append A.int64Value 0 t.value s.utf8]
    rfl
  have hset : setColumnValue A Q .timeMicrosecondsAndString (microsecondsToString t.value.toInt true ++ ' ' :: fromUtf8 s) =
      some (A.int64Value.write (Int64.ofInt (readTime t.value.toInt)) ++ (numberText t.value.toInt ++ ' ' :: fromUtf8 s).utf8) := by
    rw [setColumnValue, splitOn_time t.isTime]
    dsimp only
    rw [fromTimestamp_timeText Q t.isTime, join_numberText]
  rw [kept_of_text _ _ htext hset]
  exact fun h => utf8_numberText_ne _ _ (time_append_inj.mp h).2

theorem kept_priorityAndTimeMicrosecondsAndString (priority : UInt8) (t : Time) (s : QString) :
    ¬ Kept A Q displayLen (.priorityAndTimeMicrosecondsAndString priority t s) := by
  have hpriority : ∀ b : Bytes, (A.unsignedCharValue.write priority ++ A.int64Value.write t.value ++ b).drop 1 = A.int64Value.write t.value ++ b :=
    fun b => by rw [List.append_assoc, List.drop_left' (A.unsignedCharValue_length priority)]
  have htext : columnText A displayLen false (Cell.bytes A (.priorityAndTimeMicrosecondsAndString priority t s)) .priorityAndTimeMicrosecondsAndString =
      some (number priority.toNat ++ ' ' :: microsecondsToString t.value.toInt true ++ ' ' :: fromUtf8 s) := by
    have hdrop : (A.unsignedCharValue.write priority ++ A.int64Value.write t.value ++ s.utf8).drop 9 = s.utf8 := by
      rw [show 9 = 1 + 8 from rfl, ← List.drop_drop, hpriority, drop_time]
    have hfirst : safeValueOf A.unsignedCharValue 0 (A.unsignedCharValue.write priority ++ A.int64Value.write t.value ++ s.utf8) = priority := by
      rw [List.append_assoc, safeValueOf_append]
    rw [columnText, Cell.bytes, hpriority, hdrop, safeValueOf_append, A.stringValue_utf8, hfirst]
  have hspace : ' ' ∉ number (priority.toNat : Int) := fun h => by
    have := isDigit_of_mem_number h
    revert this
    decide
  have hset : ∃ front, setColumnValue A Q .priorityAndTimeMicrosecondsAndString
      (number priority.toNat ++ ' ' :: microsecondsToString t.value.toInt true ++ ' ' :: fromUtf8 s) =
        some (A.unsignedCharValue.write (UInt8.ofInt priority.toNat) ++ A.int64Value.write front ++
          (numberText t.value.toInt ++ ' ' :: fromUtf8 s).utf8) := by
    have hbyte := priority.toNat_lt
    refine ⟨Int64.ofInt (readTime t.value.toInt), ?_⟩
    rw [setColumnValue, List.append_assoc, List.cons_append, List.splitOn_append_cons_self_of_not_mem hspace, splitOn_time t.isTime]
    dsimp only
    rw [fromTimestamp_timeText Q t.isTime, toInt_of_number (by omega) (by omega), join_numberText]
  obtain ⟨front, hset⟩ := hset
  rw [kept_of_text _ _ htext hset]
  refine fun h => utf8_numberText_ne _ _ (List.append_inj h ?_).2
  rw [List.length_append, List.length_append, A.unsignedCharValue_length, A.unsignedCharValue_length, A.int64Value_length, A.int64Value_length]

/-- The permissions are looked for behind the number of the time. -/
theorem permissions_eq {t : Int} (h : IsTime t) (s : QString) :
    permissions (microsecondsToString t true ++ ' ' :: s) = mid1 (s.dropWhile isSpace) := by
  have hfront : ')' ∉ dateText (gmtimeR (t / 1000000)) ++ ' ' :: (timeText t ++ ' ' :: '(' :: number t) := by
    have hdate : ')' ∉ dateText (gmtimeR (t / 1000000)) := fun h => by
      have := mem_dateText h
      revert this
      decide
    have htime : ')' ∉ timeText t := fun h => by
      have := mem_timeText h
      revert this
      decide
    have hnumber : ')' ∉ number t := fun h => by
      have := mem_number h
      revert this
      decide
    simp [hdate, htime, hnumber]
  have htext : microsecondsToString t true ++ ' ' :: s =
      (dateText (gmtimeR (t / 1000000)) ++ ' ' :: (timeText t ++ ' ' :: '(' :: number t)) ++ ')' :: ' ' :: s := by
    simp [microsecondsToString_eq h, numberText]
  have hspace : isSpace ' ' = true := by decide
  rw [htext, permissions, if_neg, dropWhile_ne_append hfront, dropWhile_ne_cons, List.tail_cons, List.dropWhile_cons_of_pos hspace]
  intro hhead
  refine hfront (List.mem_of_mem_head? ?_)
  rwa [List.head?_append_of_ne_nil _ (by simp)] at hhead

theorem kept_rights (t : Time) (s : QString) :
    Kept A Q displayLen (.rights t s) ↔ s = [] ∧ ¬ Cut (t.value.toInt % 60000000).toNat := by
  have htext : columnText A displayLen false (Cell.bytes A (.rights t s)) (Cell.type (.rights t s)) =
      some (microsecondsToString t.value.toInt true ++ ' ' :: escape (fromUtf8 s)) := by
    rw [← A.stringValue_utf8, ← drop_time (A := A) t.value s.utf8]
    nth_rewrite 1 [← safeValueOf_append A.int64Value 0 t.value s.utf8]
    rfl
  rw [kept_of_text _ _ htext rfl, stringToMicroseconds_time Q t.isTime, permissions_eq t.isTime, Cell.bytes, time_append_inj,
    readTime_eq_iff, utf8_eq_iff, mid1_escape_eq_iff, and_comm]

/-- The values that are not changed into others. -/
theorem kept_iff_lossless (cell : Cell) : Kept A Q displayLen cell ↔ cell.Lossless := by
  cases cell with
  | int8 n => exact iff_of_true (kept_int8 n) trivial
  | uint8 n => exact iff_of_true (kept_uint8 n) trivial
  | int16 n => exact kept_int16 n
  | uint16 n => exact kept_uint16 n
  | int32 n => exact iff_of_true (kept_int32 n) trivial
  | uint32 n => exact iff_of_true (kept_uint32 n) trivial
  | int64 n => exact iff_of_true (kept_int64 n) trivial
  | uint64 n => exact iff_of_true (kept_uint64 n) trivial
  | timeMicroseconds t => exact kept_timeMicroseconds t
  | timeSeconds t => exact kept_timeSeconds t
  | timeMicrosecondsAndString t s => exact iff_of_false (kept_timeMicrosecondsAndString t s) id
  | priorityAndTimeMicrosecondsAndString priority t s => exact iff_of_false (kept_priorityAndTimeMicrosecondsAndString priority t s) id
  | hexarray b => exact iff_of_true (kept_hexarray b) trivial
  | hexarrayLimited b => exact iff_of_true (kept_hexarrayLimited b) trivial
  | md5array b h => exact iff_of_true (kept_md5array b h) trivial
  | secure n => exact iff_of_true (kept_secure n) trivial
  | status n => exact kept_status n
  | string s => exact kept_string s
  | rights t s => exact kept_rights t s
  | binary b => exact iff_of_true (kept_binary b) trivial

end

/-! ### Editing -/

/-- The text of a value, unedited, is refused or makes the same bytes exactly when nothing of the value is lost. -/
theorem setColumnValue_getColumnValue_iff (A : Accessors) (Q : ToDouble) (displayLen : Nat) (cell : Cell) :
    (∀ b, setColumnValue A Q cell.type (getColumnValue A displayLen cell.type (cell.bytes A) false) = some b → b = cell.bytes A) ↔
      cell.Lossless :=
  kept_iff_lossless cell

theorem zero_lt_bufferMaxSize : 0 < 2 ^ 31 := Nat.two_pow_pos 31

theorem length_int64Value (n : Int64) : ((Cassvalue.network 0 zero_lt_bufferMaxSize).int64Value.write n).length = 8 := bigEndian_length _ 8

/-- Integers in network byte order. -/
def Accessors.network : Accessors where
  signedCharValue := (Cassvalue.network 0 zero_lt_bufferMaxSize).signedCharValue
  unsignedCharValue := .number 1 UInt8.toNat UInt8.ofNat UInt8.toNat_lt (fun n => by simp)
  int16Value := .number 2 (fun n => n.toUInt16.toNat) (fun n => (UInt16.ofNat n).toInt16) (fun n => n.toUInt16.toNat_lt) (fun n => by simp)
  uint16Value := (Cassvalue.network 0 zero_lt_bufferMaxSize).uint16Value
  int32Value := (Cassvalue.network 0 zero_lt_bufferMaxSize).int32Value
  uint32Value := (Cassvalue.network 0 zero_lt_bufferMaxSize).uint32Value
  int64Value := (Cassvalue.network 0 zero_lt_bufferMaxSize).int64Value
  uint64Value := .number 8 UInt64.toNat UInt64.ofNat UInt64.toNat_lt (fun n => by simp)
  floatText _ := none
  doubleText _ := none
  ofFloatText _ := []
  ofDoubleText _ := []
  stringValue b := fromUtf8 (decodeUtf8 0 b)
  unsignedCharValue_length n := bigEndian_length _ 1
  uint32Value_length n := bigEndian_length _ 4
  int64Value_length := length_int64Value
  uint64Value_length n := bigEndian_length _ 8
  stringValue_utf8 s := by rw [decodeUtf8_utf8]

/-- The double nearest to a number with a point in it. -/
def ToDouble.nearest : ToDouble where
  toDouble s := Double.round (Nat.ofDigitChars 10 (s.splitOn '.').flatten 0 / 10 ^ ((s.splitOn '.').getD 1 []).length)
  decimal a b _ _ ha hb := by
    have hsplit : (a ++ '.' :: b).splitOn '.' = [a, b] := by
      rw [List.splitOn_append_cons_self_of_not_mem (notMem_of_digits ha rfl), List.splitOn_eq_singleton (notMem_of_digits hb rfl)]
    rw [hsplit]
    simp

/-- 300 on 16 bits is printed as it is, and stored as 44. -/
theorem int16_not_kept :
    ¬ ∀ b, setColumnValue .network .nearest (Cell.int16 300).type
      (getColumnValue .network 64 (Cell.int16 300).type ((Cell.int16 300).bytes .network) false) = some b →
        b = (Cell.int16 300).bytes .network := fun h => by
  have hstored : [0, 44] = (Cell.int16 300).bytes .network := h _ (by decide +kernel)
  revert hstored
  decide +kernel

end Dbutils
end Snapwebsites
