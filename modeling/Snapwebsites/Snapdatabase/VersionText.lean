import Snapwebsites.Snapdatabase.ConvertRange

/-! # The text of a version

`string_to_version()`. The two numbers are read by `string_to_int()`, which takes more than decimal digits, and where something is skipped
in front of the major one, its text is taken with as many characters as there are in front of the period, so that it has the period too. -/

namespace Snapwebsites.Snapdatabase

open Loadavg (littleEndian littleEndian_mod littleEndian_length ofLittleEndian_littleEndian)

/-- The characters in front of the major number. -/
def versionSkip (value : Bytes) : Nat :=
  let skip := (value.takeWhile isSpace).length
  if value[skip]? = some 0x76 ∨ value[skip]? = some 0x56 then skip + 1 else skip

/-- A version with decimal digits, which may have spaces and a `v` in front. -/
structure VersionText where
  spaces : Bytes
  introducer : Bytes
  major : Bytes
  minor : Bytes
  spaces_space : ∀ c ∈ spaces, isSpace c = true
  introducer_v : introducer ∈ [[], [0x76], [0x56]]
  major_digit : ∀ c ∈ major, (NumberType.decimal.digit c).isSome = true
  minor_digit : ∀ c ∈ minor, (NumberType.decimal.digit c).isSome = true
  major_some : major ≠ []
  minor_some : minor ≠ []

/-- The value of decimal digits. -/
def decimalValue (digits : Bytes) : Nat := digitsValue 10 0 digits

namespace VersionText

def text (t : VersionText) : Bytes := t.spaces ++ t.introducer ++ t.major ++ 0x2E :: t.minor

/-- The numbers of a version. -/
def InRange (t : VersionText) : Prop := decimalValue t.major ≤ 65535 ∧ decimalValue t.minor ≤ 65535

instance (t : VersionText) : Decidable t.InRange := inferInstanceAs (Decidable (_ ∧ _))

/-- What the text is converted to. -/
def binary (t : VersionText) : Bytes := littleEndian 4 (decimalValue t.major * 65536 + decimalValue t.minor)

end VersionText

/-- The digits are read as decimal ones: there is no zero in front of a number that is more than seven. -/
def PlainDigits (digits : Bytes) : Prop := digits.head? ≠ some 0x30 ∨ decimalValue digits ≤ 7

/-- Nothing is in front of the digits, and they are read as decimal ones. -/
def VersionText.Plain (t : VersionText) : Prop := t.spaces = [] ∧ t.introducer = [] ∧ PlainDigits t.major ∧ PlainDigits t.minor

/-- Up to a null character, a text of a number without a minus that is on 16 bits when the number is taken on 512 bits. -/
def SmallNumber (number : Bytes) : Prop :=
  ∃ t : NumberText, cString number = t.text ∧ t.negative = false ∧ t.magnitude % 2 ^ 512 ≤ 65535

/-- A text with a small number, or no digits, on each side of the first period; where something is skipped in front, the major number
has to end at a null character. -/
def LooseVersion (value : Bytes) : Prop :=
  ∃ major minor, value = major ++ 0x2E :: minor ∧ 0x2E ∉ major ∧ (versionSkip value = 0 ∨ 0 ∈ major.drop (versionSkip value)) ∧
    SmallNumber (major.drop (versionSkip value)) ∧ SmallNumber minor

/-- What is said of a text: a version is converted, and nothing else. -/
def ConvertsVersion (library : StructType → Bytes → Except ConvertError Bytes) (value : Bytes) : Prop :=
  (∀ t : VersionText, value = t.text → t.InRange → stringToTypedBuffer library .version value = .ok t.binary) ∧
    ((∀ t : VersionText, value = t.text → ¬t.InRange) → ∃ e, stringToTypedBuffer library .version value = .error e)

/-! ### What is read -/

section
variable {value major minor out number : Bytes} {a b v : Uint512} {digits : Bytes} {c : UInt8}

theorem findIdx?_period (hmajor : 0x2E ∉ major) : (major ++ 0x2E :: minor).findIdx? (· = 0x2E) = some major.length := by
  have hnone : major.findIdx? (fun c => decide (c = 0x2E)) = none :=
    List.findIdx?_eq_none_iff.mpr fun c hc => decide_eq_false fun h => hmajor (h ▸ hc)
  rw [List.findIdx?_append, hnone, Option.none_or, List.findIdx?_cons, if_pos (decide_eq_true rfl), Option.map_some, Nat.zero_add]

theorem exists_period (h : value.findIdx? (· = 0x2E) ≠ none) : ∃ major minor, value = major ++ 0x2E :: minor ∧ 0x2E ∉ major := by
  induction value with
  | nil => exact absurd rfl h
  | cons c value ih =>
    by_cases hc : c = 0x2E
    · exact ⟨[], value, by rw [hc]; rfl, List.not_mem_nil⟩
    · rw [List.findIdx?_cons, if_neg (by rwa [decide_eq_true_iff])] at h
      obtain ⟨major, minor, rfl, hmajor⟩ := ih fun hnone => h (by rw [hnone]; rfl)
      exact ⟨c :: major, minor, rfl, List.not_mem_cons_of_ne_of_not_mem (Ne.symm hc) hmajor⟩

theorem bitSize_le_sixteen : a.bitSize ≤ 16 ↔ a.toNat < 131072 := by
  rw [Uint512.bitSize_eq]
  rcases Nat.eq_zero_or_pos a.toNat with hzero | hpos
  · rw [hzero]
    decide
  · exact Nat.lt_succ_iff.symm.trans (Nat.log2_lt (Nat.ne_of_gt hpos))

/-- What the two numbers of a version have to be. -/
theorem stringToVersion_ok_iff (hmajor : 0x2E ∉ major) : stringToVersion (major ++ 0x2E :: minor) = .ok out ↔
    ∃ a b, stringToInt (((major ++ 0x2E :: minor).drop (versionSkip (major ++ 0x2E :: minor))).take major.length) false = .ok a ∧
      stringToInt minor false = .ok b ∧ a.toNat ≤ 65535 ∧ b.toNat ≤ 65535 ∧ out = littleEndian 4 (a.toNat * 65536 + b.toNat) := by
  obtain ⟨value, hvalue⟩ : ∃ value, major ++ 0x2E :: minor = value := ⟨_, rfl⟩
  have hperiod := @findIdx?_period _ minor hmajor
  have hminor : value.drop (major.length + 1) = minor := by
    rw [← hvalue, List.drop_length_add_append]
    rfl
  rw [hvalue] at hperiod ⊢
  have hbody : stringToVersion value = do
      let a ← stringToInt ((value.drop (versionSkip value)).take major.length) false
      let b ← stringToInt minor false
      if a.bitSize > 16 ∨ b.bitSize > 16 then throw .outOfRange
      if (a.low.setWidth 32).toInt < 0 ∨ (a.low.setWidth 32).toInt ≥ 65536 ∨ (b.low.setWidth 32).toInt < 0 ∨
        (b.low.setWidth 32).toInt ≥ 65536 then throw .invalidParameter
      return littleEndian 4 ((a.low.setWidth 32).toInt.toNat * 65536 + (b.low.setWidth 32).toInt.toNat) := by
    rw [stringToVersion, hperiod, ← hminor]
    rfl
  rw [hbody]
  cases ha : stringToInt ((value.drop (versionSkip value)).take major.length) false with
  | error e => exact iff_of_false (fun h => by cases h) fun ⟨a, b, h, _⟩ => by cases h
  | ok a =>
    cases hb : stringToInt minor false with
    | error e => exact iff_of_false (fun h => by cases h) fun ⟨a, b, _, h, _⟩ => by cases h
    | ok b =>
      dsimp only [bind, Except.bind]
      by_cases hlarge : a.bitSize > 16 ∨ b.bitSize > 16
      · rw [if_pos hlarge]
        refine iff_of_false (fun h => by cases h) ?_
        rintro ⟨a', b', ha', hb', hleft, hright, -⟩
        cases ha'
        cases hb'
        have hleft' := bitSize_le_sixteen.mpr (show a.toNat < 131072 by omega)
        have hright' := bitSize_le_sixteen.mpr (show b.toNat < 131072 by omega)
        omega
      · have ha' := a.toInt_low (Nat.lt_of_lt_of_le (bitSize_le_sixteen.mp (show a.bitSize ≤ 16 by omega)) (by decide))
        have hb' := b.toInt_low (Nat.lt_of_lt_of_le (bitSize_le_sixteen.mp (show b.bitSize ≤ 16 by omega)) (by decide))
        rw [if_neg hlarge, ha', hb']
        by_cases hout : ((a.toNat : Int) < 0 ∨ (a.toNat : Int) ≥ 65536 ∨ (b.toNat : Int) < 0 ∨ (b.toNat : Int) ≥ 65536)
        · rw [if_pos hout]
          refine iff_of_false (fun h => by cases h) ?_
          rintro ⟨a', b', ha', hb', hleft, hright, -⟩
          cases ha'
          cases hb'
          omega
        · rw [if_neg hout]
          constructor
          · intro h
            cases h
            exact ⟨a, b, rfl, rfl, by omega, by omega, rfl⟩
          · rintro ⟨a', b', ha', hb', -, -, rfl⟩
            cases ha'
            cases hb'
            rfl

/-! ### Decimal digits -/

theorem le_digitsValue {base n : Nat} (hbase : 0 < base) (digits : Bytes) : n ≤ digitsValue base n digits := by
  induction digits generalizing n with
  | nil => exact Nat.le_refl n
  | cons c digits ih => exact (Nat.le_add_right_of_le (Nat.le_mul_of_pos_right n hbase)).trans ih

/-- No digit is more than the number. -/
theorem digitValue_le {base n : Nat} (hbase : 0 < base) (h : c ∈ digits) : digitValue c ≤ digitsValue base n digits := by
  induction digits generalizing n with
  | nil => cases h
  | cons b digits ih =>
    rcases List.mem_cons.mp h with rfl | h
    · exact (Nat.le_add_left _ _).trans (le_digitsValue hbase digits)
    · exact ih h

theorem octal_le_decimal {n m : Nat} (h : n ≤ m) (digits : Bytes) : digitsValue 8 n digits ≤ digitsValue 10 m digits := by
  induction digits generalizing n m with
  | nil => exact h
  | cons c digits ih => exact ih (Nat.add_le_add_right (Nat.mul_le_mul h (by decide)) _)

theorem octal_digit (h : (NumberType.octal.digit c).isSome = true) : digitValue c ≤ 7 := by
  grind [NumberType.digit, digitValue, UInt8.le_iff_toNat_le]

theorem octal_of_decimal (h : (NumberType.decimal.digit c).isSome = true) (hle : digitValue c ≤ 7) :
    (NumberType.octal.digit c).isSome = true := by
  grind [NumberType.digit, digitValue, UInt8.le_iff_toNat_le]

/-- Octal digits are the same decimal number where all but the last one are zeros. -/
theorem octal_eq_decimal_iff (hdigits : ∀ c ∈ digits, (NumberType.octal.digit c).isSome = true) :
    digitsValue 8 0 digits = decimalValue digits ↔ decimalValue digits ≤ 7 := by
  rcases List.eq_nil_or_concat digits with rfl | ⟨init, c, hconcat⟩
  · decide
  · rw [List.concat_eq_append] at hconcat
    subst hconcat
    have hle := octal_le_decimal (Nat.le_refl 0) init
    have hc := octal_digit (hdigits c (List.mem_append_right _ List.mem_cons_self))
    rw [decimalValue, digitsValue_concat, digitsValue_concat]
    omega

theorem decimal_next (hdigits : ∀ c ∈ digits, (NumberType.decimal.digit c).isSome = true) :
    readIntroducer (0x30 :: digits) = (.octal, false, digits) := by
  have hnext : ∀ c, digits.head? = some c → c ≠ 0x78 ∧ c ≠ 0x58 ∧ c ≠ 0x62 ∧ c ≠ 0x42 := fun c hc => by
    have hdigit := hdigits c (List.mem_of_mem_head? hc)
    grind [NumberType.digit]
  have hhex : ¬(digits.head? = some 0x78 ∨ digits.head? = some 0x58) := fun h =>
    h.elim (fun h => (hnext _ h).1 rfl) fun h => (hnext _ h).2.1 rfl
  have hbinary : ¬(digits.head? = some 0x62 ∨ digits.head? = some 0x42) := fun h =>
    h.elim (fun h => (hnext _ h).2.2.1 rfl) fun h => (hnext _ h).2.2.2 rfl
  exact (if_pos rfl).trans ((if_neg hhex).trans (if_neg hbinary))

/-- Behind a zero, octal digits are read. -/
theorem stringToInt_zero (hdigits : ∀ c ∈ digits, (NumberType.decimal.digit c).isSome = true) : stringToInt (0x30 :: digits) false =
    if (readDigits .octal 0 digits).2 = [] then .ok (readDigits .octal 0 digits).1 else .error .invalidNumber := by
  have hnumber : cString (0x30 :: digits) = 0x30 :: digits := cString_eq fun c hc => by
    rcases List.mem_cons.mp hc with rfl | hc
    · decide
    · exact (digit_ne (hdigits c hc)).1
  have hspace : (0x30 :: digits).dropWhile isSpace = 0x30 :: digits := List.dropWhile_cons_of_neg (by decide)
  have hsign : readSign false (0x30 :: digits) = .ok (false, 0x30 :: digits) := rfl
  rw [stringToInt, hnumber, hspace, hsign]
  dsimp only [bind, Except.bind]
  rw [decimal_next hdigits]
  obtain ⟨front, hsplit, -⟩ := readDigits_split .octal 0 digits
  cases hrest : (readDigits .octal 0 digits).2 with
  | nil => rfl
  | cons c rest =>
    rw [hrest] at hsplit
    have hc : isSpace c = false := by
      obtain ⟨-, -, -, -, -, -, -, hc⟩ := digit_ne (hdigits c (hsplit ▸ List.mem_append_right _ List.mem_cons_self))
      exact hc
    have hdrop : (c :: rest).dropWhile isSpace = c :: rest := List.dropWhile_cons_of_neg (by rw [hc]; exact Bool.false_ne_true)
    simp only [closeQuote, Bool.false_eq_true, if_false]
    rw [hdrop, if_pos (List.cons_ne_nil _ _), if_neg (List.cons_ne_nil _ _)]
    rfl

/-- Decimal digits are read as they are where they do not start with a zero, or where only the last one is not a zero, and octal. -/
theorem stringToInt_decimal (hsome : digits ≠ []) (hdigits : ∀ c ∈ digits, (NumberType.decimal.digit c).isSome = true)
    (hle : decimalValue digits ≤ 65535) :
    (∃ v, stringToInt digits false = .ok v ∧ v.toNat = decimalValue digits) ↔ digits.head? ≠ some 0x30 ∨ decimalValue digits ≤ 7 := by
  have hmod : ∀ {n : Nat}, n ≤ 65535 → n % 2 ^ 512 = n := fun {n} hn =>
    Nat.mod_eq_of_lt (Uint512.lt_two_pow_of_le (a := 16) (Nat.lt_succ_of_le hn) (by decide))
  by_cases hzero : digits.head? = some 0x30
  · obtain ⟨tail, rfl⟩ : ∃ tail, digits = 0x30 :: tail := ⟨_, head?_eq_some hzero⟩
    obtain ⟨-, htail⟩ := List.forall_mem_cons.mp hdigits
    have hvalue : decimalValue (0x30 :: tail) = decimalValue tail := rfl
    rw [hvalue] at hle ⊢
    rw [stringToInt_zero htail]
    by_cases hoctal : ∀ c ∈ tail, (NumberType.octal.digit c).isSome = true
    · obtain ⟨hnumber, hleft⟩ := @readDigits_append _ _ [] hoctal (fun _ h => by cases h) 0
      have hsmall := octal_le_decimal (Nat.le_refl 0) tail
      rw [List.append_nil] at hnumber hleft
      rw [Uint512.toNat_zero, NumberType.base, hmod (hsmall.trans hle)] at hnumber
      rw [if_pos hleft]
      constructor
      · rintro ⟨v, hv, heq⟩
        cases hv
        exact .inr ((octal_eq_decimal_iff hoctal).mp (hnumber.symm.trans heq))
      · rintro (h | h)
        · exact absurd rfl h
        · exact ⟨_, rfl, hnumber.trans ((octal_eq_decimal_iff hoctal).mpr h)⟩
    · have hleft : (readDigits .octal 0 tail).2 ≠ [] := fun h => hoctal <| by
        obtain ⟨front, hsplit, hfront⟩ := readDigits_split .octal 0 tail
        rw [h, List.append_nil] at hsplit
        rwa [hsplit]
      rw [if_neg hleft]
      refine iff_of_false (by rintro ⟨v, hv, -⟩; cases hv) ?_
      rintro (h | h)
      · exact h rfl
      · exact hoctal fun c hc => octal_of_decimal (htail c hc) ((digitValue_le (by decide) hc).trans h)
  · obtain ⟨t, ht⟩ : ∃ t, NumberText.ofDigits none .decimal digits hdigits (fun _ => hzero) = t := ⟨_, rfl⟩
    have htext : cString digits = t.text := by
      rw [cString_eq fun c hc => (digit_ne (hdigits c hc)).1, ← ht, NumberText.text]
      exact ((List.append_nil _).trans (List.append_nil _)).symm
    have hpositive : t.negative = false := by rw [← ht]; rfl
    have hread := @stringToInt_text _ false t htext
    rw [if_neg fun h => by rw [hpositive] at h; cases h.1] at hread
    obtain ⟨v, hv, hvalue⟩ := hread
    have hmagnitude : t.magnitude = decimalValue digits := by rw [← ht]; rfl
    have hnumber : v.toNat = decimalValue digits := by
      rw [t.value_of_not_negative (by rw [hpositive]; exact Bool.false_ne_true), ← emod_two_pow, hmagnitude, hmod hle] at hvalue
      exact Int.ofNat_inj.mp hvalue
    exact iff_of_true ⟨v, hv, hnumber⟩ (.inl hzero)

/-! ### What is in front of the major number -/

theorem versionSkip_eq_zero : versionSkip value = 0 ↔ ∀ c, value.head? = some c → isSpace c = false ∧ c ≠ 0x76 ∧ c ≠ 0x56 := by
  cases value with
  | nil => exact iff_of_true rfl fun c h => by cases h
  | cons c value =>
    unfold versionSkip
    by_cases hspace : isSpace c = true
    · rw [List.takeWhile_cons_of_pos hspace]
      refine iff_of_false ?_ fun h => by have := (h c rfl).1; rw [hspace] at this; cases this
      dsimp only [List.length_cons]
      split <;> omega
    · rw [List.takeWhile_cons_of_neg hspace]
      dsimp only [List.length_nil, List.getElem?_cons_zero]
      split
      · rename_i hv
        refine iff_of_false (by decide) fun h => ?_
        rcases hv with hv | hv
        · exact (h c rfl).2.1 (Option.some.inj hv)
        · exact (h c rfl).2.2 (Option.some.inj hv)
      · rename_i hv
        refine iff_of_true rfl fun b hb => ?_
        obtain rfl := Option.some.inj hb
        exact ⟨Bool.eq_false_iff.mpr hspace, fun h => hv (.inl (congrArg some h)), fun h => hv (.inr (congrArg some h))⟩

theorem versionSkip_le (major minor : Bytes) : versionSkip (major ++ 0x2E :: minor) ≤ major.length := by
  have hspaces : ((major ++ 0x2E :: minor).takeWhile isSpace).length ≤ major.length := by
    rw [List.takeWhile_append]
    split
    · have hperiod : (0x2E :: minor).takeWhile isSpace = [] := List.takeWhile_cons_of_neg (by decide)
      rw [hperiod, List.append_nil]
    · exact (List.takeWhile_prefix _).length_le
  unfold versionSkip
  dsimp only
  split
  · rename_i hv
    rcases Nat.eq_or_lt_of_le hspaces with heq | hlt
    · rw [heq, List.getElem?_append_right (Nat.le_refl _), Nat.sub_self] at hv
      rcases hv with hv | hv <;> cases hv
    · exact hlt
  · exact hspaces

/-- With something in front, the period is taken too. -/
theorem take_skipped {skip : Nat} (hskip : 0 < skip) (hle : skip ≤ major.length) :
    ∃ rest, ((major ++ 0x2E :: minor).drop skip).take major.length = major.drop skip ++ 0x2E :: rest := by
  have hdrop : (major ++ 0x2E :: minor).drop skip = major.drop skip ++ 0x2E :: minor := List.drop_append_of_le_length hle
  have hroom : major.length - (major.drop skip).length = skip - 1 + 1 := by
    rw [List.length_drop]
    omega
  refine ⟨minor.take (skip - 1), ?_⟩
  rw [hdrop, List.take_append, List.take_of_length_le (by rw [List.length_drop]; omega), hroom, List.take_succ_cons]

theorem cString_append_cons (h : 0 ∉ major) : cString (major ++ 0x2E :: minor) = major ++ 0x2E :: cString minor := by
  have hmajor : ∀ c ∈ major, decide (c ≠ 0) = true := fun c hc => decide_eq_true fun hzero => h (hzero ▸ hc)
  rw [cString, List.takeWhile_append_of_pos hmajor, List.takeWhile_cons_of_pos (by decide)]
  rfl

theorem cString_append_of_mem (h : 0 ∈ major) (rest : Bytes) : cString (major ++ rest) = cString major := by
  induction major with
  | nil => cases h
  | cons c major ih =>
    by_cases hc : c = 0
    · have hstop : ∀ l : Bytes, cString (c :: l) = [] := fun l => List.takeWhile_cons_of_neg (by rw [hc]; decide)
      rw [List.cons_append, hstop, hstop]
    · have hnext : ∀ l : Bytes, cString (c :: l) = c :: cString l := fun l => List.takeWhile_cons_of_pos (decide_eq_true hc)
      rcases List.mem_cons.mp h with h | h
      · exact absurd h.symm hc
      · rw [List.cons_append, hnext, hnext, ih h]

/-- A number with a period is refused. -/
theorem stringToInt_period (h : 0 ∉ major) : stringToInt (major ++ 0x2E :: minor) false ≠ .ok v := fun hok => by
  obtain ⟨t, ht, -⟩ := stringToInt_ok hok
  rw [cString_append_cons h] at ht
  exact (t.mem_text (c := 0x2E) (ht ▸ List.mem_append_right _ List.mem_cons_self)).2 rfl

theorem stringToInt_cString (h : cString number = cString major) : stringToInt number false = stringToInt major false := by
  rw [stringToInt, stringToInt, h]

/-- Where something is skipped, the major number is read only with a null character behind it. -/
theorem stringToInt_major (major minor : Bytes) {skip : Nat} (hskip : skip = versionSkip (major ++ 0x2E :: minor)) :
    stringToInt (((major ++ 0x2E :: minor).drop skip).take major.length) false = .ok v ↔
      (skip = 0 ∨ 0 ∈ major.drop skip) ∧ stringToInt (major.drop skip) false = .ok v := by
  rcases Nat.eq_zero_or_pos skip with hzero | hpos
  · rw [hzero, List.drop_zero, List.drop_zero, List.take_left' rfl]
    exact (and_iff_right (.inl rfl)).symm
  · obtain ⟨rest, hrest⟩ := @take_skipped _ minor _ hpos (hskip ▸ versionSkip_le major minor)
    rw [hrest]
    by_cases hnull : 0 ∈ major.drop skip
    · rw [stringToInt_cString (cString_append_of_mem hnull _)]
      exact (and_iff_right (.inr hnull)).symm
    · exact iff_of_false (stringToInt_period hnull) fun h => h.1.elim (Nat.ne_of_gt hpos) hnull

theorem smallNumber_iff : SmallNumber number ↔ ∃ v, stringToInt number false = .ok v ∧ v.toNat ≤ 65535 := by
  have hvalue : ∀ {t : NumberText} {v : Uint512}, t.negative = false → (v.toNat : Int) = t.value % 2 ^ 512 →
      v.toNat = t.magnitude % 2 ^ 512 := fun {t v} hpositive hv => by
    rw [t.value_of_not_negative (by rw [hpositive]; exact Bool.false_ne_true), ← emod_two_pow] at hv
    exact Int.ofNat_inj.mp hv
  constructor
  · rintro ⟨t, htext, hpositive, hle⟩
    have hread := @stringToInt_text _ false t htext
    rw [if_neg fun h => by rw [hpositive] at h; cases h.1] at hread
    obtain ⟨v, hv, hnumber⟩ := hread
    exact ⟨v, hv, (hvalue hpositive hnumber).trans_le hle⟩
  · rintro ⟨v, hv, hle⟩
    obtain ⟨t, htext, haccept⟩ := stringToInt_ok hv
    have hpositive : t.negative = false := Bool.eq_false_iff.mpr fun h => Bool.false_ne_true (haccept h)
    have hread := @stringToInt_text _ false t htext
    rw [if_neg fun h => by rw [hpositive] at h; cases h.1] at hread
    obtain ⟨v', hv', hnumber⟩ := hread
    obtain rfl := Except.ok.inj (hv.symm.trans hv')
    exact ⟨t, htext, hpositive, (hvalue hpositive hnumber).symm.trans_le hle⟩

/-- What is accepted. -/
theorem stringToVersion_ok : (∃ out, stringToVersion value = .ok out) ↔ LooseVersion value := by
  constructor
  · rintro ⟨out, hout⟩
    have hperiod : value.findIdx? (· = 0x2E) ≠ none := fun hnone => by
      rw [stringToVersion, hnone] at hout
      cases hout
    obtain ⟨major, minor, rfl, hmajor⟩ := exists_period hperiod
    obtain ⟨a, b, ha, hb, hleft, hright, -⟩ := (stringToVersion_ok_iff hmajor).mp hout
    obtain ⟨hfront, ha⟩ := (stringToInt_major major minor rfl).mp ha
    exact ⟨major, minor, rfl, hmajor, hfront, smallNumber_iff.mpr ⟨a, ha, hleft⟩, smallNumber_iff.mpr ⟨b, hb, hright⟩⟩
  · rintro ⟨major, minor, rfl, hmajor, hfront, ha, hb⟩
    obtain ⟨a, ha, hleft⟩ := smallNumber_iff.mp ha
    obtain ⟨b, hb, hright⟩ := smallNumber_iff.mp hb
    exact ⟨_, (stringToVersion_ok_iff hmajor).mpr ⟨a, b, (stringToInt_major major minor rfl).mpr ⟨hfront, ha⟩, hb, hleft, hright, rfl⟩⟩

/-! ### Versions -/

namespace VersionText
variable {t : VersionText}

theorem text_eq (t : VersionText) : t.text = (t.spaces ++ t.introducer ++ t.major) ++ 0x2E :: t.minor := rfl

/-- Nothing in front of the period is one, or a null character. -/
theorem mem_front (t : VersionText) (h : c ∈ t.spaces ++ t.introducer ++ t.major) : c ≠ 0 ∧ c ≠ 0x2E := by
  rcases List.mem_append.mp h with h | h
  · rcases List.mem_append.mp h with h | h
    · obtain ⟨hzero, -, -, hperiod, -⟩ := space_ne (t.spaces_space c h)
      exact ⟨hzero, hperiod⟩
    · have hv := t.introducer_v
      grind
  · obtain ⟨hzero, -, -, -, hperiod, -⟩ := digit_ne (t.major_digit c h)
    exact ⟨hzero, hperiod⟩

/-- Spaces and the introducer are skipped. -/
theorem skip_eq_zero (t : VersionText) : versionSkip t.text = 0 ↔ t.spaces = [] ∧ t.introducer = [] := by
  rw [versionSkip_eq_zero]
  constructor
  · intro h
    have hspaces : t.spaces = [] := by
      cases hs : t.spaces with
      | nil => rfl
      | cons c spaces =>
        have hc := t.spaces_space c (hs ▸ List.mem_cons_self)
        rw [(h c (by rw [text, hs]; rfl)).1] at hc
        cases hc
    refine ⟨hspaces, ?_⟩
    have hv := t.introducer_v
    cases hintroducer : t.introducer with
    | nil => rfl
    | cons c introducer =>
      obtain ⟨-, hlower, hupper⟩ := h c (by rw [text, hspaces, hintroducer]; rfl)
      rw [hintroducer] at hv
      simp only [List.mem_cons, List.cons_ne_nil, List.cons.injEq, List.not_mem_nil, or_false, false_or] at hv
      exact hv.elim (fun h => absurd h.1 hlower) fun h => absurd h.1 hupper
  · rintro ⟨hspaces, hintroducer⟩ c hc
    have hfirst : c ∈ t.major := by
      rw [text, hspaces, hintroducer, List.nil_append, List.nil_append] at hc
      exact (head?_append_cases hc).elim id fun h => absurd h.1 t.major_some
    obtain ⟨-, -, -, -, -, -, -, hspace⟩ := digit_ne (t.major_digit c hfirst)
    have hdigit := t.major_digit c hfirst
    exact ⟨hspace, by grind [NumberType.digit]⟩

/-- Two versions in the same bytes are one. -/
theorem binary_inj {a b c d : Nat} (ha : a ≤ 65535) (hb : b ≤ 65535) (hc : c ≤ 65535) (hd : d ≤ 65535)
    (h : littleEndian 4 (a * 65536 + b) = littleEndian 4 (c * 65536 + d)) : a = c ∧ b = d := by
  have heq := congrArg Loadavg.ofLittleEndian h
  rw [ofLittleEndian_littleEndian, ofLittleEndian_littleEndian, Nat.mod_eq_of_lt (by omega), Nat.mod_eq_of_lt (by omega)] at heq
  omega

/-- Only plain texts are converted as they are. -/
theorem stringToVersion_iff (hrange : t.InRange) : stringToVersion t.text = .ok t.binary ↔ t.Plain := by
  have hperiod : 0x2E ∉ t.spaces ++ t.introducer ++ t.major := fun h => (t.mem_front h).2 rfl
  have hmajor := stringToInt_decimal t.major_some t.major_digit hrange.1
  have hminor := stringToInt_decimal t.minor_some t.minor_digit hrange.2
  have hread := fun v => stringToInt_major (v := v) (t.spaces ++ t.introducer ++ t.major) t.minor rfl
  have hzero := t.skip_eq_zero
  rw [t.text_eq] at hzero ⊢
  rw [stringToVersion_ok_iff hperiod]
  constructor
  · rintro ⟨a, b, ha, hb, hleft, hright, heq⟩
    obtain ⟨hfront, ha⟩ := (hread a).mp ha
    have hskip := hfront.resolve_right fun hnull => (t.mem_front (List.mem_of_mem_drop hnull)).1 rfl
    obtain ⟨hspaces, hintroducer⟩ := hzero.mp hskip
    rw [hskip, hspaces, hintroducer, List.nil_append, List.nil_append, List.drop_zero] at ha
    obtain ⟨hleft', hright'⟩ := binary_inj hrange.1 hrange.2 hleft hright heq
    exact ⟨hspaces, hintroducer, hmajor.mp ⟨a, ha, hleft'.symm⟩, hminor.mp ⟨b, hb, hright'.symm⟩⟩
  · rintro ⟨hspaces, hintroducer, hplain, hplain'⟩
    obtain ⟨a, ha, hleft⟩ := hmajor.mpr hplain
    obtain ⟨b, hb, hright⟩ := hminor.mpr hplain'
    have hskip := hzero.mpr ⟨hspaces, hintroducer⟩
    refine ⟨a, b, (hread a).mpr ⟨.inl hskip, ?_⟩, hb, hleft.trans_le hrange.1, hright.trans_le hrange.2, ?_⟩
    · rwa [hskip, hspaces, hintroducer, List.nil_append, List.nil_append, List.drop_zero]
    · rw [hleft, hright]
      rfl

end VersionText

/-- Versions are converted, and nothing else is, exactly where a text of a version that is in range has nothing in front of it and no
octal digits, and another text is not one of two small numbers. -/
theorem convertsVersion_iff (library : StructType → Bytes → Except ConvertError Bytes) (value : Bytes) : ConvertsVersion library value ↔
    (∀ t : VersionText, value = t.text → t.InRange → t.Plain) ∧
      ((∀ t : VersionText, value = t.text → ¬t.InRange) → ¬LooseVersion value) := by
  have htype : stringToTypedBuffer library .version value = stringToVersion value := rfl
  rw [ConvertsVersion, htype]
  refine and_congr (forall_congr' fun t => forall_congr' fun htext => forall_congr' fun hrange => ?_) (forall_congr' fun _ => ?_)
  · rw [htext]
    exact VersionText.stringToVersion_iff hrange
  · rw [← stringToVersion_ok]
    cases stringToVersion value with
    | error e => exact iff_of_true ⟨e, rfl⟩ fun ⟨out, h⟩ => by cases h
    | ok out => exact iff_of_false (fun ⟨e, h⟩ => by cases h) fun h => h ⟨out, rfl⟩

/-- v1.2, a text. -/
def textV12 : VersionText where
  spaces := []
  introducer := [0x76]
  major := [0x31]
  minor := [0x32]
  spaces_space := List.all_eq_true.mp rfl
  introducer_v := by decide
  major_digit := List.all_eq_true.mp rfl
  minor_digit := List.all_eq_true.mp rfl
  major_some := by decide
  minor_some := by decide

/-- v1.2 is refused. -/
theorem not_convertsVersion : ¬∀ (library : StructType → Bytes → Except ConvertError Bytes) (value : Bytes),
    ConvertsVersion library value := by
  intro hall
  obtain ⟨hplain, -⟩ := (hall (fun _ _ => .error .logicError) textV12.text)
  have hconverted := hplain textV12 rfl (by decide)
  obtain ⟨-, hintroducer, -⟩ := (VersionText.stringToVersion_iff (t := textV12) (by decide)).mp hconverted
  cases hintroducer

end

end Snapwebsites.Snapdatabase
