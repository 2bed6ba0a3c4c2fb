import Snapwebsites.Snapdatabase.ConvertText

/-! # The round trip of texts

Binary and octal texts are read back. The division by ten goes on below ten, so that it makes more digits than there are, and a
hexadecimal digit has all the bits above it too: from eleven and from ten on, these texts are those of other numbers, or of none. -/

namespace Snapwebsites.Snapdatabase

section
variable {v : Uint512} {base m : Nat} {signed : Bool} {w : Nat} {n : Int} {type : StructType} {l ds rest : Bytes} {c : UInt8}
variable {print read : StructType → Bytes → Except ConvertError Bytes}

/-- A text with the digits of `m` is printed for `v`. -/
def Prints (v : Uint512) (base m : Nat) : Prop := ∃ (form : NumberForm) (digits : Bytes), form.isQuoted = false ∧
  (∀ c ∈ digits, (form.type.digit c).isSome = true) ∧ (form = .decimal → digits.head? ≠ some 0x30) ∧
    numberToString v base = .ok (form.introducer ++ digits) ∧ digitsValue form.type.base 0 digits = m

theorem prints_zero (hv : v.toNat = 0) (base : Nat) : Prints v base 0 :=
  ⟨.octal, [], rfl, fun _ hc => absurd hc List.not_mem_nil, fun h => (by cases h), if_pos (Uint512.isZero_iff.mpr hv), rfl⟩

theorem numberToString_of_pos (hv : v.toNat ≠ 0) : numberToString v 2 = .ok ([0x30, 0x62] ++ (shiftDigits .binary v).reverse) ∧
    numberToString v 8 = .ok ([0x30] ++ (shiftDigits .octal v).reverse) ∧
    numberToString v 10 = (do let digits ← decimalDigits v; pure digits.reverse) ∧
    numberToString v 16 = .ok ([0x30, 0x78] ++ (shiftDigits .hexadecimal v).reverse) := by
  have hsome : ¬v.isZero = true := mt Uint512.isZero_iff.mp hv
  exact ⟨if_neg hsome, if_neg hsome, if_neg hsome, if_neg hsome⟩

theorem prints_binary (v : Uint512) : Prints v 2 v.toNat := by
  by_cases hv : v.toNat = 0
  · rw [hv]
    exact prints_zero hv 2
  · obtain ⟨hdigits, hvalue⟩ := shiftDigits_value (.inl rfl) v
    exact ⟨.binary false, _, rfl, hdigits, fun h => (by cases h), (numberToString_of_pos hv).1, hvalue⟩

theorem prints_octal (v : Uint512) : Prints v 8 v.toNat := by
  by_cases hv : v.toNat = 0
  · rw [hv]
    exact prints_zero hv 8
  · obtain ⟨hdigits, hvalue⟩ := shiftDigits_value (.inr rfl) v
    exact ⟨.octal, _, rfl, hdigits, fun h => (by cases h), (numberToString_of_pos hv).2.1, hvalue⟩

theorem InIntegerRange.signed_of_neg (hin : InIntegerRange signed w n) (hn : n < 0) : signed = true := by
  cases signed with
  | true => rfl
  | false => exact absurd hin.1 (Int.not_le.mpr hn)

/-- Where its own digits are printed, a number makes the round trip. -/
theorem roundTrips_of_prints (h : type.integer? = some (signed, w)) (hin : InIntegerRange signed w n) (hwide : n < 0 → 64 ≤ w)
    (hprints : Prints (printedNumber w n) base (printedNumber w n).toNat) : RoundTripsText print read type w n base := by
  obtain ⟨form, digits, hquoted, hdigits, hfirst, hprint, hvalue⟩ := hprints
  have hread := stringToInt_ofDigits (n := n) hquoted hdigits hfirst hin.signed_of_neg
  rw [hvalue] at hread
  exact roundTrips_of_read h hin hwide hprint hread

/-- Where other digits are printed, it is their number that is read. -/
theorem prints_of_roundTrips (h : type.integer? = some (signed, w)) (hin : InIntegerRange signed w n)
    (hprints : Prints (printedNumber w n) base m) (htrip : RoundTripsText print read type w n base) :
    ∃ r : Uint512, (r.toNat : Int) = (if n < 0 then -(m : Int) else m) % 2 ^ 512 ∧ (r.toNat : Int) % 2 ^ w = n % 2 ^ w ∧
      (w = 512 ∨ if signed then r.toNat < 2 ^ w ∨ 2 ^ 512 - r.toNat < 2 ^ w else r.toNat < 2 ^ (w + 1)) := by
  obtain ⟨form, digits, hquoted, hdigits, hfirst, hprint, hvalue⟩ := hprints
  obtain ⟨-, text, htext, r, hr, hrest⟩ := (roundTripsText_iff h hin).mp htrip
  obtain rfl := Except.ok.inj (hprint.symm.trans htext)
  obtain ⟨r', hr', hnumber⟩ := stringToInt_ofDigits (n := n) hquoted hdigits hfirst hin.signed_of_neg
  obtain rfl := Except.ok.inj (hr.symm.trans hr')
  rw [hvalue] at hnumber
  exact ⟨r, hnumber, hrest⟩

/-! ### Decimal digits -/

/-- The number that the digits in base ten make: the quotient is four fifths of the number. -/
def misDivided (v : Nat) : Nat := if v ≤ 10 then v else 10 * misDivided ((4 * v + 3) / 5) + if v % 5 = 4 then 1 else 0
termination_by v
decreasing_by omega

theorem decimal_character {m : Nat} (hm : m < 10) : digitValue (UInt8.ofNat (m + 0x30)) = m ∧
    (NumberType.decimal.digit (UInt8.ofNat (m + 0x30))).isSome = true ∧ (m ≠ 0 → UInt8.ofNat (m + 0x30) ≠ 0x30) := by
  have hall : ∀ m < 10, digitValue (UInt8.ofNat (m + 0x30)) = m ∧ (NumberType.decimal.digit (UInt8.ofNat (m + 0x30))).isSome = true ∧
      (m ≠ 0 → UInt8.ofNat (m + 0x30) ≠ 0x30) := by decide
  exact hall m hm

/-- One step of the loop. -/
theorem decimalDigits_step {q r : Uint512} (hv : v.toNat ≠ 0) (hdiv : v.div (.ofWord 10) = .ok (q, r)) :
    decimalDigits v = (do let digits ← decimalDigits q; pure (NumberType.decimal.character r.low :: digits)) := by
  rw [decimalDigits, if_neg (mt Uint512.isZero_iff.mp hv)]
  split
  · rename_i e h
    rw [hdiv] at h
    cases h
  · rename_i s h
    rw [hdiv] at h
    cases h
    rfl

theorem decimalDigits_zero (hv : v.toNat = 0) : decimalDigits v = .ok [] := by
  rw [decimalDigits, if_pos (Uint512.isZero_iff.mpr hv)]

/-- What the digits of a number are like. -/
def DecimalDigits (v : Uint512) (m : Nat) (digits : Bytes) : Prop :=
  decimalDigits v = .ok digits ∧ (∀ c ∈ digits.reverse, (NumberType.decimal.digit c).isSome = true) ∧
    digitsValue 10 0 digits.reverse = m ∧ (v.toNat ≠ 0 → digits ≠ [] ∧ digits.reverse.head? ≠ some 0x30)

/-- One more digit, behind those of the quotient. -/
theorem decimalDigits_cons {q r : Uint512} {digits : Bytes} (hv : v.toNat ≠ 0) (hdiv : v.div (.ofWord 10) = .ok (q, r))
    (hq : DecimalDigits q m digits) (hr : r.toNat < 10) (hsome : q.toNat = 0 → r.toNat ≠ 0 ∧ digits = []) :
    DecimalDigits v (10 * m + r.toNat) (NumberType.decimal.character r.low :: digits) := by
  obtain ⟨hdigits, hdigit, hvalue, hfirst⟩ := hq
  have hlow : r.low.toNat = r.toNat := by
    rw [Uint512.toNat_low]
    exact Nat.mod_eq_of_lt (by omega)
  obtain ⟨hchar, hdecimal, hzero⟩ := decimal_character hr
  have hcharacter : NumberType.decimal.character r.low = UInt8.ofNat (r.toNat + 0x30) := by rw [NumberType.character, hlow]
  rw [hcharacter]
  refine ⟨?_, ?_, ?_, fun _ => ⟨List.cons_ne_nil _ _, ?_⟩⟩
  · rw [decimalDigits_step hv hdiv, hdigits, hcharacter]
    rfl
  · intro c hc
    rw [List.reverse_cons] at hc
    rcases List.mem_append.mp hc with hc | hc
    · exact hdigit c hc
    · obtain rfl := List.mem_singleton.mp hc
      exact hdecimal
  · rw [List.reverse_cons, digitsValue_concat, hvalue, hchar, Nat.mul_comm]
  · rw [List.reverse_cons]
    by_cases hq : q.toNat = 0
    · obtain ⟨hr, rfl⟩ := hsome hq
      exact fun h => hzero hr (Option.some.inj h)
    · obtain ⟨hne, hhead⟩ := hfirst hq
      rwa [List.head?_append_of_ne_nil _ (List.reverse_eq_nil_iff.not.mpr hne)]

theorem misDivided_of_le {v : Nat} (h : v ≤ 10) : misDivided v = v := by rw [misDivided, if_pos h]

theorem misDivided_of_lt {v : Nat} (h : 10 < v) :
    misDivided v = 10 * misDivided ((4 * v + 3) / 5) + if v % 5 = 4 then 1 else 0 := by
  conv_lhs => rw [misDivided, if_neg (by omega)]

/-- The digits in base ten are those of another number from eleven on. -/
theorem exists_decimalDigits (v : Uint512) : ∃ digits, DecimalDigits v (misDivided v.toNat) digits := by
  have hten : (Uint512.ofWord 10).toNat = 10 := Uint512.toNat_ofWord 10
  induction hk : v.toNat using Nat.strong_induction_on generalizing v with
  | _ k ih =>
    subst hk
    have hnone : ∀ {x : Uint512}, x.toNat = 0 → DecimalDigits x 0 [] := fun {x} hx =>
      ⟨decimalDigits_zero hx, fun _ hc => absurd hc List.not_mem_nil, rfl, fun h => absurd hx h⟩
    have hsmall : ∀ {x : Uint512}, x.toNat ≠ 0 → x.toNat < 10 → ∃ digits, DecimalDigits x x.toNat digits := fun {x} hx hlt => by
      have hcons := decimalDigits_cons (m := 0) hx (Uint512.div_of_lt hx (by rwa [hten])) (hnone Uint512.toNat_zero) hlt fun _ => ⟨hx, rfl⟩
      rw [Nat.mul_zero, Nat.zero_add] at hcons
      exact ⟨_, hcons⟩
    by_cases hzero : v.toNat = 0
    · rw [misDivided_of_le (by omega), hzero]
      exact ⟨[], hnone hzero⟩
    · rcases Nat.lt_trichotomy v.toNat 10 with hlt | heq | hgt
      · rw [misDivided_of_le hlt.le]
        exact hsmall hzero hlt
      · obtain ⟨digits, hone⟩ := hsmall (x := 1) (by rw [Uint512.toNat_one]; decide) (by rw [Uint512.toNat_one]; decide)
        have hcons := decimalDigits_cons hzero (Uint512.div_of_eq hzero (by rw [heq, hten])) hone
          (by rw [Uint512.toNat_zero]; decide) fun h => absurd h (by rw [Uint512.toNat_one]; decide)
        rw [Uint512.toNat_one, Uint512.toNat_zero] at hcons
        rw [misDivided_of_le heq.le, heq]
        exact ⟨_, hcons⟩
      · obtain ⟨q, r, hdiv, hq, hr⟩ := div_ten hgt
        obtain ⟨digits, hdigits⟩ := ih q.toNat (by omega) q rfl
        have hcons := decimalDigits_cons hzero hdiv hdigits (by split at hr <;> omega) fun h => by omega
        rw [misDivided_of_lt hgt, ← hq, ← hr]
        exact ⟨_, hcons⟩

theorem prints_decimal (v : Uint512) : Prints v 10 (misDivided v.toNat) := by
  by_cases hv : v.toNat = 0
  · rw [hv, misDivided_of_le (by decide)]
    exact prints_zero hv 10
  · obtain ⟨digits, hdigits, hdigit, hvalue, hfirst⟩ := exists_decimalDigits v
    refine ⟨.decimal, digits.reverse, rfl, hdigit, fun _ => (hfirst hv).2, ?_, hvalue⟩
    rw [(numberToString_of_pos hv).2.2.1, hdigits]
    rfl

/-! ### How large the other number is -/

/-- The numbers with `k` digits behind the first ones are above. -/
def stageLow : Nat → Nat
  | 0 => 8
  | k + 1 => (5 * stageLow k + 1) / 4

theorem stageLow_mono {j k : Nat} (h : j ≤ k) : stageLow j ≤ stageLow k := by
  induction h with
  | refl => exact Nat.le_refl _
  | step _ ih =>
    refine ih.trans ?_
    rw [stageLow]
    omega

/-- The first digits are 9 or 10, and those behind are zeros and ones. -/
theorem misDivided_bounds {v : Nat} (hv : 9 ≤ v) :
    ∃ k, 9 * 10 ^ k ≤ misDivided v ∧ 5 * misDivided v + 1 ≤ 51 * 10 ^ k ∧ stageLow k < v := by
  induction v using Nat.strong_induction_on with
  | _ v ih =>
    by_cases hsmall : v ≤ 10
    · refine ⟨0, ?_, ?_, hv⟩ <;> rw [misDivided_of_le hsmall] <;> omega
    · obtain ⟨k, hlow, hhigh, hstage⟩ := ih ((4 * v + 3) / 5) (by omega) (by omega)
      refine ⟨k + 1, ?_, ?_, ?_⟩
      · rw [misDivided_of_lt (by omega), Nat.pow_succ]
        omega
      · rw [misDivided_of_lt (by omega), Nat.pow_succ]
        split <;> omega
      · rw [stageLow]
        omega

/-- It is at least eight times the number. -/
theorem le_misDivided {v : Nat} (hv : 11 ≤ v) : 8 * v ≤ misDivided v := by
  induction v using Nat.strong_induction_on with
  | _ v ih =>
    rw [misDivided_of_lt (by omega)]
    by_cases hsmall : (4 * v + 3) / 5 ≤ 10
    · obtain rfl | rfl : v = 11 ∨ v = 12 := by omega
      · rw [misDivided_of_le hsmall]
        decide
      · rw [misDivided_of_le hsmall]
        decide
    · have hle := ih ((4 * v + 3) / 5) (by omega) (by omega)
      omega

/-- In two factors, which are not too large to be computed. -/
theorem two_pow_mul {a k : Nat} (h : a = k + k) : 2 ^ a = 2 ^ k * 2 ^ k := by rw [h, Nat.pow_add]

set_option maxRecDepth 20000 in
/-- Up to here, it is below what is lost on 512 bits. -/
theorem misDivided_lt {v : Nat} (hv : 9 ≤ v) (hlt : v < 2 ^ 52) : misDivided v + 2 ^ 256 < 2 ^ 512 := by
  obtain ⟨k, -, hhigh, hstage⟩ := misDivided_bounds hv
  have hlast : 2 ^ 52 ≤ stageLow 154 := by decide
  have hk : k ≤ 153 := Nat.le_of_lt_succ (Nat.lt_of_not_le fun h => by
    have := stageLow_mono (show 154 ≤ k from h)
    omega)
  have hpow : 10 ^ k ≤ 10 ^ 153 := Nat.pow_le_pow_right (by decide) hk
  have hroom : 51 * 10 ^ 153 + 5 * 2 ^ 256 < 5 * 2 ^ 512 := by
    rw [two_pow_mul (show 512 = 256 + 256 from rfl)]
    decide
  have hle := hhigh.trans (Nat.mul_le_mul_left 51 hpow)
  obtain ⟨a, ha⟩ : ∃ a, 10 ^ 153 = a := ⟨_, rfl⟩
  obtain ⟨b, hb⟩ : ∃ b, 2 ^ 256 = b := ⟨_, rfl⟩
  obtain ⟨c, hc⟩ : ∃ c, 2 ^ 512 = c := ⟨_, rfl⟩
  rw [ha] at hle hroom
  rw [hb, hc] at hroom ⊢
  omega

set_option maxRecDepth 20000 in
/-- No power of two that is the width of a type is just below it. -/
theorem misDivided_ne {v : Nat} (hv : 11 ≤ v) (hw : w ∈ [8, 16, 32, 64, 128, 256]) : misDivided v ≠ v + 2 ^ w := by
  intro heq
  obtain ⟨k, hlow, hhigh, -⟩ := misDivided_bounds (by omega : 9 ≤ v)
  have hle := le_misDivided hv
  have hgap : ∀ w ∈ [8, 16, 32, 64, 128, 256], ∃ j < 80, 51 * 10 ^ j ≤ 5 * 2 ^ w ∧ 8 * 2 ^ w < 63 * 10 ^ (j + 1) := by decide
  obtain ⟨j, -, hbelow, habove⟩ := hgap w hw
  rcases Nat.lt_or_ge j k with hjk | hjk
  · have hpow : 10 ^ (j + 1) ≤ 10 ^ k := Nat.pow_le_pow_right (by decide) hjk
    omega
  · have hpow : 10 ^ k ≤ 10 ^ j := Nat.pow_le_pow_right (by decide) hjk
    omega

theorem integer_width_lt (h : type.integer? = some (signed, w)) (hwide : w ≠ 512) : w ∈ [8, 16, 32, 64, 128, 256] ∧ w ≤ 256 := by
  have hall : ∀ w ∈ [8, 16, 32, 64, 128, 256, 512], w ≠ 512 → w ∈ [8, 16, 32, 64, 128, 256] ∧ w ≤ 256 := by decide
  exact hall w (integer_width_mem h) hwide

/-- Without a sign, neither a larger number nor one that is cut is the same. -/
theorem not_decimal_nonneg {r : Uint512} {v : Nat} (h : type.integer? = some (signed, w)) (hv : 11 ≤ v) (hlt : v < 2 ^ 52)
    (hr : r.toNat = misDivided v) (hmod : r.toNat % 2 ^ w = v)
    (hfits : w = 512 ∨ if signed then r.toNat < 2 ^ w ∨ 2 ^ 512 - r.toNat < 2 ^ w else r.toNat < 2 ^ (w + 1)) : False := by
  have hle := le_misDivided hv
  have hroom := misDivided_lt (by omega) hlt
  have hlarge : 2 ^ w ≤ r.toNat := Nat.le_of_not_lt fun hsmall => by
    rw [Nat.mod_eq_of_lt hsmall] at hmod
    omega
  by_cases hwide : w = 512
  · rw [hwide, Nat.mod_eq_of_lt r.toNat_lt] at hmod
    omega
  · obtain ⟨hmem, hnarrow⟩ := integer_width_lt h hwide
    have hfits := hfits.resolve_left hwide
    cases signed with
    | true =>
      have hbits : 2 ^ w ≤ 2 ^ 256 := Int512.two_pow_le hnarrow
      obtain ⟨a, ha⟩ : ∃ a, 2 ^ 256 = a := ⟨_, rfl⟩
      obtain ⟨b, hb⟩ : ∃ b, 2 ^ 512 = b := ⟨_, rfl⟩
      rw [ha, hb] at hroom
      rw [ha] at hbits
      rw [if_pos rfl, hb] at hfits
      omega
    | false =>
      rw [if_neg Bool.false_ne_true, Nat.pow_succ] at hfits
      refine misDivided_ne hv hmem ?_
      rw [Nat.mod_eq_sub_mod hlarge, Nat.mod_eq_of_lt (by omega)] at hmod
      omega

/-- Up to 52 bits, the digits in base ten of no number above ten make the round trip. -/
theorem not_roundTrips_decimal (h : type.integer? = some (signed, w)) (hin : InIntegerRange signed w n)
    (hv : 11 ≤ (printedNumber w n).toNat) (hlt : (printedNumber w n).toNat < 2 ^ 52) : ¬RoundTripsText print read type w n 10 := by
  intro htrip
  obtain ⟨r, hr, hmod, hfits⟩ := prints_of_roundTrips h hin (prints_decimal _) htrip
  obtain ⟨hpos, hw, hbytes⟩ := integer_width h
  have hprinted := toNat_printedNumber hw hbytes (by omega) hin
  have hroom := misDivided_lt (by omega) hlt
  have hle := le_misDivided hv
  have h512 := natCast_two_pow 512
  have hcast := natCast_two_pow w
  obtain ⟨v, hv'⟩ : ∃ v, (printedNumber w n).toNat = v := ⟨_, rfl⟩
  rw [hv'] at hr hprinted hroom hle hv hlt
  by_cases hn : n < 0
  · rw [if_pos hn] at hr hprinted
    have hneg := residue_neg (by omega) hin hn
    by_cases hwide : w = 512
    · subst hwide
      rw [hmod.symm.trans (Int.emod_eq_of_lt (Int.natCast_nonneg _) (by have := r.toNat_lt; omega))] at hneg
      have hopposite : -(misDivided v : Int) % 2 ^ 512 = 2 ^ 512 - misDivided v := by
        rw [← Int.add_emod_right, Int.emod_eq_of_lt (by omega) (by omega)]
        omega
      omega
    · obtain ⟨-, hnarrow⟩ := integer_width_lt h hwide
      have hbits : 2 ^ w ≤ 2 ^ 256 := Int512.two_pow_le hnarrow
      omega
  · rw [if_neg hn] at hr hprinted
    have hn' : n = v := hprinted.symm
    refine not_decimal_nonneg h hv hlt ?_ ?_ hfits
    · rw [Int.emod_eq_of_lt (Int.natCast_nonneg _) (by omega)] at hr
      exact Int.ofNat_inj.mp hr
    · rw [residue_nonneg (by omega) hin hn, hn', ← emod_two_pow] at hmod
      exact Int.ofNat_inj.mp hmod

/-! ### Hexadecimal digits -/

/-- The digits are followed by a character that ends no number. -/
def Refused (l : Bytes) : Prop := ∃ ds c rest, l = ds ++ c :: rest ∧ (∀ d ∈ ds, (NumberType.hexadecimal.digit d).isSome = true) ∧
  NumberType.hexadecimal.digit c = none ∧ c ≠ 0 ∧ isSpace c = false

/-- The characters are refused, or their digits are another number than `m`: a smaller one where they are not all digits. -/
def Misread (l : Bytes) (m : Nat) : Prop := Refused l ∨ ∃ ds rest, l = ds ++ rest ∧
  (∀ d ∈ ds, (NumberType.hexadecimal.digit d).isSome = true) ∧ (∀ c ∈ rest.head?, NumberType.hexadecimal.digit c = none) ∧
    (rest ≠ [] ∧ digitsValue 16 0 ds < m ∨ rest = [] ∧ digitsValue 16 0 ds ≠ m)

theorem Refused.append (h : Refused l) (c : UInt8) : Refused (l ++ [c]) := by
  obtain ⟨ds, b, rest, rfl, hds, hb⟩ := h
  exact ⟨ds, b, rest ++ [c], by rw [List.append_assoc, List.cons_append], hds, hb⟩

theorem digitValue_lt (h : (NumberType.hexadecimal.digit c).isSome = true) : digitValue c < 16 := by
  obtain ⟨d, hd⟩ := Option.isSome_iff_exists.mp h
  obtain ⟨hvalue, hlt⟩ := digit_value hd
  rwa [← hvalue]

theorem digitsValue_lt (hds : ∀ d ∈ ds, (NumberType.hexadecimal.digit d).isSome = true) : digitsValue 16 0 ds < 16 ^ ds.length := by
  induction ds using List.reverseRecOn with
  | nil => decide
  | append_singleton ds c ih =>
    have hlt := ih fun d hd => hds d (List.mem_append_left _ hd)
    have hc := digitValue_lt (hds c (List.mem_append_right _ List.mem_cons_self))
    rw [digitsValue_concat, List.length_append, List.length_singleton, Nat.pow_succ]
    omega

/-- One more character does not mend it. -/
theorem Misread.append {u : Nat} (h : Misread l u) (hlength : 16 ^ l.length ≤ 16 * u) (hm : m / 16 = u) (c : UInt8) :
    Misread (l ++ [c]) m := by
  rcases h with h | ⟨ds, rest, rfl, hds, hrest, hvalue⟩
  · exact .inl (h.append c)
  · rcases hvalue with ⟨hne, hlt⟩ | ⟨rfl, hne⟩
    · refine .inr ⟨ds, rest ++ [c], List.append_assoc .., hds, ?_, .inl ⟨List.append_ne_nil_of_left_ne_nil hne _, by omega⟩⟩
      rwa [List.head?_append_of_ne_nil _ hne]
    · rw [List.append_nil] at hlength ⊢
      have hbound := digitsValue_lt hds
      cases hdigit : NumberType.hexadecimal.digit c with
      | none =>
        refine .inr ⟨ds, [c], rfl, hds, ?_, .inl ⟨List.cons_ne_nil _ _, by omega⟩⟩
        rintro b hb
        obtain rfl := Option.some.inj hb
        exact hdigit
      | some d =>
        have hsome : (NumberType.hexadecimal.digit c).isSome = true := by rw [hdigit]; rfl
        have hc := digitValue_lt hsome
        refine .inr ⟨ds ++ [c], [], (List.append_nil _).symm, ?_, fun _ h => (by cases h), .inr ⟨rfl, ?_⟩⟩
        · intro b hb
          rcases List.mem_append.mp hb with hb | hb
          · exact hds b hb
          · obtain rfl := List.mem_singleton.mp hb
            exact hsome
        · rw [digitsValue_concat]
          omega

/-! ### Hexadecimal characters -/

theorem hexText_zero (hv : v.toNat = 0) : (shiftDigits .hexadecimal v).reverse = [] := by
  rw [shiftDigits, dif_pos (Uint512.isZero_iff.mpr hv), List.reverse_nil]

theorem hexText_of_pos (hv : v.toNat ≠ 0) : (shiftDigits .hexadecimal v).reverse =
    (shiftDigits .hexadecimal (v.shiftRight 4)).reverse ++ [NumberType.hexadecimal.character v.low] := by
  rw [shiftDigits, dif_neg (mt Uint512.isZero_iff.mp hv), List.reverse_cons]
  rfl

theorem toNat_shiftRight_four (v : Uint512) : (v.shiftRight 4).toNat = v.toNat / 16 :=
  Uint512.toNat_shiftRight v (by decide)

/-- A number has no more digits than it needs. -/
theorem hexText_length (hv : v.toNat ≠ 0) : 16 ^ (shiftDigits .hexadecimal v).reverse.length ≤ 16 * v.toNat := by
  induction hk : v.toNat using Nat.strong_induction_on generalizing v with
  | _ k ih =>
    subst hk
    rw [hexText_of_pos hv, List.length_append, List.length_singleton, Nat.pow_succ]
    have hshift := toNat_shiftRight_four v
    by_cases hzero : (v.shiftRight 4).toNat = 0
    · rw [hexText_zero hzero, List.length_nil]
      omega
    · have hle := ih _ (by omega) hzero rfl
      omega

theorem character_small (h : v.toNat < 10) : NumberType.hexadecimal.character v.low = UInt8.ofNat (v.toNat + 0x30) := by
  have hlow : v.low.toNat = v.toNat := by rw [Uint512.toNat_low]; exact Nat.mod_eq_of_lt (by omega)
  rw [NumberType.character, v.toInt_low (by omega), if_neg (by omega), hlow]

theorem character_large (h : 10 ≤ v.toNat) (hlt : v.toNat < 160) : NumberType.hexadecimal.character v.low = UInt8.ofNat (v.toNat + 0x41) := by
  have hlow : v.low.toNat = v.toNat := by rw [Uint512.toNat_low]; exact Nat.mod_eq_of_lt (by omega)
  rw [NumberType.character, v.toInt_low (by omega), if_pos (by omega), hlow]

/-- From ten on, the first digit is refused. -/
theorem refused_first (hv : 10 ≤ v.toNat) (hlt : v.toNat < 16) : Refused (shiftDigits .hexadecimal v).reverse := by
  have hall : ∀ k < 16, 10 ≤ k → NumberType.hexadecimal.digit (UInt8.ofNat (k + 0x41)) = none ∧ UInt8.ofNat (k + 0x41) ≠ 0 ∧
      isSpace (UInt8.ofNat (k + 0x41)) = false := by decide
  rw [hexText_of_pos (by omega), hexText_zero (by rw [toNat_shiftRight_four]; omega), character_large hv (by omega)]
  exact ⟨[], _, [], rfl, fun _ hd => absurd hd List.not_mem_nil, hall _ hlt hv⟩

set_option maxRecDepth 20000 in
/-- The second digit is refused, or larger than it is. -/
theorem misread_second (hv : 16 ≤ v.toNat) (hlt : v.toNat < 160) : Misread (shiftDigits .hexadecimal v).reverse v.toNat := by
  have hall : ∀ k < 160, 16 ≤ k → (NumberType.hexadecimal.digit (UInt8.ofNat (k + 0x41)) = none ∧ UInt8.ofNat (k + 0x41) ≠ 0 ∧
      isSpace (UInt8.ofNat (k + 0x41)) = false) ∨ ((NumberType.hexadecimal.digit (UInt8.ofNat (k + 0x41))).isSome = true ∧
        digitValue (UInt8.ofNat (k + 0x41)) ≠ k % 16) := by decide
  have hfirst : ∀ k < 10, (NumberType.hexadecimal.digit (UInt8.ofNat (k + 0x30))).isSome = true ∧ digitValue (UInt8.ofNat (k + 0x30)) = k := by
    decide
  have hshift := toNat_shiftRight_four v
  have htext : (shiftDigits .hexadecimal v).reverse = [UInt8.ofNat (v.toNat / 16 + 0x30), UInt8.ofNat (v.toNat + 0x41)] := by
    rw [hexText_of_pos (by omega), hexText_of_pos (by omega), hexText_zero (by rw [toNat_shiftRight_four]; omega),
      character_small (by omega), character_large (by omega) hlt, hshift]
    rfl
  obtain ⟨hdigit, hvalue⟩ := hfirst (v.toNat / 16) (by omega)
  have hone : ∀ d ∈ [UInt8.ofNat (v.toNat / 16 + 0x30)], (NumberType.hexadecimal.digit d).isSome = true := fun d hd => by
    obtain rfl := List.mem_singleton.mp hd
    exact hdigit
  rw [htext]
  rcases hall v.toNat hlt hv with hrefused | ⟨hsecond, hne⟩
  · exact .inl ⟨_, _, [], rfl, hone, hrefused⟩
  · refine .inr ⟨_, [], (List.append_nil _).symm, ?_, fun _ h => (by cases h), .inr ⟨rfl, ?_⟩⟩
    · exact List.forall_mem_cons.mpr ⟨hdigit, List.forall_mem_cons.mpr ⟨hsecond, fun _ hd => absurd hd List.not_mem_nil⟩⟩
    · have htwo := digitsValue_concat 16 [UInt8.ofNat (v.toNat / 16 + 0x30)] (UInt8.ofNat (v.toNat + 0x41))
      have hhigh : digitsValue 16 0 [UInt8.ofNat (v.toNat / 16 + 0x30)] = v.toNat / 16 := (Nat.zero_add _).trans hvalue
      rw [hhigh] at htwo
      refine fun heq => hne ?_
      have := htwo.symm.trans heq
      omega

/-- From ten on, another number is read, or none. -/
theorem misread_hexadecimal (hv : 10 ≤ v.toNat) : Misread (shiftDigits .hexadecimal v).reverse v.toNat := by
  induction hk : v.toNat using Nat.strong_induction_on generalizing v with
  | _ k ih =>
    subst hk
    have hshift := toNat_shiftRight_four v
    rcases Nat.lt_or_ge v.toNat 16 with hlt | hge
    · exact .inl (refused_first hv hlt)
    · rcases Nat.lt_or_ge v.toNat 160 with hlt | hlarge
      · exact misread_second hge hlt
      · rw [hexText_of_pos (by omega)]
        exact (ih _ (by omega) (by omega) rfl).append (hexText_length (by omega)) (by omega) _

/-- Where the first digit is ten or more, no number is read. -/
theorem refused_hexadecimal {j : Nat} (hlow : 10 * 16 ^ j ≤ v.toNat) (hhigh : v.toNat < 16 ^ (j + 1)) :
    Refused (shiftDigits .hexadecimal v).reverse := by
  induction j generalizing v with
  | zero => exact refused_first (by omega) (by omega)
  | succ j ih =>
    have hshift := toNat_shiftRight_four v
    have hpos : 0 < 16 ^ j := Nat.pow_pos (by decide)
    rw [Nat.pow_succ] at hlow
    rw [Nat.pow_succ _ (j + 1)] at hhigh
    rw [hexText_of_pos (by omega)]
    exact (ih (by omega) (by omega)).append _

/-! ### Reading hexadecimal digits -/

/-- Behind the introducer, the digits are read as far as they go. -/
theorem stringToInt_hexadecimal (l : Bytes) (hsigned : n < 0 → signed = true) :
    stringToInt (withSign n ([0x30, 0x78] ++ l)) signed =
      if (readDigits .hexadecimal 0 (cString l)).2.dropWhile isSpace ≠ [] then .error .invalidNumber
      else .ok (if n < 0 then -(readDigits .hexadecimal 0 (cString l)).1 else (readDigits .hexadecimal 0 (cString l)).1) := by
  by_cases hn : n < 0
  · rw [withSign, if_pos hn, if_pos hn, hsigned hn]
    rfl
  · rw [withSign, if_neg hn, if_neg hn]
    rfl

theorem cString_append (hds : ∀ d ∈ ds, (NumberType.hexadecimal.digit d).isSome = true) (rest : Bytes) :
    cString (ds ++ rest) = ds ++ cString rest :=
  List.takeWhile_append_of_pos fun d hd => decide_eq_true (digit_ne (hds d hd)).1

theorem Refused.stringToInt (h : Refused l) (hsigned : n < 0 → signed = true) :
    Snapdatabase.stringToInt (withSign n ([0x30, 0x78] ++ l)) signed = .error .invalidNumber := by
  obtain ⟨ds, c, rest, rfl, hds, hc, hnull, hspace⟩ := h
  have hnext : cString (c :: rest) = c :: cString rest := List.takeWhile_cons_of_pos (decide_eq_true hnull)
  obtain ⟨-, hleft⟩ := @readDigits_append _ _ (c :: cString rest) hds (fun b hb => by obtain rfl := Option.some.inj hb; exact hc) 0
  rw [stringToInt_hexadecimal _ hsigned, cString_append hds, hnext, hleft]
  exact if_pos (by rw [List.dropWhile_cons_of_neg (by rw [hspace]; exact Bool.false_ne_true)]; exact List.cons_ne_nil _ _)

/-- The number that is read is another one. -/
theorem Misread.stringToInt {r : Uint512} (h : Misread l m) (hsigned : n < 0 → signed = true)
    (hok : Snapdatabase.stringToInt (withSign n ([0x30, 0x78] ++ l)) signed = .ok r) :
    ∃ k : Nat, (r.toNat : Int) = (if n < 0 then -(k : Int) else k) % 2 ^ 512 ∧ k ≠ m ∧ (k < m ∨ k < 16 ^ l.length) := by
  rcases h with h | ⟨ds, rest, rfl, hds, hrest, hvalue⟩
  · rw [h.stringToInt hsigned] at hok
    cases hok
  · have hhead : ∀ c ∈ (cString rest).head?, NumberType.hexadecimal.digit c = none := fun c hc => by
      cases rest with
      | nil => cases hc
      | cons b rest =>
        by_cases hb : b = 0
        · have hnone : cString (b :: rest) = [] := List.takeWhile_cons_of_neg (by rw [hb]; decide)
          rw [hnone] at hc
          cases hc
        · have hnext : cString (b :: rest) = b :: cString rest := List.takeWhile_cons_of_pos (decide_eq_true hb)
          rw [hnext] at hc
          obtain rfl := Option.some.inj hc
          exact hrest _ rfl
    obtain ⟨hnumber, -⟩ := readDigits_append hds hhead 0
    rw [stringToInt_hexadecimal _ hsigned, cString_append hds] at hok
    rw [Uint512.toNat_zero, NumberType.base] at hnumber
    split at hok
    · cases hok
    · obtain rfl := Except.ok.inj hok
      refine ⟨digitsValue 16 0 ds, ?_, ?_, ?_⟩
      · by_cases hn : n < 0
        · rw [if_pos hn, if_pos hn, Uint512.toNat_neg, hnumber]
          exact neg_emod_two_pow _ _
        · rw [if_neg hn, if_neg hn, hnumber]
          exact emod_two_pow _ _
      · rcases hvalue with ⟨-, hlt⟩ | ⟨-, hne⟩
        · exact Nat.ne_of_lt hlt
        · exact hne
      · rcases hvalue with ⟨-, hlt⟩ | ⟨rfl, -⟩
        · exact .inl hlt
        · rw [List.append_nil]
          exact .inr (digitsValue_lt hds)

/-- The digits of a number that fits fit too. -/
theorem hexText_fits {k : Nat} (hv : v.toNat ≠ 0) (hfits : v.toNat < 16 ^ k) : 16 ^ (shiftDigits .hexadecimal v).reverse.length ≤ 16 ^ k := by
  refine Nat.pow_le_pow_right (by decide) (Nat.le_of_not_lt fun hlt => ?_)
  have hlength := hexText_length hv
  have hle : 16 ^ (k + 1) ≤ 16 ^ (shiftDigits .hexadecimal v).reverse.length := Nat.pow_le_pow_right (by decide) hlt
  rw [Nat.pow_succ] at hle
  omega

theorem sixteen_pow {k : Nat} (h : 4 * k = w) : 16 ^ k = 2 ^ w := by
  have hbase : (16 : Nat) = 2 ^ 4 := rfl
  rw [← h, hbase, ← Nat.pow_mul]

/-- The opposites of numbers on so many bits differ. -/
theorem eq_of_neg_emod {a b m : Nat} (ha : a < m) (hb : b < m) (h : -(a : Int) % m = -(b : Int) % m) : a = b := by
  have hmod : (a : Int) ≡ b [ZMOD m] := by
    have hneg : -(a : Int) ≡ -b [ZMOD m] := h
    have := hneg.neg
    rwa [Int.neg_neg, Int.neg_neg] at this
  exact (Int.natCast_modEq_iff.mp hmod).eq_of_lt_of_lt ha hb

/-- A negative number on fewer than 512 bits is printed with all the high bits. -/
theorem refused_of_neg (h : type.integer? = some (signed, w)) (hin : InIntegerRange signed w n) (hn : n < 0) (hwide : w ≠ 512) :
    Refused (shiftDigits .hexadecimal (printedNumber w n)).reverse := by
  obtain ⟨hpos, hw, hbytes⟩ := integer_width h
  have hprinted := toNat_printedNumber hw hbytes (by omega) hin
  have hrange := neg_range (by omega) hin hn
  have hbits : 2 ^ w ≤ 2 ^ 256 := Int512.two_pow_le (integer_width_lt h hwide).2
  have hcast := natCast_two_pow w
  have h512 := natCast_two_pow 512
  have hroom : 10 * 16 ^ 127 + 2 ^ 256 ≤ 2 ^ 512 := by
    rw [two_pow_mul (show 512 = 256 + 256 from rfl)]
    decide
  have htop : 16 ^ (127 + 1) = 2 ^ 512 := sixteen_pow (by decide)
  have hlt := (printedNumber w n).toNat_lt
  rw [if_pos hn] at hprinted
  refine refused_hexadecimal (j := 127) ?_ (by rwa [htop])
  obtain ⟨a, ha⟩ : ∃ a, 10 * 16 ^ 127 = a := ⟨_, rfl⟩
  obtain ⟨b, hb⟩ : ∃ b, 2 ^ 256 = b := ⟨_, rfl⟩
  obtain ⟨c, hc⟩ : ∃ c, 2 ^ 512 = c := ⟨_, rfl⟩
  rw [ha] at hroom ⊢
  rw [hb] at hroom hbits
  rw [hc] at hroom h512
  omega

/-- From ten on, hexadecimal texts do not make the round trip. -/
theorem not_roundTrips_hexadecimal (h : type.integer? = some (signed, w)) (hin : InIntegerRange signed w n)
    (hv : 10 ≤ (printedNumber w n).toNat) : ¬RoundTripsText print read type w n 16 := by
  intro htrip
  obtain ⟨-, text, htext, r, hr, hmod, -⟩ := (roundTripsText_iff h hin).mp htrip
  rw [(numberToString_of_pos (by omega)).2.2.2] at htext
  obtain rfl := Except.ok.inj htext
  obtain ⟨k, hk, hne, hsmall⟩ := (misread_hexadecimal hv).stringToInt hin.signed_of_neg hr
  obtain ⟨hpos, hw, hbytes⟩ := integer_width h
  have hprinted := toNat_printedNumber hw hbytes (by omega) hin
  have hsixteen : 16 ^ (w / 4) = 2 ^ w := sixteen_pow (by omega)
  by_cases hn : n < 0
  · by_cases hwide : w = 512
    · subst hwide
      have hlt := (printedNumber 512 n).toNat_lt
      have hfits := hexText_fits (v := printedNumber 512 n) (k := 512 / 4) (by omega) (by rwa [hsixteen])
      have hopposite : n = -((printedNumber 512 n).toNat : Int) := by
        rw [if_pos hn] at hprinted
        omega
      rw [if_pos hn] at hk
      rw [hk, Int.emod_emod, hopposite, ← natCast_two_pow] at hmod
      rw [hsixteen] at hfits
      exact hne (eq_of_neg_emod (by omega) hlt hmod)
    · rw [(refused_of_neg h hin hn hwide).stringToInt hin.signed_of_neg] at hr
      cases hr
  · rw [if_neg hn] at hk hprinted
    have hlt := lt_two_pow (by omega) hin
    have hcast := natCast_two_pow w
    have hfits := hexText_fits (v := printedNumber w n) (k := w / 4) (by omega) (by rw [hsixteen]; omega)
    rw [hsixteen] at hfits
    have hsmall : k < 2 ^ w := by omega
    have hmax : (k : Int) < 2 ^ 512 := by
      rw [← natCast_two_pow]
      exact Int.ofNat_lt.mpr (Uint512.lt_two_pow_of_le hsmall hw)
    rw [Int.emod_eq_of_lt (Int.natCast_nonneg k) hmax] at hk
    rw [hk, residue_nonneg (by omega) hin hn, Int.emod_eq_of_lt (Int.natCast_nonneg k) (by omega)] at hmod
    omega

/-! ### The result -/

theorem prints_hexadecimal (hv : v.toNat < 10) : Prints v 16 v.toNat := by
  by_cases hzero : v.toNat = 0
  · rw [hzero]
    exact prints_zero hzero 16
  · have hall : ∀ k < 10, (NumberType.hexadecimal.digit (UInt8.ofNat (k + 0x30))).isSome = true ∧ digitValue (UInt8.ofNat (k + 0x30)) = k := by
      decide
    have htext : (shiftDigits .hexadecimal v).reverse = [UInt8.ofNat (v.toNat + 0x30)] := by
      rw [hexText_of_pos hzero, hexText_zero (by rw [toNat_shiftRight_four]; omega), character_small hv]
      rfl
    refine ⟨.hexadecimal false, [UInt8.ofNat (v.toNat + 0x30)], rfl, ?_, fun h => (by cases h), ?_, ?_⟩
    · intro c hc
      obtain rfl := List.mem_singleton.mp hc
      exact (hall _ hv).1
    · rw [(numberToString_of_pos hzero).2.2.2, htext]
      rfl
    · exact (Nat.zero_add _).trans (hall _ hv).2

/-- The numbers whose texts are read back: those that are printed at all, in base two or eight, or with one right digit or as ten. -/
def SurvivesText (w : Nat) (n : Int) (base : Nat) : Prop :=
  (n < 0 → 64 ≤ w) ∧ (base = 2 ∨ base = 8 ∨ (n < 0 → w = 512) ∧ (base = 10 ∧ n.natAbs ≤ 10 ∨ base = 16 ∧ n.natAbs ≤ 9))

theorem printedNumber_natAbs (h : type.integer? = some (signed, w)) (hin : InIntegerRange signed w n) (hwide : n < 0 → w = 512) :
    (printedNumber w n).toNat = n.natAbs := by
  obtain ⟨hpos, hw, hbytes⟩ := integer_width h
  have hprinted := toNat_printedNumber hw hbytes (by omega) hin
  by_cases hn : n < 0
  · rw [if_pos hn, hwide hn] at hprinted
    rw [hwide hn]
    omega
  · rw [if_neg hn] at hprinted
    omega

/-- A negative number on fewer than 512 bits is printed as a very large one. -/
theorem le_printedNumber (h : type.integer? = some (signed, w)) (hin : InIntegerRange signed w n) (hn : n < 0) (hwide : w ≠ 512) :
    10 ≤ (printedNumber w n).toNat := by
  obtain ⟨hpos, hw, hbytes⟩ := integer_width h
  have hprinted := toNat_printedNumber hw hbytes (by omega) hin
  have hbits : 2 ^ w ≤ 2 ^ 256 := Int512.two_pow_le (integer_width_lt h hwide).2
  have hcast := natCast_two_pow w
  have h512 := natCast_two_pow 512
  have hroom : 10 + 2 ^ 256 ≤ 2 ^ 512 := by
    rw [two_pow_mul (show 512 = 256 + 256 from rfl)]
    decide
  rw [if_pos hn] at hprinted
  obtain ⟨b, hb⟩ : ∃ b, 2 ^ 256 = b := ⟨_, rfl⟩
  obtain ⟨c, hc⟩ : ∃ c, 2 ^ 512 = c := ⟨_, rfl⟩
  rw [hb] at hroom hbits
  rw [hc] at hroom h512
  omega

theorem roundTrips_of_survives (h : type.integer? = some (signed, w)) (hin : InIntegerRange signed w n) (hsurvives : SurvivesText w n base) :
    RoundTripsText print read type w n base := by
  obtain ⟨hwide, rfl | rfl | ⟨hfull, ⟨rfl, hsmall⟩ | ⟨rfl, hsmall⟩⟩⟩ := hsurvives
  · exact roundTrips_of_prints h hin hwide (prints_binary _)
  · exact roundTrips_of_prints h hin hwide (prints_octal _)
  · have hprints := prints_decimal (printedNumber w n)
    rw [misDivided_of_le (by rwa [printedNumber_natAbs h hin hfull])] at hprints
    exact roundTrips_of_prints h hin hwide hprints
  · exact roundTrips_of_prints h hin hwide (prints_hexadecimal (by rw [printedNumber_natAbs h hin hfull]; omega))

theorem survives_of_roundTrips (h : type.integer? = some (signed, w)) (hin : InIntegerRange signed w n) (hbase : base ∈ [2, 8, 10, 16])
    (hdecimal : base = 10 → n.natAbs < 2 ^ 52 ∧ (n < 0 → w = 512 ∨ w < 64)) (htrip : RoundTripsText print read type w n base) :
    SurvivesText w n base := by
  have hwide := ((roundTripsText_iff h hin).mp htrip).1
  refine ⟨hwide, ?_⟩
  simp only [List.mem_cons, List.not_mem_nil, or_false] at hbase
  obtain rfl | rfl | rfl | rfl := hbase
  · exact .inl rfl
  · exact .inr (.inl rfl)
  · obtain ⟨hlt, hnegative⟩ := hdecimal rfl
    have hfull : n < 0 → w = 512 := fun hn => (hnegative hn).resolve_right (Nat.not_lt.mpr (hwide hn))
    have hprinted := printedNumber_natAbs h hin hfull
    refine .inr (.inr ⟨hfull, .inl ⟨rfl, Nat.le_of_not_lt fun hlarge => ?_⟩⟩)
    exact not_roundTrips_decimal h hin (by omega) (by omega) htrip
  · have hfull : n < 0 → w = 512 := fun hn => Classical.byContradiction fun hne =>
      not_roundTrips_hexadecimal h hin (le_printedNumber h hin hn hne) htrip
    have hprinted := printedNumber_natAbs h hin hfull
    refine .inr (.inr ⟨hfull, .inr ⟨rfl, Nat.le_of_not_lt fun hlarge => ?_⟩⟩)
    exact not_roundTrips_hexadecimal h hin (by omega) htrip

/-- The numbers that survive make the round trip; in base two, eight and sixteen no others do, nor in base ten below 2^52. -/
theorem roundTripsText_survives (print read : StructType → Bytes → Except ConvertError Bytes) (h : type.integer? = some (signed, w))
    (hin : InIntegerRange signed w n) (hbase : base ∈ [2, 8, 10, 16]) :
    (SurvivesText w n base → RoundTripsText print read type w n base) ∧
      ((base = 10 → n.natAbs < 2 ^ 52 ∧ (n < 0 → w = 512 ∨ w < 64)) → RoundTripsText print read type w n base → SurvivesText w n base) :=
  ⟨roundTrips_of_survives h hin, survives_of_roundTrips h hin hbase⟩

/-- Ten on eight bits. -/
theorem roundTripsText_survives_ten : (SurvivesText 8 10 10 → RoundTripsText (fun _ _ => .error .logicError) (fun _ _ => .error .logicError)
      .uint8 8 10 10) ∧
    (((10 : Nat) = 10 → (10 : Int).natAbs < 2 ^ 52 ∧ ((10 : Int) < 0 → 8 = 512 ∨ 8 < 64)) →
      RoundTripsText (fun _ _ => .error .logicError) (fun _ _ => .error .logicError) .uint8 8 10 10 → SurvivesText 8 10 10) :=
  @roundTripsText_survives 10 false 8 10 .uint8 _ _ rfl (by decide) (by decide)

/-- Eleven is not read back from its decimal text. -/
theorem not_roundTripsText : ¬∀ (print read : StructType → Bytes → Except ConvertError Bytes) (type : StructType) (signed : Bool) (w : Nat)
    (n : Int) (base : Nat), type.integer? = some (signed, w) → InIntegerRange signed w n → base ∈ [2, 8, 10, 16] →
      RoundTripsText print read type w n base := by
  intro hall
  have hin : InIntegerRange false 8 11 := by decide
  have htrip := hall (fun _ _ => .error .logicError) (fun _ _ => .error .logicError) .uint8 false 8 11 10 rfl hin (by decide)
  have hprinted : (printedNumber 8 11).toNat = 11 := @printedNumber_natAbs _ _ _ .uint8 rfl hin (fun h => absurd h (by decide))
  exact not_roundTrips_decimal rfl hin (by rw [hprinted]) (by rw [hprinted]; decide) htrip

end

end Snapwebsites.Snapdatabase
