import Snapwebsites.Snapdatabase.Convert

/-! # The range of numbers

`string_to_typed_buffer()` on the integer types. The size that is compared with the width of the type is the place of the highest bit of
an unsigned number, and the number of bits without the sign of a signed one: each of them is one less than what the type needs. -/

namespace Snapwebsites.Snapdatabase

open Loadavg (littleEndian littleEndian_add littleEndian_mod take_littleEndian littleEndian_length)

/-- The integer types: whether they have a sign, and their width. -/
def StructType.integer? : StructType → Option (Bool × Nat)
  | .bits8 | .uint8 => some (false, 8)
  | .bits16 | .uint16 => some (false, 16)
  | .bits32 | .uint32 => some (false, 32)
  | .bits64 | .uint64 | .oid | .reference => some (false, 64)
  | .bits128 | .uint128 => some (false, 128)
  | .bits256 | .uint256 => some (false, 256)
  | .bits512 | .uint512 => some (false, 512)
  | .int8 => some (true, 8)
  | .int16 => some (true, 16)
  | .int32 => some (true, 32)
  | .int64 => some (true, 64)
  | .int128 => some (true, 128)
  | .int256 => some (true, 256)
  | .int512 => some (true, 512)
  | _ => none

/-- The numbers of a type. -/
def InIntegerRange (signed : Bool) (w : Nat) (n : Int) : Prop := if signed then -2 ^ (w - 1) ≤ n ∧ n < 2 ^ (w - 1) else 0 ≤ n ∧ n < 2 ^ w

instance (signed : Bool) (w : Nat) (n : Int) : Decidable (InIntegerRange signed w n) :=
  inferInstanceAs (Decidable (if signed = true then _ else _))

/-- The number in the memory of its type. -/
def integerBytes (w : Nat) (n : Int) : Bytes := littleEndian (w / 8) (n % 2 ^ w).toNat

/-- A text with at least one digit. -/
def NumberText.WellFormed (t : NumberText) : Prop := t.digits = [] → t.form = .octal

/-! ### The bytes of a number -/

section
variable {library : StructType → Bytes → Except ConvertError Bytes} {type : StructType} {signed : Bool} {w : Nat} {n : Int} {v : Uint512}
variable {t : NumberText} {value : Bytes}

theorem flatMap_littleEndian (l : List (BitVec 64)) :
    (l.flatMap fun n => littleEndian 8 n.toNat) = littleEndian (8 * l.length) (Words.toNat l) := by
  induction l with
  | nil => rfl
  | cons x l ih =>
    have hbase : 2 ^ 64 = 256 ^ 8 := rfl
    have hhigh : (x.toNat + 256 ^ 8 * Words.toNat l) / 256 ^ 8 = Words.toNat l := by
      rw [Nat.add_mul_div_left _ _ (by decide), Nat.div_eq_of_lt (hbase ▸ x.isLt), Nat.zero_add]
    have hlow : littleEndian 8 (x.toNat + 256 ^ 8 * Words.toNat l) = littleEndian 8 x.toNat := by
      rw [← littleEndian_mod, Nat.add_mul_mod_self_left, littleEndian_mod]
    rw [List.flatMap_cons, ih, List.length_cons, Nat.mul_succ, Nat.add_comm, littleEndian_add, Words.toNat, hbase, hhigh, hlow]

theorem Uint512.bytes_eq (x : Uint512) : x.bytes = littleEndian 64 x.toNat := by
  rw [Uint512.bytes, flatMap_littleEndian, x.length_words]
  rfl

theorem integer_width_mem (h : type.integer? = some (signed, w)) : w ∈ [8, 16, 32, 64, 128, 256, 512] := by
  cases type <;> first | cases h; done | (cases h; decide)

/-- The types are made of whole bytes. -/
theorem integer_width (h : type.integer? = some (signed, w)) : 8 ≤ w ∧ w ≤ 512 ∧ 8 * (w / 8) = w := by
  have hall : ∀ w ∈ [8, 16, 32, 64, 128, 256, 512], 8 ≤ w ∧ w ≤ 512 ∧ 8 * (w / 8) = w := by decide
  exact hall w (integer_width_mem h)

theorem stringToTypedBuffer_integer (h : type.integer? = some (signed, w)) :
    stringToTypedBuffer library type value = if signed then stringToInteger value w else stringToUinteger value w := by
  cases type <;> first | cases h; done | (cases h; rfl)

/-- The first bytes are those of the number on so many bits. -/
theorem take_bytes (hw : w ≤ 512) (hbytes : 8 * (w / 8) = w) (hv : (v.toNat : Int) = n % 2 ^ 512) :
    v.bytes.take (w / 8) = integerBytes w n := by
  have hbase : 256 ^ (w / 8) = 2 ^ w := by rw [show (256 : Nat) = 2 ^ 8 from rfl, ← Nat.pow_mul, hbytes]
  have hmod : v.toNat % 2 ^ w = (n % 2 ^ w).toNat := by
    have hdvd : (2 ^ w : Int) ∣ 2 ^ 512 := pow_dvd_pow 2 hw
    have hcast : ((v.toNat % 2 ^ w : Nat) : Int) = n % 2 ^ w := by rw [emod_two_pow, hv, Int.emod_emod_of_dvd _ hdvd]
    omega
  rw [Uint512.bytes_eq, take_littleEndian (by omega), integerBytes, ← hmod, ← hbase, littleEndian_mod]

/-! ### The numbers of a type -/

theorem two_pow_pos (k : Nat) : (0 : Int) < 2 ^ k := by
  rw [← natCast_two_pow]
  exact Int.natCast_pos.mpr (Nat.two_pow_pos k)

/-- A negative number is in the upper half. -/
theorem residue_signed (hw : 0 < w) (hin : InIntegerRange true w n) :
    n % 2 ^ w = (if n < 0 then n + 2 ^ w else n) ∧ (2 ^ (w - 1) ≤ (n % 2 ^ w).toNat ↔ n < 0) := by
  have hrange : -2 ^ (w - 1) ≤ n ∧ n < 2 ^ (w - 1) := hin
  have htwice : (2 : Int) ^ w = 2 * 2 ^ (w - 1) := by rw [← pow_succ', Nat.sub_add_cancel hw]
  have hhalf := two_pow_pos (w - 1)
  have hcast := natCast_two_pow (w - 1)
  have hmod : n % 2 ^ w = if n < 0 then n + 2 ^ w else n := by
    split
    · rw [← Int.add_emod_right, Int.emod_eq_of_lt (by omega) (by omega)]
    · exact Int.emod_eq_of_lt (by omega) (by omega)
  refine ⟨hmod, ?_⟩
  rw [hmod]
  split <;> omega

theorem residue_nonneg (hpos : 0 < w) (hin : InIntegerRange signed w n) (hn : ¬n < 0) : n % 2 ^ w = n := by
  cases signed with
  | true => exact (residue_signed hpos hin).1.trans (if_neg hn)
  | false => exact Int.emod_eq_of_lt hin.1 hin.2

theorem residue_neg (hpos : 0 < w) (hin : InIntegerRange signed w n) (hn : n < 0) : n % 2 ^ w = n + 2 ^ w := by
  cases signed with
  | true => exact (residue_signed hpos hin).1.trans (if_pos hn)
  | false => exact absurd hin.1 (Int.not_le.mpr hn)

theorem neg_range (hpos : 0 < w) (hin : InIntegerRange signed w n) (hn : n < 0) : 0 < n + 2 ^ w := by
  cases signed with
  | true =>
    have hrange : -2 ^ (w - 1) ≤ n ∧ n < 2 ^ (w - 1) := hin
    have htwice : (2 : Int) ^ w = 2 * 2 ^ (w - 1) := by rw [← pow_succ', Nat.sub_add_cancel hpos]
    have hhalf := two_pow_pos (w - 1)
    omega
  | false => exact absurd hin.1 (Int.not_le.mpr hn)

theorem lt_two_pow (hpos : 0 < w) (hin : InIntegerRange signed w n) : n < 2 ^ w := by
  have hmod := Int.emod_lt_of_pos n (two_pow_pos w)
  by_cases hn : n < 0
  · exact hn.trans (two_pow_pos w)
  · rwa [residue_nonneg hpos hin hn] at hmod

/-! ### What is accepted -/

theorem NumberText.value_of_negative (h : t.negative = true) : t.value = -t.magnitude := if_pos h

theorem NumberText.value_of_not_negative (h : ¬t.negative = true) : t.value = t.magnitude := if_neg h

/-- Where a text is read as a number, it is accepted by its size. -/
theorem stringToTypedBuffer_of_ok (h : type.integer? = some (signed, w)) (hread : stringToInt value signed = .ok v) :
    stringToTypedBuffer library type value =
      if w ≠ 512 ∧ (if signed then Int512.bitSize v else v.bitSize) > w then .error .outOfRange else .ok (v.bytes.take (w / 8)) := by
  rw [stringToTypedBuffer_integer h]
  cases signed with
  | true =>
    rw [if_pos rfl, if_pos rfl, stringToInteger, hread]
    dsimp only [bind, Except.bind]
    split <;> rfl
  | false =>
    rw [if_neg Bool.false_ne_true, if_neg Bool.false_ne_true, stringToUinteger, hread]
    dsimp only [bind, Except.bind]
    split <;> rfl

theorem stringToTypedBuffer_of_error {e : ConvertError} (h : type.integer? = some (signed, w)) (hread : stringToInt value signed = .error e) :
    stringToTypedBuffer library type value = .error e := by
  rw [stringToTypedBuffer_integer h]
  cases signed with
  | true =>
    rw [if_pos rfl, stringToInteger, hread]
    rfl
  | false =>
    rw [if_neg Bool.false_ne_true, stringToUinteger, hread]
    rfl

theorem stringToUinteger_text (hw : w ≤ 512) (hbytes : 8 * (w / 8) = w) : stringToUinteger t.text w =
    if t.negative = true then .error .invalidNumber
    else if w ≠ 512 ∧ 2 ^ (w + 1) ≤ t.magnitude % 2 ^ 512 then .error .outOfRange
    else .ok (integerBytes w t.value) := by
  have hread := @stringToInt_text _ false t t.cString_text
  rw [stringToUinteger]
  by_cases hnegative : t.negative = true
  · rw [if_pos ⟨hnegative, Bool.false_ne_true⟩] at hread
    rw [if_pos hnegative, hread]
    rfl
  · rw [if_neg fun h => hnegative h.1] at hread
    obtain ⟨v, hv, hvalue⟩ := hread
    have hmagnitude : v.toNat = t.magnitude % 2 ^ 512 := by
      rw [NumberText.value_of_not_negative hnegative, ← emod_two_pow] at hvalue
      exact Int.ofNat_inj.mp hvalue
    have hsize : v.bitSize > w ↔ 2 ^ (w + 1) ≤ t.magnitude % 2 ^ 512 := by
      rw [Uint512.bitSize_eq, ← hmagnitude]
      rcases Nat.eq_zero_or_pos v.toNat with hzero | hpos
      · rw [hzero, Nat.log2_zero]
        exact iff_of_false (Nat.not_lt_zero w) (Nat.not_le.mpr (Nat.two_pow_pos _))
      · exact Nat.le_log2 (Nat.ne_of_gt hpos)
    rw [if_neg hnegative, hv]
    dsimp only [bind, Except.bind]
    by_cases hlarge : w ≠ 512 ∧ v.bitSize > w
    · rw [if_pos hlarge, if_pos ⟨hlarge.1, hsize.mp hlarge.2⟩]
      rfl
    · rw [if_neg hlarge, if_neg fun h => hlarge ⟨h.1, hsize.mpr h.2⟩]
      exact congrArg Except.ok (take_bytes hw hbytes hvalue)

theorem stringToInteger_text (hw : w ≤ 512) (hbytes : 8 * (w / 8) = w) : stringToInteger t.text w =
    if w ≠ 512 ∧ 2 ^ w ≤ t.value % 2 ^ 512 ∧ t.value % 2 ^ 512 ≤ 2 ^ 512 - 2 ^ w then .error .outOfRange
    else .ok (integerBytes w t.value) := by
  have hread := @stringToInt_text _ true t t.cString_text
  rw [if_neg fun h => h.2 rfl] at hread
  obtain ⟨v, hv, hvalue⟩ := hread
  have hsize : w ≠ 512 → (Int512.bitSize v > w ↔ 2 ^ w ≤ t.value % 2 ^ 512 ∧ t.value % 2 ^ 512 ≤ 2 ^ 512 - 2 ^ w) := fun hne => by
    have hle := Int512.bitSize_le_iff (x := v) (Nat.lt_of_le_of_ne hw hne)
    have hlt := v.toNat_lt
    have h512 := natCast_two_pow 512
    have hcast := natCast_two_pow w
    rw [← hvalue, ← hcast, ← h512]
    omega
  rw [stringToInteger, hv]
  dsimp only [bind, Except.bind]
  by_cases hlarge : w ≠ 512 ∧ Int512.bitSize v > w
  · rw [if_pos hlarge, if_pos ⟨hlarge.1, (hsize hlarge.1).mp hlarge.2⟩]
    rfl
  · rw [if_neg hlarge, if_neg fun h => hlarge ⟨h.1, (hsize h.1).mpr h.2⟩]
    exact congrArg Except.ok (take_bytes hw hbytes hvalue)

/-- What is said of a text and an integer type: the numbers of the type are accepted, and no others. -/
def ChecksRange (library : StructType → Bytes → Except ConvertError Bytes) (type : StructType) (signed : Bool) (w : Nat) (t : NumberText) :
    Prop :=
  if InIntegerRange signed w t.value then stringToTypedBuffer library type t.text = .ok (integerBytes w t.value)
  else ∃ e, stringToTypedBuffer library type t.text = .error e

theorem checksRange_unsigned (h : type.integer? = some (false, w)) : ChecksRange library type false w t ↔
    if t.negative then t.magnitude ≠ 0 else t.magnitude < 2 ^ w ∨ (w ≠ 512 ∧ 2 ^ (w + 1) ≤ t.magnitude % 2 ^ 512) := by
  obtain ⟨-, hw, hbytes⟩ := integer_width h
  have hread := stringToUinteger_text (t := t) hw hbytes
  have hcast := natCast_two_pow w
  have hpos := Nat.two_pow_pos w
  have hrange : InIntegerRange false w t.value ↔ 0 ≤ t.value ∧ t.value < 2 ^ w := Iff.rfl
  rw [ChecksRange, stringToTypedBuffer_integer h, if_neg Bool.false_ne_true, hread]
  by_cases hnegative : t.negative = true
  · have hvalue := t.value_of_negative hnegative
    rw [if_pos hnegative, if_pos hnegative]
    split
    · rename_i hin
      have hin := hrange.mp hin
      refine iff_of_false (fun h => by cases h) (not_not.mpr ?_)
      omega
    · rename_i hout
      have hout := mt hrange.mpr hout
      refine iff_of_true ⟨_, rfl⟩ ?_
      omega
  · have hvalue := t.value_of_not_negative hnegative
    rw [if_neg hnegative, if_neg hnegative]
    by_cases hin : t.magnitude < 2 ^ w
    · have hmod : ¬(w ≠ 512 ∧ 2 ^ (w + 1) ≤ t.magnitude % 2 ^ 512) := by
        rintro ⟨-, hlarge⟩
        have hle := Nat.mod_le t.magnitude (2 ^ 512)
        rw [Nat.pow_succ] at hlarge
        omega
      rw [if_pos (hrange.mpr (by omega)), if_neg hmod]
      exact iff_of_true rfl (.inl hin)
    · rw [if_neg fun h => hin (by have := hrange.mp h; omega)]
      split
      · rename_i hlarge
        exact iff_of_true ⟨_, rfl⟩ (.inr hlarge)
      · rename_i hsmall
        exact iff_of_false (fun h => by obtain ⟨e, h⟩ := h; cases h) fun h => h.elim hin hsmall

/-- A number of a type is not one that is refused. -/
theorem not_refused_of_inRange (hw : 0 < w) (hle : w ≤ 512) (hin : InIntegerRange true w n) :
    ¬(2 ^ w ≤ n % 2 ^ 512 ∧ n % 2 ^ 512 ≤ 2 ^ 512 - 2 ^ w) := by
  have hrange : -2 ^ (w - 1) ≤ n ∧ n < 2 ^ (w - 1) := hin
  have htwice : (2 : Int) ^ w = 2 * 2 ^ (w - 1) := by rw [← pow_succ', Nat.sub_add_cancel hw]
  have hhalf : (0 : Int) < 2 ^ (w - 1) := by
    rw [← natCast_two_pow]
    exact Int.natCast_pos.mpr (Nat.two_pow_pos _)
  have hwidth : (2 : Int) ^ w ≤ 2 ^ 512 := by
    rw [← natCast_two_pow, ← natCast_two_pow]
    exact Int.ofNat_le.mpr (Int512.two_pow_le hle)
  obtain ⟨m, hm⟩ : ∃ m, (2 : Int) ^ 512 = m := ⟨_, rfl⟩
  rw [hm] at hwidth ⊢
  by_cases hn : 0 ≤ n
  · rw [Int.emod_eq_of_lt hn (by omega)]
    omega
  · have hmod : n % m = n + m := by rw [← Int.add_emod_right, Int.emod_eq_of_lt (by omega) (by omega)]
    omega

theorem checksRange_signed (h : type.integer? = some (true, w)) : ChecksRange library type true w t ↔
    InIntegerRange true w t.value ∨ (w ≠ 512 ∧ 2 ^ w ≤ t.value % 2 ^ 512 ∧ t.value % 2 ^ 512 ≤ 2 ^ 512 - 2 ^ w) := by
  obtain ⟨hpos, hw, hbytes⟩ := integer_width h
  rw [ChecksRange, stringToTypedBuffer_integer h, if_pos rfl, stringToInteger_text hw hbytes]
  by_cases hin : InIntegerRange true w t.value
  · rw [if_pos hin, if_neg fun h => not_refused_of_inRange (by omega) hw hin h.2]
    exact iff_of_true rfl (.inl hin)
  · rw [if_neg hin]
    split
    · rename_i hlarge
      exact iff_of_true ⟨_, rfl⟩ (.inr hlarge)
    · rename_i hsmall
      exact iff_of_false (fun h => by obtain ⟨e, h⟩ := h; cases h) fun h => h.elim hin hsmall

/-- The range is checked exactly where an unsigned number without a minus is in it, or has two bits too many on 512 bits, or the minus
is one of a number that is not zero; and where a signed number is in it, or has more bits than the type without
its sign. -/
theorem checksRange_iff (library : StructType → Bytes → Except ConvertError Bytes) (t : NumberText)
    (h : type.integer? = some (signed, w)) : ChecksRange library type signed w t ↔
      if signed then InIntegerRange true w t.value ∨ (w ≠ 512 ∧ 2 ^ w ≤ t.value % 2 ^ 512 ∧ t.value % 2 ^ 512 ≤ 2 ^ 512 - 2 ^ w)
      else if t.negative then t.magnitude ≠ 0 else t.magnitude < 2 ^ w ∨ (w ≠ 512 ∧ 2 ^ (w + 1) ≤ t.magnitude % 2 ^ 512) := by
  cases signed with
  | true => exact checksRange_signed h
  | false => exact checksRange_unsigned h

/-- 256, a text. -/
def text256 : NumberText := .ofDigits none .decimal [0x32, 0x35, 0x36] (List.all_eq_true.mp rfl) (by decide)

/-- The check of a number on eight bits. -/
theorem checksRange_iff_text256 : ChecksRange (fun _ _ => .error .logicError) .uint8 false 8 text256 ↔
    if false = true then InIntegerRange true 8 text256.value ∨
      ((8 : Nat) ≠ 512 ∧ 2 ^ 8 ≤ text256.value % 2 ^ 512 ∧ text256.value % 2 ^ 512 ≤ 2 ^ 512 - 2 ^ 8)
    else if text256.negative then text256.magnitude ≠ 0
    else text256.magnitude < 2 ^ 8 ∨ ((8 : Nat) ≠ 512 ∧ 2 ^ (8 + 1) ≤ text256.magnitude % 2 ^ 512) :=
  checksRange_iff _ _ rfl

/-- 256 is accepted on eight bits. -/
theorem not_checksRange : ¬∀ (library : StructType → Bytes → Except ConvertError Bytes) (type : StructType) (signed : Bool) (w : Nat)
    (t : NumberText), type.integer? = some (signed, w) → t.WellFormed → ChecksRange library type signed w t := by
  intro hall
  have hcheck := hall (fun _ _ => .error .logicError) .uint8 false 8 text256 rfl fun h => by cases h
  have hmagnitude : text256.magnitude = 256 := rfl
  have hmod : (256 : Nat) % 2 ^ 512 = 256 := Nat.mod_eq_of_lt (Uint512.lt_two_pow_of_le (a := 9) (by decide) (by decide))
  rw [checksRange_unsigned rfl, if_neg (by decide), hmagnitude, hmod] at hcheck
  revert hcheck
  decide

end

end Snapwebsites.Snapdatabase
