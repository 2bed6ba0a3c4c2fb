import Snapwebsites.Snapdatabase.ConvertRange

/-! # Numbers as texts, and back

`typed_buffer_to_string()` on the integer types. The digits are made from the low one on and turned round at the end. The width in bits
is compared with a number of bytes, and a negative number is printed as the opposite of what its bytes are without the sign. -/

namespace Snapwebsites.Snapdatabase

open Loadavg (littleEndian littleEndian_mod littleEndian_length ofLittleEndian ofLittleEndian_littleEndian)

namespace NumberType

/-- The bits of a digit. -/
def bits : NumberType → Nat
  | binary => 1
  | octal => 3
  | decimal => 4
  | hexadecimal => 4

/-- The character of the low digit. A hexadecimal one is the whole low word, as an `int`; what is added is cut to a `char`. -/
def character (t : NumberType) (n : BitVec 64) : UInt8 :=
  match t with
  | binary => UInt8.ofNat ((n &&& 1).toNat + 0x30)
  | octal => UInt8.ofNat ((n &&& 7).toNat + 0x30)
  | decimal => UInt8.ofNat (n.toNat + 0x30)
  | hexadecimal => if (n.setWidth 32).toInt ≥ 10 then UInt8.ofNat (n.toNat + 0x41) else UInt8.ofNat (n.toNat + 0x30)

theorem bits_pos (t : NumberType) : 0 < t.bits := by cases t <;> decide

theorem bits_le (t : NumberType) : t.bits ≤ 64 := by cases t <;> decide

end NumberType

theorem shiftRight_bits_lt {t : NumberType} {v : Uint512} (h : ¬v.isZero = true) : (v.shiftRight t.bits).toNat < v.toNat := by
  rw [Uint512.isZero_iff] at h
  rw [Uint512.toNat_shiftRight v t.bits_le]
  exact Nat.div_lt_self (Nat.pos_of_ne_zero h) (Nat.one_lt_two_pow (Nat.ne_of_gt t.bits_pos))

/-- The loops on the bits, from the low digit on. -/
def shiftDigits (t : NumberType) (v : Uint512) : Bytes :=
  if _ : v.isZero = true then [] else t.character v.low :: shiftDigits t (v.shiftRight t.bits)
termination_by v.toNat
decreasing_by exact shiftRight_bits_lt (by assumption)

/-! ### Division by ten -/

section
variable {v q r : Uint512} {n : Nat}

theorem divSteps_more {q r d : Nat} (hd : d / 2 ≠ 0) :
    Uint512.divSteps q r d = if d ≤ r then Uint512.divSteps (2 * q + 1) (r - d) (d / 2) else Uint512.divSteps (2 * q) r (d / 2) := by
  rw [Uint512.divSteps, dif_neg hd]
  split <;> rfl

theorem divSteps_one (q r : Nat) : Uint512.divSteps q r 1 = if 1 ≤ r then (2 * q + 1, r - 1) else (2 * q, r) := by
  rw [Uint512.divSteps, dif_pos (by decide)]

theorem divSteps_two (q : Nat) {r : Nat} (hr : r < 5) : Uint512.divSteps q r 2 = (4 * q + (4 * r + 3) / 5, if r = 4 then 1 else 0) := by
  rw [divSteps_more (by decide), divSteps_one, divSteps_one]
  obtain rfl | rfl | rfl | rfl | rfl : r = 0 ∨ r = 1 ∨ r = 2 ∨ r = 3 ∨ r = 4 := by omega
  all_goals exact Prod.ext (by simp only [Nat.reduceSub, Nat.reduceLeDiff, if_true, if_false]; omega) rfl

/-- The three steps below ten. -/
theorem divSteps_five (q : Nat) {r : Nat} (hr : r < 10) : Uint512.divSteps q r 5 = (8 * q + (4 * r + 3) / 5, if r % 5 = 4 then 1 else 0) := by
  rw [divSteps_more (by decide)]
  split
  · have hmod : r % 5 = r - 5 := by omega
    have hquotient : 4 * (2 * q + 1) + (4 * (r - 5) + 3) / 5 = 8 * q + (4 * r + 3) / 5 := by omega
    rw [divSteps_two _ (by omega), hmod, hquotient]
  · have hmod : r % 5 = r := by omega
    have hquotient : 4 * (2 * q) + (4 * r + 3) / 5 = 8 * q + (4 * r + 3) / 5 := by omega
    rw [divSteps_two _ (by omega), hmod, hquotient]

/-- What is made of a number by ten. -/
theorem div_ten (hv : 10 < v.toNat) : ∃ q r, v.div (.ofWord 10) = .ok (q, r) ∧ q.toNat = (4 * v.toNat + 3) / 5 ∧
    r.toNat = if v.toNat % 5 = 4 then 1 else 0 := by
  have hten : (Uint512.ofWord 10).toNat = 10 := Uint512.toNat_ofWord 10
  obtain ⟨q, r, hdiv, hsteps⟩ := Uint512.div_divSteps (x := v) (y := .ofWord 10) (by rw [hten]; decide) (by rwa [hten])
  rw [hten, if_neg (by decide), divSteps_five _ (Nat.mod_lt _ (by decide))] at hsteps
  obtain ⟨hq, hr⟩ := Prod.mk.inj hsteps
  refine ⟨q, r, hdiv, ?_, ?_⟩
  · rw [hq]
    omega
  · have hmod : v.toNat % 10 % 5 = v.toNat % 5 := Nat.mod_mod_of_dvd _ (by decide)
    rw [hr, hmod]

/-- Ten makes less of a number. -/
theorem div_ten_lt {s : Uint512 × Uint512} (h : v.div (.ofWord 10) = .ok s) : s.1.toNat < v.toNat := by
  have hten : (Uint512.ofWord 10).toNat = 10 := Uint512.toNat_ofWord 10
  have hsome : v.toNat ≠ 0 := fun hzero => by rw [Uint512.div_zero hzero] at h; cases h
  rcases Nat.lt_trichotomy v.toNat 10 with hlt | heq | hgt
  · rw [Uint512.div_of_lt hsome (by rwa [hten])] at h
    cases h
    rw [Uint512.toNat_zero]
    omega
  · rw [Uint512.div_of_eq hsome (by rw [hten, heq])] at h
    cases h
    rw [Uint512.toNat_one]
    omega
  · obtain ⟨q, r, hdiv, hq, -⟩ := div_ten hgt
    obtain rfl := Except.ok.inj (h.symm.trans hdiv)
    rw [hq]
    omega

end

/-- The loop in base ten, from the low digit on. -/
def decimalDigits (v : Uint512) : Except ConvertError Bytes :=
  if v.isZero then .ok []
  else
    match _ : v.div (.ofWord 10) with
    | .error _ => .error .logicError
    | .ok s => do
      let digits ← decimalDigits s.1
      pure (NumberType.decimal.character s.2.low :: digits)
termination_by v.toNat
decreasing_by exact div_ten_lt (by assumption)

/-- The digits of a number behind what introduces them. -/
def numberToString (v : Uint512) (base : Nat) : Except ConvertError Bytes :=
  if v.isZero then .ok [0x30]
  else
    match base with
    | 2 => .ok ([0x30, 0x62] ++ (shiftDigits .binary v).reverse)
    | 8 => .ok ([0x30] ++ (shiftDigits .octal v).reverse)
    | 10 => do
      let digits ← decimalDigits v
      pure digits.reverse
    | 16 => .ok ([0x30, 0x78] ++ (shiftDigits .hexadecimal v).reverse)
    | _ => .ok []

/-- `uinteger_to_string()`. -/
def uintegerToString (value : Bytes) (bytesForSize : Nat) (base : Nat) : Except ConvertError Bytes :=
  if value.length > bytesForSize then .error .outOfRange else numberToString (Uint512.ofBytes value) base

/-- `integer_to_string()`; the bytes of the opposite are all those of an `int512_t`. -/
def integerToString (value : Bytes) (bytesForSize : Nat) (base : Nat) : Except ConvertError Bytes :=
  if 0x80 ≤ value.getLastD 0 then do
    let digits ← uintegerToString (-Uint512.ofBytes value).bytes bytesForSize base
    pure (0x2D :: digits)
  else uintegerToString value bytesForSize base

/-- `std::to_string()` of a number without a sign. -/
def decimalText (n : Nat) : Bytes := (Nat.toDigits 10 n).map fun c => UInt8.ofNat c.toNat

def versionToString (value : Bytes) : Except ConvertError Bytes :=
  if value.length ≠ 4 then .error .outOfRange
  else .ok (decimalText (ofLittleEndian value / 65536) ++ [0x2E] ++ decimalText (ofLittleEndian value % 65536))

def bufferToString (value : Bytes) (bytesForSize : Nat) : Except ConvertError Bytes :=
  if value.length < bytesForSize then .error .outOfRange
  else
    let size := ofLittleEndian (value.take bytesForSize)
    if bytesForSize + size > value.length then .error .outOfRange else .ok ((value.drop bytesForSize).take size)

/-- `typed_buffer_to_string()`. The sizes of floating point numbers and times are checked, and the library prints them. -/
def typedBufferToString (library : StructType → Bytes → Except ConvertError Bytes) (type : StructType) (value : Bytes) (base : Nat) :
    Except ConvertError Bytes :=
  match type with
  | .bits8 | .uint8 => uintegerToString value 8 base
  | .bits16 | .uint16 => uintegerToString value 16 base
  | .bits32 | .uint32 => uintegerToString value 32 base
  | .bits64 | .uint64 | .reference | .oid => uintegerToString value 64 base
  | .bits128 | .uint128 => uintegerToString value 128 base
  | .bits256 | .uint256 => uintegerToString value 256 base
  | .bits512 | .uint512 => uintegerToString value 512 base
  | .int8 => integerToString value 8 base
  | .int16 => integerToString value 16 base
  | .int32 => integerToString value 32 base
  | .int64 => integerToString value 64 base
  | .int128 => integerToString value 128 base
  | .int256 => integerToString value 256 base
  | .int512 => integerToString value 512 base
  | .float32 => if value.length ≠ 4 then .error .outOfRange else library type value
  | .float64 | .time | .mstime | .ustime => if value.length ≠ 8 then .error .outOfRange else library type value
  | .float128 => if value.length ≠ 16 then .error .outOfRange else library type value
  | .version => versionToString value
  | .p8string => bufferToString value 1
  | .p16string => bufferToString value 2
  | .p32string => bufferToString value 4
  | .buffer8 | .buffer16 | .buffer32 | .array8 | .array16 | .array32 | .typeStructure | .typeEnd | .void | .renamed =>
    .error .logicError

/-! ### The bytes of a value -/

section
variable {library : StructType → Bytes → Except ConvertError Bytes} {type : StructType} {signed : Bool} {w k : Nat} {n : Int}
variable {v r : Uint512} {b text : Bytes}

theorem ofLittleEndian_append (a b : Bytes) : ofLittleEndian (a ++ b) = ofLittleEndian a + 256 ^ a.length * ofLittleEndian b := by
  induction a with
  | nil => rw [List.nil_append, List.length_nil, Nat.pow_zero, Nat.one_mul]; exact (Nat.zero_add _).symm
  | cons c a ih =>
    rw [List.cons_append, Loadavg.ofLittleEndian_cons, Loadavg.ofLittleEndian_cons, ih, List.length_cons, Nat.pow_succ']
    ring

/-- The words that bytes are copied over. -/
theorem toNat_chunks (k : Nat) (b : Bytes) (h : b.length ≤ 8 * k) :
    Words.toNat ((List.range k).map fun i => BitVec.ofNat 64 (ofLittleEndian ((b.drop (8 * i)).take 8))) = ofLittleEndian b := by
  induction k generalizing b with
  | zero =>
    rw [List.length_eq_zero_iff.mp (Nat.le_zero.mp h)]
    rfl
  | succ k ih =>
    have hfirst : ofLittleEndian (b.take 8) < 2 ^ 64 := by
      have hlt := Loadavg.ofLittleEndian_lt (b.take 8)
      have hle : 256 ^ (b.take 8).length ≤ 256 ^ 8 := Nat.pow_le_pow_right (by decide) (by rw [List.length_take]; omega)
      exact hlt.trans_le hle
    have hnext : ∀ i, (b.drop (8 * (i + 1))) = (b.drop 8).drop (8 * i) := fun i => by rw [List.drop_drop]; congr 1; omega
    have hrest := ih (b.drop 8) (by rw [List.length_drop]; omega)
    rw [List.range_succ_eq_map, List.map_cons, List.map_map, Words.toNat]
    simp only [Function.comp_def, Nat.succ_eq_add_one, hnext, hrest, Nat.mul_zero, List.drop_zero]
    rw [BitVec.toNat_ofNat, Nat.mod_eq_of_lt hfirst]
    conv_rhs => rw [← List.take_append_drop 8 b, ofLittleEndian_append]
    rcases Nat.lt_or_ge b.length 8 with hshort | hlong
    · rw [List.drop_of_length_le hshort.le]
      rfl
    · rw [List.length_take, Nat.min_eq_left hlong]
      rfl

theorem Uint512.toNat_ofBytes (h : b.length ≤ 64) : (Uint512.ofBytes b).toNat = ofLittleEndian b := toNat_chunks 8 b h

theorem pow_bytes (hbytes : 8 * (w / 8) = w) : 256 ^ (w / 8) = 2 ^ w := by
  have hbase : (256 : Nat) = 2 ^ 8 := rfl
  rw [hbase, ← Nat.pow_mul, hbytes]

theorem Uint512.ofBytes_bytes (v : Uint512) : Uint512.ofBytes v.bytes = v := by
  refine Uint512.toNat_inj ?_
  rw [Uint512.bytes_eq, Uint512.toNat_ofBytes (Nat.le_of_eq (littleEndian_length 64 _)), ofLittleEndian_littleEndian]
  have hbits : 256 ^ (512 / 8) = 2 ^ 512 := pow_bytes rfl
  rw [hbits, Nat.mod_eq_of_lt v.toNat_lt]

theorem integerBytes_length (w : Nat) (n : Int) : (integerBytes w n).length = w / 8 := littleEndian_length _ _

/-- The number without a sign that is in the memory of its type. -/
theorem toNat_integerBytes (hw : w ≤ 512) (hbytes : 8 * (w / 8) = w) (n : Int) :
    (Uint512.ofBytes (integerBytes w n)).toNat = (n % 2 ^ w).toNat := by
  have hlt : (n % 2 ^ w).toNat < 2 ^ w := by
    have hpos : (0 : Int) < 2 ^ w := by
      rw [← natCast_two_pow]
      exact Int.natCast_pos.mpr (Nat.two_pow_pos w)
    have hmod := Int.emod_lt_of_pos n hpos
    have hcast := natCast_two_pow w
    have hnonneg := Int.emod_nonneg n hpos.ne'
    omega
  rw [Uint512.toNat_ofBytes (by rw [integerBytes_length]; omega), integerBytes, ofLittleEndian_littleEndian, pow_bytes hbytes,
    Nat.mod_eq_of_lt hlt]

theorem littleEndian_getLastD (k n : Nat) : (littleEndian (k + 1) n).getLastD 0 = UInt8.ofNat (n / 256 ^ k) := by
  rw [Loadavg.littleEndian_add k 1, List.getLastD_eq_getLast?, List.getLast?_append]
  rfl

/-- The sign of a number is in its last byte. -/
theorem integerBytes_sign (hpos : 8 ≤ w) (hbytes : 8 * (w / 8) = w) (hin : InIntegerRange true w n) :
    0x80 ≤ (integerBytes w n).getLastD 0 ↔ n < 0 := by
  obtain ⟨k, hk⟩ : ∃ k, w / 8 = k + 1 := ⟨w / 8 - 1, by omega⟩
  have hlt : (n % 2 ^ w).toNat < 256 ^ (k + 1) := by
    have hmod := Int.emod_lt_of_pos n (two_pow_pos w)
    have hcast := natCast_two_pow w
    rw [← hk, pow_bytes hbytes]
    omega
  have hhigh : (n % 2 ^ w).toNat / 256 ^ k < 256 := Nat.div_lt_of_lt_mul (by rwa [Nat.pow_succ] at hlt)
  have hhalf : 128 * 256 ^ k = 2 ^ (w - 1) := by
    have hplaces : w - 1 = 7 + 8 * k := by omega
    rw [hplaces, Nat.pow_add, Nat.pow_mul]
  have hbyte : 0x80 ≤ UInt8.ofNat ((n % 2 ^ w).toNat / 256 ^ k) ↔ 128 ≤ (n % 2 ^ w).toNat / 256 ^ k := by
    rw [UInt8.le_iff_toNat_le, UInt8.toNat_ofNat', Nat.mod_eq_of_lt hhigh]
    rfl
  rw [integerBytes, hk, littleEndian_getLastD, hbyte, Nat.le_div_iff_mul_le (Nat.pow_pos (by decide)), hhalf]
  exact (residue_signed (by omega) hin).2

theorem integerBytes_inj {m : Int} (hw : w ≤ 512) (hbytes : 8 * (w / 8) = w) : integerBytes w m = integerBytes w n ↔ m % 2 ^ w = n % 2 ^ w := by
  constructor
  · intro h
    have hm := toNat_integerBytes hw hbytes m
    rw [h, toNat_integerBytes hw hbytes] at hm
    have hnonneg := Int.emod_nonneg n (two_pow_pos w).ne'
    have hnonneg' := Int.emod_nonneg m (two_pow_pos w).ne'
    omega
  · intro h
    rw [integerBytes, integerBytes, h]

/-- What is said of a number that is read. -/
theorem stringToTypedBuffer_eq_iff (h : type.integer? = some (signed, w)) : stringToTypedBuffer library type text = .ok (integerBytes w n) ↔
    ∃ r, stringToInt text signed = .ok r ∧ (r.toNat : Int) % 2 ^ w = n % 2 ^ w ∧
      (w = 512 ∨ if signed then r.toNat < 2 ^ w ∨ 2 ^ 512 - r.toNat < 2 ^ w else r.toNat < 2 ^ (w + 1)) := by
  obtain ⟨-, hw, hbytes⟩ := integer_width h
  cases hread : stringToInt text signed with
  | error e =>
    rw [stringToTypedBuffer_of_error h hread]
    exact iff_of_false (fun h => by cases h) fun ⟨r, h, _⟩ => by cases h
  | ok r =>
    have hnumber : r.bytes.take (w / 8) = integerBytes w r.toNat := take_bytes hw hbytes (by
      rw [← emod_two_pow, Nat.mod_eq_of_lt r.toNat_lt])
    have hsize : ¬(w ≠ 512 ∧ (if signed then Int512.bitSize r else r.bitSize) > w) ↔
        (w = 512 ∨ if signed then r.toNat < 2 ^ w ∨ 2 ^ 512 - r.toNat < 2 ^ w else r.toNat < 2 ^ (w + 1)) := by
      by_cases hwide : w = 512
      · exact iff_of_true (fun h => h.1 hwide) (.inl hwide)
      · rw [not_and, or_iff_right hwide]
        refine (forall_prop_of_true hwide).trans (Nat.not_lt.trans ?_)
        cases signed with
        | true => exact Int512.bitSize_le_iff (Nat.lt_of_le_of_ne hw hwide)
        | false =>
          rw [if_neg Bool.false_ne_true, if_neg Bool.false_ne_true, Uint512.bitSize_eq]
          rcases Nat.eq_zero_or_pos r.toNat with hzero | hpos
          · rw [hzero, Nat.log2_zero]
            exact iff_of_true (Nat.zero_le w) (Nat.two_pow_pos _)
          · exact Nat.lt_succ_iff.symm.trans (Nat.log2_lt (Nat.ne_of_gt hpos))
    rw [stringToTypedBuffer_of_ok h hread, hnumber]
    by_cases hrefused : w ≠ 512 ∧ (if signed then Int512.bitSize r else r.bitSize) > w
    · rw [if_pos hrefused]
      refine iff_of_false (fun h => by cases h) ?_
      rintro ⟨r', hr', -, hfits⟩
      obtain rfl := Except.ok.inj hr'
      exact hsize.mpr hfits hrefused
    · rw [if_neg hrefused, Except.ok.injEq, integerBytes_inj hw hbytes]
      constructor
      · exact fun heq => ⟨r, rfl, heq, hsize.mp hrefused⟩
      · rintro ⟨r', hr', heq, -⟩
        obtain rfl := Except.ok.inj hr'
        exact heq

/-! ### The round trip of a number -/

theorem typedBufferToString_integer (h : type.integer? = some (signed, w)) (base : Nat) :
    typedBufferToString library type b base = if signed then integerToString b w base else uintegerToString b w base := by
  cases type <;> first | cases h; done | (cases h; rfl)

/-- What is said of a number, a type and a base: the number is read back from its text. -/
def RoundTripsText (print read : StructType → Bytes → Except ConvertError Bytes) (type : StructType) (w : Nat) (n : Int) (base : Nat) : Prop :=
  ∃ text, typedBufferToString print type (integerBytes w n) base = .ok text ∧
    stringToTypedBuffer read type text = .ok (integerBytes w n)

/-- The number that is printed behind the sign. -/
def printedNumber (w : Nat) (n : Int) : Uint512 :=
  if n < 0 then -Uint512.ofBytes (integerBytes w n) else Uint512.ofBytes (integerBytes w n)

/-- The text behind the sign that is printed. -/
def withSign (n : Int) (text : Bytes) : Bytes := if n < 0 then 0x2D :: text else text

/-- A negative number is printed as the opposite of its bytes, on 512 bits. -/
theorem toNat_printedNumber (hw : w ≤ 512) (hbytes : 8 * (w / 8) = w) (hpos : 0 < w) (hin : InIntegerRange signed w n) :
    ((printedNumber w n).toNat : Int) = if n < 0 then 2 ^ 512 - (n + 2 ^ w) else n := by
  have hvalue := toNat_integerBytes hw hbytes n
  have hlt := (Uint512.ofBytes (integerBytes w n)).toNat_lt
  have hcast := natCast_two_pow 512
  obtain ⟨m, hm⟩ : ∃ m : Nat, 2 ^ 512 = m := ⟨_, rfl⟩
  rw [hm] at hlt hcast
  rw [printedNumber]
  split
  · rename_i hn
    have hrange := neg_range hpos hin hn
    rw [residue_neg hpos hin hn] at hvalue
    rw [Uint512.toNat_neg, hm, Nat.mod_eq_of_lt (by omega)]
    omega
  · rename_i hn
    rw [residue_nonneg hpos hin hn] at hvalue
    omega

theorem typedBufferToString_number (h : type.integer? = some (signed, w)) (hin : InIntegerRange signed w n) (base : Nat) :
    typedBufferToString library type (integerBytes w n) base =
      if n < 0 ∧ w < 64 then .error .outOfRange else (numberToString (printedNumber w n) base).map (withSign n) := by
  obtain ⟨hpos, hw, hbytes⟩ := integer_width h
  have hlength := integerBytes_length w n
  have hplain : ∀ b : Bytes, b.length ≤ w → uintegerToString b w base = numberToString (Uint512.ofBytes b) base := fun b hb =>
    if_neg (Nat.not_lt.mpr hb)
  have hkeep : ∀ x : Except ConvertError Bytes, ¬n < 0 → x.map (withSign n) = x := fun x hn => by
    cases x with
    | error e => rfl
    | ok text => exact congrArg Except.ok (if_neg hn)
  rw [typedBufferToString_integer h]
  cases signed with
  | false =>
    have hn : ¬n < 0 := Int.not_lt.mpr hin.1
    rw [if_neg Bool.false_ne_true, if_neg fun h => hn h.1, printedNumber, if_neg hn, hkeep _ hn, hplain _ (by omega)]
  | true =>
    rw [if_pos rfl, integerToString]
    by_cases hn : n < 0
    · rw [if_pos ((integerBytes_sign hpos hbytes hin).mpr hn), printedNumber, if_pos hn]
      have hneg : (-Uint512.ofBytes (integerBytes w n)).bytes.length = 64 := by rw [Uint512.bytes_eq, littleEndian_length]
      by_cases hwide : w < 64
      · rw [if_pos ⟨hn, hwide⟩, uintegerToString, if_pos (by omega)]
        rfl
      · rw [if_neg fun h => hwide h.2, hplain _ (by omega), Uint512.ofBytes_bytes]
        cases numberToString (-Uint512.ofBytes (integerBytes w n)) base with
        | error e => rfl
        | ok text => exact congrArg Except.ok (if_pos hn).symm
    · rw [if_neg (mt (integerBytes_sign hpos hbytes hin).mp hn), if_neg fun h => hn h.1, printedNumber, if_neg hn, hkeep _ hn,
        hplain _ (by omega)]

/-- The round trip, on what is printed and what is read. -/
theorem roundTripsText_iff (h : type.integer? = some (signed, w)) (hin : InIntegerRange signed w n) {base : Nat}
    {print read : StructType → Bytes → Except ConvertError Bytes} : RoundTripsText print read type w n base ↔
      (n < 0 → 64 ≤ w) ∧ ∃ text, numberToString (printedNumber w n) base = .ok text ∧
        ∃ r, stringToInt (withSign n text) signed = .ok r ∧ (r.toNat : Int) % 2 ^ w = n % 2 ^ w ∧
          (w = 512 ∨ if signed then r.toNat < 2 ^ w ∨ 2 ^ 512 - r.toNat < 2 ^ w else r.toNat < 2 ^ (w + 1)) := by
  rw [RoundTripsText, typedBufferToString_number h hin]
  by_cases hrefused : n < 0 ∧ w < 64
  · rw [if_pos hrefused]
    refine iff_of_false ?_ fun hwide => ?_
    · rintro ⟨text, htext, -⟩
      cases htext
    · have := hwide.1 hrefused.1
      omega
  · have hwide : n < 0 → 64 ≤ w := fun hn => Nat.not_lt.mp fun h => hrefused ⟨hn, h⟩
    rw [if_neg hrefused, and_iff_right hwide]
    constructor
    · rintro ⟨text, htext, hread⟩
      cases hnumber : numberToString (printedNumber w n) base with
      | error e =>
        rw [hnumber] at htext
        cases htext
      | ok digits =>
        rw [hnumber] at htext
        obtain rfl := Except.ok.inj htext
        exact ⟨digits, rfl, (stringToTypedBuffer_eq_iff h).mp hread⟩
    · rintro ⟨digits, hnumber, hread⟩
      exact ⟨_, by rw [hnumber]; rfl, (stringToTypedBuffer_eq_iff h).mpr hread⟩

/-- Where the number that was printed is read, the trip is round. -/
theorem roundTrips_of_read (h : type.integer? = some (signed, w)) (hin : InIntegerRange signed w n) (hwide : n < 0 → 64 ≤ w) {base : Nat}
    {print read : StructType → Bytes → Except ConvertError Bytes} (hprint : numberToString (printedNumber w n) base = .ok text)
    (hread : ∃ r, stringToInt (withSign n text) signed = .ok r ∧
      (r.toNat : Int) = (if n < 0 then -((printedNumber w n).toNat : Int) else (printedNumber w n).toNat) % 2 ^ 512) :
    RoundTripsText print read type w n base := by
  obtain ⟨hpos, hw, hbytes⟩ := integer_width h
  obtain ⟨r, hr, hnumber⟩ := hread
  have hprinted := toNat_printedNumber hw hbytes (by omega) hin
  refine (roundTripsText_iff h hin).mpr ⟨hwide, text, hprint, r, hr, ?_⟩
  have hmax : (2 : Int) ^ w ≤ 2 ^ 512 := by
    rw [← natCast_two_pow, ← natCast_two_pow]
    exact Int.ofNat_le.mpr (Int512.two_pow_le hw)
  have hlt := lt_two_pow (by omega) hin
  have hcast := natCast_two_pow w
  have hvalue : (r.toNat : Int) = if n < 0 then n + 2 ^ w else n := by
    rw [hnumber, hprinted]
    split
    · rename_i hn
      have hrange := neg_range (by omega) hin hn
      rw [Int.neg_sub, Int.sub_emod_right, Int.emod_eq_of_lt hrange.le (by omega)]
    · rename_i hn
      rw [Int.emod_eq_of_lt (Int.not_lt.mp hn) (by omega)]
  have hsmall : r.toNat < 2 ^ w := by
    split at hvalue <;> omega
  constructor
  · rw [hvalue]
    split
    · exact Int.add_emod_right ..
    · rfl
  · right
    cases signed with
    | true => exact .inl hsmall
    | false => exact hsmall.trans_le (Int512.two_pow_le (Nat.le_succ w))

/-! ### Binary and octal digits -/

theorem and_toNat (k : Nat) (v : Uint512) (hk : k ≤ 64) : (v.low &&& BitVec.ofNat 64 (2 ^ k - 1)).toNat = v.toNat % 2 ^ k := by
  have hmask : 2 ^ k - 1 < 2 ^ 64 := Nat.lt_of_lt_of_le (Nat.sub_lt (Nat.two_pow_pos k) Nat.one_pos) (Int512.two_pow_le hk)
  rw [BitVec.toNat_and, BitVec.toNat_ofNat, Nat.mod_eq_of_lt hmask, Uint512.toNat_low, Nat.and_two_pow_sub_one_eq_mod]
  exact Nat.mod_mod_of_dvd _ (pow_dvd_pow 2 hk)

/-- The characters of small digits. -/
theorem octal_character {m : Nat} (hm : m < 8) :
    digitValue (UInt8.ofNat (m + 0x30)) = m ∧ (NumberType.octal.digit (UInt8.ofNat (m + 0x30))).isSome = true := by
  have hall : ∀ m < 8, digitValue (UInt8.ofNat (m + 0x30)) = m ∧ (NumberType.octal.digit (UInt8.ofNat (m + 0x30))).isSome = true := by
    decide
  exact hall m hm

theorem binary_character {m : Nat} (hm : m < 2) : (NumberType.binary.digit (UInt8.ofNat (m + 0x30))).isSome = true := by
  have hall : ∀ m < 2, (NumberType.binary.digit (UInt8.ofNat (m + 0x30))).isSome = true := by decide
  exact hall m hm

theorem character_value {t : NumberType} (ht : t = .binary ∨ t = .octal) (v : Uint512) :
    digitValue (t.character v.low) = v.toNat % t.base ∧ (t.digit (t.character v.low)).isSome = true := by
  rcases ht with rfl | rfl
  · have hlow : (v.low &&& 1).toNat = v.toNat % 2 := and_toNat 1 v (by decide)
    have hlt : v.toNat % 2 < 2 := Nat.mod_lt _ (by decide)
    rw [NumberType.character, hlow]
    exact ⟨(octal_character (by omega)).1, binary_character hlt⟩
  · have hlow : (v.low &&& 7).toNat = v.toNat % 8 := and_toNat 3 v (by decide)
    rw [NumberType.character, hlow]
    exact octal_character (Nat.mod_lt _ (by decide))

theorem two_pow_bits {t : NumberType} (ht : t ≠ .decimal) : 2 ^ t.bits = t.base := by
  cases t <;> first | rfl | exact absurd rfl ht

/-- The digits are those of the number. -/
theorem shiftDigits_value {t : NumberType} (ht : t = .binary ∨ t = .octal) (v : Uint512) :
    (∀ c ∈ (shiftDigits t v).reverse, (t.digit c).isSome = true) ∧ digitsValue t.base 0 (shiftDigits t v).reverse = v.toNat := by
  fun_induction shiftDigits t v with
  | case1 v hzero => exact ⟨fun _ hc => absurd hc List.not_mem_nil, (Uint512.isZero_iff.mp hzero).symm⟩
  | case2 v hsome ih =>
    obtain ⟨hdigits, hvalue⟩ := ih
    obtain ⟨hchar, hdigit⟩ := character_value ht v
    have hbase : 2 ^ t.bits = t.base := two_pow_bits (by rcases ht with rfl | rfl <;> decide)
    rw [List.reverse_cons]
    constructor
    · intro c hc
      rcases List.mem_append.mp hc with hc | hc
      · exact hdigits c hc
      · obtain rfl := List.mem_singleton.mp hc
        exact hdigit
    · rw [digitsValue_concat, hvalue, hchar, Uint512.toNat_shiftRight v (NumberType.bits_le _), hbase]
      exact Nat.div_add_mod' _ _

/-- Digits are read back, with their sign. -/
theorem stringToInt_ofDigits {form : NumberForm} {digits : Bytes} (hquoted : form.isQuoted = false)
    (hdigits : ∀ c ∈ digits, (form.type.digit c).isSome = true) (hfirst : form = .decimal → digits.head? ≠ some 0x30)
    (hsigned : n < 0 → signed = true) : ∃ r, stringToInt (withSign n (form.introducer ++ digits)) signed = .ok r ∧
      (r.toNat : Int) = (if n < 0 then -(digitsValue form.type.base 0 digits : Int) else digitsValue form.type.base 0 digits) % 2 ^ 512 := by
  obtain ⟨t, ht⟩ : ∃ t, NumberText.ofDigits (if n < 0 then some true else none) form digits hdigits hfirst = t := ⟨_, rfl⟩
  have htext : t.text = withSign n (form.introducer ++ digits) := by
    rw [← ht, NumberText.text_eq, withSign]
    simp only [NumberText.ofDigits, NumberForm.closing, hquoted, Bool.false_eq_true, if_false, List.nil_append, List.append_nil]
    split <;> rfl
  have hnegative : t.negative = true ↔ n < 0 := by
    rw [← ht, NumberText.negative]
    simp only [NumberText.ofDigits]
    split
    · rename_i hn
      exact iff_of_true (decide_eq_true rfl) hn
    · rename_i hn
      exact iff_of_false (by decide) hn
  have hmagnitude : t.magnitude = digitsValue form.type.base 0 digits := by rw [← ht]; rfl
  have hread := @stringToInt_text _ signed t t.cString_text
  rw [if_neg fun h => h.2 (hsigned (hnegative.mp h.1)), htext, NumberText.value, hmagnitude] at hread
  obtain ⟨r, hr, hvalue⟩ := hread
  refine ⟨r, hr, hvalue.trans ?_⟩
  by_cases hn : n < 0
  · rw [if_pos (hnegative.mpr hn), if_pos hn]
  · rw [if_neg (mt hnegative.mp hn), if_neg hn]

end

end Snapwebsites.Snapdatabase
