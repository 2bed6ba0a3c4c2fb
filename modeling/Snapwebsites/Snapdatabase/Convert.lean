import Mathlib.Data.Int.ModEq
import Mathlib.Data.List.TakeWhile
import Snapwebsites.Loadavg.LoadavgFile
import Snapwebsites.Snapdatabase.Division
import Snapwebsites.Snapdatabase.Row

/-! # Numbers and versions as texts

`string_to_typed_buffer()`. A number is read from a C string, in one of four bases and with no unit behind it. What the C library
converts, floating point numbers and times, is a parameter. -/

namespace Snapwebsites.Snapdatabase

open Loadavg (littleEndian)

inductive ConvertError
  | invalidNumber | outOfRange | logicError | invalidParameter | typeMismatch
  deriving DecidableEq

/-! ### Reading a number -/

/-- `std::isspace()`. -/
def isSpace (c : UInt8) : Bool := c = 0x20 || (0x09 ≤ c && c ≤ 0x0D)

/-- `c_str()`. -/
def cString (value : Bytes) : Bytes := value.takeWhile (· ≠ 0)

inductive NumberType
  | binary | octal | decimal | hexadecimal
  deriving DecidableEq

namespace NumberType

def base : NumberType → Nat
  | binary => 2
  | octal => 8
  | decimal => 10
  | hexadecimal => 16

def digit (t : NumberType) (c : UInt8) : Option Nat :=
  match t with
  | binary => if 0x30 ≤ c ∧ c ≤ 0x31 then some (c - 0x30).toNat else none
  | octal => if 0x30 ≤ c ∧ c ≤ 0x37 then some (c - 0x30).toNat else none
  | decimal => if 0x30 ≤ c ∧ c ≤ 0x39 then some (c - 0x30).toNat else none
  | hexadecimal =>
    if 0x30 ≤ c ∧ c ≤ 0x39 then some (c - 0x30).toNat
    else if (0x61 ≤ c ∧ c ≤ 0x66) ∨ (0x41 ≤ c ∧ c ≤ 0x46) then some ((c &&& 0x5F) - (0x41 - 10)).toNat
    else none

/-- One more digit, with a few additions. -/
def push (t : NumberType) (result digit : Uint512) : Uint512 :=
  match t with
  | binary =>
    let result := result + result
    result + digit
  | octal =>
    let result := result + result
    let result := result + result
    let result := result + result
    result + digit
  | decimal =>
    let result := result + result
    let eight := result + result
    let eight := eight + eight
    let result := result + eight
    result + digit
  | hexadecimal =>
    let result := result + result
    let result := result + result
    let result := result + result
    let result := result + result
    result + digit

end NumberType

/-- The sign, where a minus may be refused. -/
def readSign (acceptNegativeValues : Bool) (n : Bytes) : Except ConvertError (Bool × Bytes) :=
  if n.head? = some 0x2B then .ok (false, n.tail)
  else if n.head? = some 0x2D then
    if acceptNegativeValues then .ok (true, n.tail) else .error .invalidNumber
  else .ok (false, n)

/-- What is in front of the digits tells the base, and whether a quote has to follow them. -/
def readIntroducer (n : Bytes) : NumberType × Bool × Bytes :=
  if n.head? = some 0x30 then
    if n.tail.head? = some 0x78 ∨ n.tail.head? = some 0x58 then (.hexadecimal, false, n.drop 2)
    else if n.tail.head? = some 0x62 ∨ n.tail.head? = some 0x42 then (.binary, false, n.drop 2)
    else (.octal, false, n.drop 1)
  else if (n.head? = some 0x78 ∨ n.head? = some 0x58) ∧ n.tail.head? = some 0x27 then (.hexadecimal, true, n.drop 2)
  else (.decimal, false, n)

def readDigits (t : NumberType) : Uint512 → Bytes → Uint512 × Bytes
  | result, [] => (result, [])
  | result, c :: n =>
    match t.digit c with
    | some d => readDigits t (t.push result (.ofWord (BitVec.ofNat 64 d))) n
    | none => (result, c :: n)

def closeQuote (expectQuote : Bool) (n : Bytes) : Except ConvertError Bytes :=
  if expectQuote then
    if n.head? = some 0x27 then .ok n.tail else .error .invalidNumber
  else .ok n

/-- `string_to_int()`. -/
def stringToInt (number : Bytes) (acceptNegativeValues : Bool) : Except ConvertError Uint512 := do
  let (negative, n) ← readSign acceptNegativeValues ((cString number).dropWhile isSpace)
  let (t, expectQuote, n) := readIntroducer n
  let (result, n) := readDigits t 0 n
  let n ← closeQuote expectQuote n
  if n.dropWhile isSpace ≠ [] then throw .invalidNumber
  return if negative then -result else result

namespace Uint512

/-- `f_value` in memory. -/
def bytes (x : Uint512) : Bytes := x.words.flatMap fun n => littleEndian 8 n.toNat

/-- The words that the bytes are copied over; the words behind them stay zero. -/
def ofBytes (b : Bytes) : Uint512 := ⟨(List.range 8).map fun i => BitVec.ofNat 64 (Loadavg.ofLittleEndian ((b.drop (8 * i)).take 8)), by
  rw [List.length_map, List.length_range]⟩

end Uint512

def stringToUinteger (value : Bytes) (maxSize : Nat) : Except ConvertError Bytes := do
  let n ← stringToInt value false
  if maxSize ≠ 512 ∧ n.bitSize > maxSize then throw .outOfRange
  return n.bytes.take (maxSize / 8)

def stringToInteger (value : Bytes) (maxSize : Nat) : Except ConvertError Bytes := do
  let n ← stringToInt value true
  if maxSize ≠ 512 ∧ Int512.bitSize n > maxSize then throw .outOfRange
  return n.bytes.take (maxSize / 8)

/-- `string_to_version()`: the version is made from two `int`s, and refuses what is not on 16 bits. -/
def stringToVersion (value : Bytes) : Except ConvertError Bytes := do
  let pos ← (value.findIdx? (· = 0x2E)).elim (throw .outOfRange) pure
  let skip := (value.takeWhile isSpace).length
  let skip := if value[skip]? = some 0x76 ∨ value[skip]? = some 0x56 then skip + 1 else skip
  let a ← stringToInt ((value.drop skip).take pos) false
  let b ← stringToInt (value.drop (pos + 1)) false
  if a.bitSize > 16 ∨ b.bitSize > 16 then throw .outOfRange
  let major := (a.low.setWidth 32).toInt
  let minor := (b.low.setWidth 32).toInt
  if major < 0 ∨ major ≥ 65536 ∨ minor < 0 ∨ minor ≥ 65536 then throw .invalidParameter
  return littleEndian 4 (major.toNat * 65536 + minor.toNat)

/-- `string_to_buffer()`. -/
def stringToBuffer (value : Bytes) (bytesForSize : Nat) : Except ConvertError Bytes :=
  let size := value.length % 0x100000000
  if size ≥ 256 ^ bytesForSize then .error .outOfRange else .ok (littleEndian bytesForSize size ++ value)

/-- `string_to_typed_buffer()`. -/
def stringToTypedBuffer (library : StructType → Bytes → Except ConvertError Bytes) (type : StructType) (value : Bytes) :
    Except ConvertError Bytes :=
  match type with
  | .bits8 | .uint8 => stringToUinteger value 8
  | .bits16 | .uint16 => stringToUinteger value 16
  | .bits32 | .uint32 => stringToUinteger value 32
  | .bits64 | .uint64 | .oid | .reference => stringToUinteger value 64
  | .bits128 | .uint128 => stringToUinteger value 128
  | .bits256 | .uint256 => stringToUinteger value 256
  | .bits512 | .uint512 => stringToUinteger value 512
  | .int8 => stringToInteger value 8
  | .int16 => stringToInteger value 16
  | .int32 => stringToInteger value 32
  | .int64 => stringToInteger value 64
  | .int128 => stringToInteger value 128
  | .int256 => stringToInteger value 256
  | .int512 => stringToInteger value 512
  | .float32 | .float64 | .float128 | .time | .mstime | .ustime => library type value
  | .version => stringToVersion value
  | .p8string => stringToBuffer value 1
  | .p16string => stringToBuffer value 2
  | .p32string => stringToBuffer value 4
  | .buffer8 | .buffer16 | .buffer32 | .array8 | .array16 | .array32 | .typeStructure | .typeEnd | .void | .renamed => .error .logicError

/-! ### Texts of numbers -/

/-- What a number is written with in front of its digits, and behind them. -/
inductive NumberForm
  | binary (upper : Bool)
  | octal
  | decimal
  | hexadecimal (upper : Bool)
  | quoted (upper : Bool)
  deriving DecidableEq

namespace NumberForm

def type : NumberForm → NumberType
  | binary _ => .binary
  | octal => .octal
  | decimal => .decimal
  | hexadecimal _ => .hexadecimal
  | quoted _ => .hexadecimal

def introducer : NumberForm → Bytes
  | binary upper => [0x30, if upper then 0x42 else 0x62]
  | octal => [0x30]
  | decimal => []
  | hexadecimal upper => [0x30, if upper then 0x58 else 0x78]
  | quoted upper => [if upper then 0x58 else 0x78, 0x27]

def isQuoted : NumberForm → Bool
  | quoted _ => true
  | _ => false

def closing (form : NumberForm) : Bytes := if form.isQuoted then [0x27] else []

end NumberForm

/-- The value of a digit. -/
def digitValue (c : UInt8) : Nat := if c ≤ 0x39 then c.toNat - 0x30 else if c ≤ 0x46 then c.toNat - 0x37 else c.toNat - 0x57

/-- The number that digits make behind those of `n`. -/
def digitsValue (base : Nat) (n : Nat) (digits : Bytes) : Nat := digits.foldl (fun n c => n * base + digitValue c) n

/-- A text that is read as a number. A decimal number does not start with a zero; there may be no digits at all. -/
structure NumberText where
  spaces : Bytes
  sign : Option Bool
  form : NumberForm
  digits : Bytes
  trailing : Bytes
  spaces_space : ∀ c ∈ spaces, isSpace c = true
  digits_digit : ∀ c ∈ digits, (form.type.digit c).isSome = true
  digits_first : form = .decimal → digits.head? ≠ some 0x30
  trailing_space : ∀ c ∈ trailing, isSpace c = true
  trailing_none : sign = none → form = .decimal → digits = [] → trailing = []

namespace NumberText

/-- The sign as it is written; `some true` is a minus. -/
def signText : Option Bool → Bytes
  | none => []
  | some true => [0x2D]
  | some false => [0x2B]

def text (t : NumberText) : Bytes :=
  t.spaces ++ signText t.sign ++ t.form.introducer ++ t.digits ++ t.form.closing ++ t.trailing

def negative (t : NumberText) : Bool := t.sign = some true

/-- The number without its sign. -/
def magnitude (t : NumberText) : Nat := digitsValue t.form.type.base 0 t.digits

def value (t : NumberText) : Int := if t.negative then -t.magnitude else t.magnitude

/-- A text without spaces. -/
def ofDigits (sign : Option Bool) (form : NumberForm) (digits : Bytes) (hdigits : ∀ c ∈ digits, (form.type.digit c).isSome = true)
    (hfirst : form = .decimal → digits.head? ≠ some 0x30) : NumberText where
  spaces := []
  sign
  form
  digits
  trailing := []
  spaces_space := fun _ h => by cases h
  digits_digit := hdigits
  digits_first := hfirst
  trailing_space := fun _ h => by cases h
  trailing_none := fun _ _ _ => rfl

end NumberText

/-! ### Digits -/

theorem forall_uint8 {p : UInt8 → Prop} (h : ∀ n < 256, p (UInt8.ofNat n)) (c : UInt8) : p c := by
  have hc := h c.toNat c.toNat_lt
  rwa [UInt8.ofNat_toNat] at hc

set_option maxRecDepth 20000 in
theorem digit_value {t : NumberType} {c : UInt8} {d : Nat} (h : t.digit c = some d) : d = digitValue c ∧ d < 16 := by
  have hall : ∀ n < 256, ∀ d ∈ t.digit (UInt8.ofNat n), d = digitValue (UInt8.ofNat n) ∧ d < 16 := by
    cases t <;> decide
  exact forall_uint8 (p := fun c => ∀ d ∈ t.digit c, d = digitValue c ∧ d < 16) hall c d h

section
variable {t : NumberType} {r d : Uint512} {n base : Nat} {digits rest : Bytes}

theorem toNat_push (t : NumberType) (r d : Uint512) : (t.push r d).toNat = (r.toNat * t.base + d.toNat) % 2 ^ 512 := by
  cases t <;> simp only [NumberType.push, NumberType.base, Uint512.toNat_add, Nat.mod_add_mod, Nat.add_mod_mod] <;> congr 1 <;> omega

theorem digitsValue_mod (base n m : Nat) (digits : Bytes) : digitsValue base (n % m) digits % m = digitsValue base n digits % m := by
  induction digits generalizing n with
  | nil => exact Nat.mod_mod n m
  | cons c digits ih =>
    show digitsValue base (n % m * base + digitValue c) digits % m = digitsValue base (n * base + digitValue c) digits % m
    rw [← ih, Nat.add_mod, Nat.mod_mul_mod, ← Nat.add_mod, ih]

theorem digitsValue_concat (base : Nat) (digits : Bytes) (c : UInt8) :
    digitsValue base 0 (digits ++ [c]) = digitsValue base 0 digits * base + digitValue c := by
  rw [digitsValue, List.foldl_append]
  rfl

/-- All digits are read, and nothing else. -/
theorem readDigits_append (hdigits : ∀ c ∈ digits, (t.digit c).isSome = true) (hrest : ∀ c ∈ rest.head?, t.digit c = none) (r : Uint512) :
    (readDigits t r (digits ++ rest)).1.toNat = digitsValue t.base r.toNat digits % 2 ^ 512 ∧ (readDigits t r (digits ++ rest)).2 = rest := by
  induction digits generalizing r with
  | nil =>
    rw [List.nil_append, digitsValue, List.foldl_nil, Nat.mod_eq_of_lt r.toNat_lt]
    cases rest with
    | nil => exact ⟨rfl, rfl⟩
    | cons c rest =>
      rw [readDigits, hrest c rfl]
      exact ⟨rfl, rfl⟩
  | cons c digits ih =>
    obtain ⟨hc, hdigits⟩ := List.forall_mem_cons.mp hdigits
    obtain ⟨d, hd⟩ := Option.isSome_iff_exists.mp hc
    obtain ⟨hvalue, hlt⟩ := digit_value hd
    obtain ⟨hnumber, hleft⟩ := ih hdigits (t.push r (.ofWord (BitVec.ofNat 64 d)))
    rw [List.cons_append, readDigits, hd]
    refine ⟨?_, hleft⟩
    have hword : (Uint512.ofWord (BitVec.ofNat 64 d)).toNat = digitValue c := by
      rw [Uint512.toNat_ofWord, BitVec.toNat_ofNat, Nat.mod_eq_of_lt (by omega), hvalue]
    rw [hnumber, toNat_push, hword, digitsValue_mod]
    rfl

end

/-! ### The number of a text -/

set_option maxRecDepth 20000 in
/-- What a digit is not. -/
theorem digit_ne {t : NumberType} {c : UInt8} (h : (t.digit c).isSome = true) :
    c ≠ 0 ∧ c ≠ 0x27 ∧ c ≠ 0x2B ∧ c ≠ 0x2D ∧ c ≠ 0x2E ∧ c ≠ 0x58 ∧ c ≠ 0x78 ∧ isSpace c = false := by
  have hall : ∀ n < 256, (t.digit (UInt8.ofNat n)).isSome = true → UInt8.ofNat n ≠ 0 ∧ UInt8.ofNat n ≠ 0x27 ∧ UInt8.ofNat n ≠ 0x2B ∧
      UInt8.ofNat n ≠ 0x2D ∧ UInt8.ofNat n ≠ 0x2E ∧ UInt8.ofNat n ≠ 0x58 ∧ UInt8.ofNat n ≠ 0x78 ∧ isSpace (UInt8.ofNat n) = false := by
    cases t <;> decide
  exact forall_uint8 (p := fun c => (t.digit c).isSome = true → c ≠ 0 ∧ c ≠ 0x27 ∧ c ≠ 0x2B ∧ c ≠ 0x2D ∧ c ≠ 0x2E ∧ c ≠ 0x58 ∧
    c ≠ 0x78 ∧ isSpace c = false) hall c h

/-- What an octal digit is not. -/
theorem octal_digit_ne {c : UInt8} (h : (NumberType.octal.digit c).isSome = true) : c ≠ 0x42 ∧ c ≠ 0x62 := by
  grind [NumberType.digit]

/-- What a space is not. -/
theorem space_ne {c : UInt8} (h : isSpace c = true) :
    c ≠ 0 ∧ c ≠ 0x2B ∧ c ≠ 0x2D ∧ c ≠ 0x2E ∧ c ≠ 0x30 ∧ c ≠ 0x42 ∧ c ≠ 0x58 ∧ c ≠ 0x62 ∧ c ≠ 0x78 := by
  grind [isSpace]

theorem digit_space {c : UInt8} (h : isSpace c = true) (t : NumberType) : t.digit c = none := by
  cases hdigit : t.digit c with
  | none => rfl
  | some d =>
    obtain ⟨-, -, -, -, -, -, -, hspace⟩ := digit_ne (Option.isSome_iff_exists.mpr ⟨d, hdigit⟩)
    rw [h] at hspace
    cases hspace

theorem digit_quote (t : NumberType) : t.digit 0x27 = none := by cases t <;> rfl

section
variable {l r : Bytes} {p : UInt8 → Bool} {form : NumberForm} {digits trailing : Bytes}

theorem head?_append_cases {c : UInt8} (h : (l ++ r).head? = some c) : c ∈ l ∨ l = [] ∧ r.head? = some c := by
  cases l with
  | nil => exact .inr ⟨rfl, h⟩
  | cons b l =>
    obtain rfl := Option.some.inj h
    exact .inl List.mem_cons_self

theorem dropWhile_append (hl : ∀ c ∈ l, p c = true) (hr : ∀ c, r.head? = some c → p c = false) : (l ++ r).dropWhile p = r := by
  induction l with
  | nil =>
    cases r with
    | nil => rfl
    | cons c r => exact List.dropWhile_cons_of_neg (by rw [hr c rfl]; exact Bool.false_ne_true)
  | cons b l ih =>
    obtain ⟨hb, hl⟩ := List.forall_mem_cons.mp hl
    rw [List.cons_append, List.dropWhile_cons_of_pos hb, ih hl]

/-- What is in front of the digits is read back. -/
theorem readIntroducer_append (hdigits : ∀ c ∈ digits, (form.type.digit c).isSome = true)
    (hfirst : form = .decimal → digits.head? ≠ some 0x30) (htrailing : ∀ c ∈ trailing, isSpace c = true) :
    readIntroducer (form.introducer ++ (digits ++ (form.closing ++ trailing))) =
      (form.type, form.isQuoted, digits ++ (form.closing ++ trailing)) := by
  cases form with
  | binary upper => cases upper <;> rfl
  | hexadecimal upper => cases upper <;> rfl
  | quoted upper => cases upper <;> rfl
  | octal =>
    have hnext : ∀ c, (digits ++ ([] ++ trailing)).head? = some c → c ≠ 0x78 ∧ c ≠ 0x58 ∧ c ≠ 0x62 ∧ c ≠ 0x42 := fun c hc => by
      rcases head?_append_cases hc with hc | ⟨-, hc⟩
      · obtain ⟨-, -, -, -, -, hX, hx, -⟩ := digit_ne (hdigits c hc)
        obtain ⟨hB, hb⟩ := octal_digit_ne (hdigits c hc)
        exact ⟨hx, hX, hb, hB⟩
      · obtain ⟨-, -, -, -, -, hB, hX, hb, hx⟩ := space_ne (htrailing c (List.mem_of_mem_head? hc))
        exact ⟨hx, hX, hb, hB⟩
    have hhex : ¬((digits ++ ([] ++ trailing)).head? = some 0x78 ∨ (digits ++ ([] ++ trailing)).head? = some 0x58) := fun h =>
      h.elim (fun h => (hnext _ h).1 rfl) fun h => (hnext _ h).2.1 rfl
    have hbinary : ¬((digits ++ ([] ++ trailing)).head? = some 0x62 ∨ (digits ++ ([] ++ trailing)).head? = some 0x42) := fun h =>
      h.elim (fun h => (hnext _ h).2.2.1 rfl) fun h => (hnext _ h).2.2.2 rfl
    exact (if_pos rfl).trans ((if_neg hhex).trans (if_neg hbinary))
  | decimal =>
    have hnext : ∀ c, (digits ++ ([] ++ trailing)).head? = some c → c ≠ 0x30 ∧ c ≠ 0x78 ∧ c ≠ 0x58 := fun c hc => by
      rcases head?_append_cases hc with hmem | ⟨-, hc⟩
      · obtain ⟨-, -, -, -, -, hX, hx, -⟩ := digit_ne (hdigits c hmem)
        refine ⟨?_, hx, hX⟩
        rintro rfl
        cases digits with
        | nil => cases hmem
        | cons b digits => exact hfirst rfl hc
      · obtain ⟨-, -, -, -, hzero, -, hX, -, hx⟩ := space_ne (htrailing c (List.mem_of_mem_head? hc))
        exact ⟨hzero, hx, hX⟩
    have hquoted : ¬(((digits ++ ([] ++ trailing)).head? = some 0x78 ∨ (digits ++ ([] ++ trailing)).head? = some 0x58) ∧
        (digits ++ ([] ++ trailing)).tail.head? = some 0x27) := fun h =>
      h.1.elim (fun h => (hnext _ h).2.1 rfl) fun h => (hnext _ h).2.2 rfl
    exact (if_neg fun h => (hnext _ h).1 rfl).trans (if_neg hquoted)

end

theorem natCast_two_pow (k : Nat) : ((2 ^ k : Nat) : Int) = 2 ^ k := by rw [Nat.cast_pow, Nat.cast_ofNat]

theorem emod_two_pow (n k : Nat) : ((n % 2 ^ k : Nat) : Int) = n % 2 ^ k := by rw [Int.natCast_mod, natCast_two_pow]

/-- A negative number on so many bits. -/
theorem neg_emod_two_pow (n k : Nat) : (((2 ^ k - n % 2 ^ k) % 2 ^ k : Nat) : Int) = -(n : Int) % 2 ^ k := by
  have hle : n % 2 ^ k ≤ 2 ^ k := (Nat.mod_lt n (Nat.two_pow_pos k)).le
  have hneg : -((n : Int) % 2 ^ k) % 2 ^ k = -(n : Int) % 2 ^ k := Int.ModEq.neg (Int.mod_modEq (n : Int) (2 ^ k))
  rw [emod_two_pow, Nat.cast_sub hle, natCast_two_pow, Int.sub_emod, Int.emod_self, emod_two_pow, Int.emod_emod, Int.zero_sub, hneg]

section
variable {number : Bytes} {accept : Bool} {v : Uint512} {n : Bytes}

theorem readSign_append (sign : Option Bool) (hn : sign = none → ∀ c, n.head? = some c → c ≠ 0x2B ∧ c ≠ 0x2D) :
    readSign accept (NumberText.signText sign ++ n) =
      if sign = some true ∧ ¬accept then .error .invalidNumber else .ok (sign = some true, n) := by
  cases sign with
  | none =>
    have hplus : n.head? ≠ some 0x2B := fun h => (hn rfl _ h).1 rfl
    have hminus : n.head? ≠ some 0x2D := fun h => (hn rfl _ h).2 rfl
    exact (if_neg hplus).trans (if_neg hminus)
  | some minus => cases minus <;> cases accept <;> rfl

theorem closeQuote_append (form : NumberForm) (n : Bytes) : closeQuote form.isQuoted (form.closing ++ n) = .ok n := by
  cases form <;> rfl

theorem dropWhile_all (h : ∀ c ∈ n, isSpace c = true) : n.dropWhile isSpace = [] := List.dropWhile_eq_nil_iff.mpr h

theorem introducer_ne (form : NumberForm) : ∀ c ∈ form.introducer, c ≠ 0 ∧ isSpace c = false ∧ c ≠ 0x2B ∧ c ≠ 0x2D := by
  intro c hc
  cases form with
  | octal | decimal => grind [NumberForm.introducer, isSpace]
  | binary upper | hexadecimal upper | quoted upper => cases upper <;> grind [NumberForm.introducer, isSpace]

/-- What is behind the sign is neither a space nor a sign. -/
theorem NumberText.head_ne (t : NumberText) {c : UInt8}
    (h : (t.form.introducer ++ (t.digits ++ (t.form.closing ++ t.trailing))).head? = some c) :
    (isSpace c = true → t.sign ≠ none) ∧ c ≠ 0x2B ∧ c ≠ 0x2D := by
  rcases head?_append_cases h with hc | ⟨hform, h⟩
  · obtain ⟨-, hspace, hplus, hminus⟩ := introducer_ne t.form c hc
    exact ⟨fun hc => absurd hc (by rw [hspace]; exact Bool.false_ne_true), hplus, hminus⟩
  · have hdecimal : t.form = .decimal := by
      cases hf : t.form with
      | decimal => rfl
      | _ => rw [hf] at hform; cases hform
    rcases head?_append_cases h with hc | ⟨hdigits, h⟩
    · obtain ⟨-, -, hplus, hminus, -, -, -, hspace⟩ := digit_ne (t.digits_digit c hc)
      exact ⟨fun hc => absurd hc (by rw [hspace]; exact Bool.false_ne_true), hplus, hminus⟩
    · rw [hdecimal] at h
      obtain ⟨-, hplus, hminus, -⟩ := space_ne (t.trailing_space c (List.mem_of_mem_head? h))
      refine ⟨fun _ hsign => ?_, hplus, hminus⟩
      have hnone := t.trailing_none hsign hdecimal hdigits
      rw [hnone] at h
      cases h

theorem NumberText.text_eq (t : NumberText) :
    t.text = t.spaces ++ (signText t.sign ++ (t.form.introducer ++ (t.digits ++ (t.form.closing ++ t.trailing)))) := by
  simp only [text, List.append_assoc]

/-- A text of a number has neither a null character nor a period. -/
theorem NumberText.mem_text (t : NumberText) {c : UInt8} (h : c ∈ t.text) : c ≠ 0 ∧ c ≠ 0x2E := by
  rw [text_eq] at h
  simp only [List.mem_append] at h
  rcases h with h | h | h | h | h | h
  · obtain ⟨hzero, -, -, hperiod, -⟩ := space_ne (t.spaces_space c h)
    exact ⟨hzero, hperiod⟩
  · have hall : ∀ sign, c ∈ signText sign → c ≠ 0 ∧ c ≠ 0x2E := by rintro (_ | _ | _) hc <;> grind [signText]
    exact hall _ h
  · have hall : ∀ form : NumberForm, c ∈ form.introducer → c ≠ 0 ∧ c ≠ 0x2E := by
      rintro (_ | _ | _ | _ | _) hc <;> grind [NumberForm.introducer]
    exact hall _ h
  · obtain ⟨hzero, -, -, -, hperiod, -⟩ := digit_ne (t.digits_digit c h)
    exact ⟨hzero, hperiod⟩
  · unfold NumberForm.closing at h
    split at h
    · obtain rfl := List.mem_singleton.mp h
      decide
    · cases h
  · obtain ⟨hzero, -, -, hperiod, -⟩ := space_ne (t.trailing_space c h)
    exact ⟨hzero, hperiod⟩

theorem cString_eq (h : ∀ c ∈ number, c ≠ 0) : cString number = number :=
  List.takeWhile_eq_self_iff.mpr fun c hc => decide_eq_true (h c hc)

theorem NumberText.cString_text (t : NumberText) : cString t.text = t.text := cString_eq fun _ hc => (t.mem_text hc).1

/-- The number of a text, on 512 bits; a minus may be refused. -/
theorem stringToInt_text (t : NumberText) (hnumber : cString number = t.text) :
    if t.negative ∧ ¬accept then stringToInt number accept = .error .invalidNumber
    else ∃ v, stringToInt number accept = .ok v ∧ (v.toNat : Int) = t.value % 2 ^ 512 := by
  have hspaces : (cString number).dropWhile isSpace =
      NumberText.signText t.sign ++ (t.form.introducer ++ (t.digits ++ (t.form.closing ++ t.trailing))) := by
    rw [hnumber, t.text_eq]
    refine dropWhile_append t.spaces_space fun c hc => ?_
    cases hsign : t.sign with
    | some minus =>
      rw [hsign] at hc
      cases minus <;> (obtain rfl := Option.some.inj hc; rfl)
    | none =>
      rw [hsign] at hc
      obtain ⟨hspace, -⟩ := t.head_ne hc
      exact Bool.eq_false_iff.mpr fun h => hspace h hsign
  have hsign := @readSign_append accept _ t.sign fun _ c hc => (t.head_ne hc).2
  have hrest : ∀ c ∈ (t.form.closing ++ t.trailing).head?, t.form.type.digit c = none := fun c hc => by
    rcases head?_append_cases hc with hc | ⟨-, hc⟩
    · unfold NumberForm.closing at hc
      split at hc
      · obtain rfl := List.mem_singleton.mp hc
        exact digit_quote _
      · cases hc
    · exact digit_space (t.trailing_space c (List.mem_of_mem_head? hc)) _
  obtain ⟨hvalue, hleft⟩ := readDigits_append t.digits_digit hrest 0
  rw [stringToInt, hspaces, hsign]
  by_cases hrefused : t.negative ∧ ¬accept
  · rw [if_pos hrefused, if_pos ⟨of_decide_eq_true hrefused.1, hrefused.2⟩]
    rfl
  · rw [if_neg hrefused, if_neg fun h => hrefused ⟨decide_eq_true h.1, h.2⟩]
    dsimp only [bind, Except.bind]
    rw [readIntroducer_append t.digits_digit t.digits_first t.trailing_space]
    dsimp only
    rw [hleft, closeQuote_append]
    dsimp only
    rw [dropWhile_all t.trailing_space, if_neg (not_not.mpr rfl)]
    refine ⟨_, rfl, ?_⟩
    have hnegative : decide (t.sign = some true) = t.negative := rfl
    have hmagnitude : (readDigits t.form.type 0 (t.digits ++ (t.form.closing ++ t.trailing))).1.toNat = t.magnitude % 2 ^ 512 := by
      rw [hvalue, Uint512.toNat_zero]
      rfl
    rw [hnegative, NumberText.value]
    cases t.negative with
    | false =>
      rw [if_neg Bool.false_ne_true, if_neg Bool.false_ne_true, hmagnitude]
      exact emod_two_pow _ _
    | true =>
      rw [if_pos rfl, if_pos rfl, Uint512.toNat_neg, hmagnitude]
      exact neg_emod_two_pow _ _

theorem head?_eq_some {c : UInt8} (h : n.head? = some c) : n = c :: n.tail := by
  cases n with
  | nil => cases h
  | cons b n =>
    obtain rfl := Option.some.inj h
    rfl

theorem readSign_ok {m : Bytes} {negative : Bool} (h : readSign accept n = .ok (negative, m)) :
    ∃ sign, n = NumberText.signText sign ++ m ∧ (sign = some true → accept = true) := by
  unfold readSign at h
  split at h
  · rename_i hplus
    cases h
    exact ⟨some false, head?_eq_some hplus, fun hsign => by cases hsign⟩
  · split at h
    · rename_i hminus
      split at h
      · rename_i haccept
        cases h
        exact ⟨some true, head?_eq_some hminus, fun _ => haccept⟩
      · cases h
    · cases h
      exact ⟨none, rfl, fun hsign => by cases hsign⟩

theorem drop_two {c d : UInt8} (hc : n.head? = some c) (hd : n.tail.head? = some d) : n = [c, d] ++ n.drop 2 := by
  rw [head?_eq_some hc, head?_eq_some hd]
  rfl

theorem readIntroducer_eq (n : Bytes) : ∃ form : NumberForm, ∃ m, readIntroducer n = (form.type, form.isQuoted, m) ∧
    n = form.introducer ++ m ∧ (form = .decimal → n.head? ≠ some 0x30) := by
  unfold readIntroducer
  split
  · rename_i hzero
    split
    · rename_i hx
      obtain hx | hx := hx
      · exact ⟨.hexadecimal false, _, rfl, drop_two hzero hx, fun h => by cases h⟩
      · exact ⟨.hexadecimal true, _, rfl, drop_two hzero hx, fun h => by cases h⟩
    · split
      · rename_i hb
        obtain hb | hb := hb
        · exact ⟨.binary false, _, rfl, drop_two hzero hb, fun h => by cases h⟩
        · exact ⟨.binary true, _, rfl, drop_two hzero hb, fun h => by cases h⟩
      · refine ⟨.octal, _, rfl, ?_, fun h => by cases h⟩
        rw [List.drop_one]
        exact head?_eq_some hzero
  · rename_i hzero
    split
    · rename_i hx
      obtain ⟨hx | hx, hquote⟩ := hx
      · exact ⟨.quoted false, _, rfl, drop_two hx hquote, fun h => by cases h⟩
      · exact ⟨.quoted true, _, rfl, drop_two hx hquote, fun h => by cases h⟩
    · exact ⟨.decimal, n, rfl, rfl, fun _ => hzero⟩

theorem readDigits_split (t : NumberType) (r : Uint512) (n : Bytes) :
    ∃ digits, n = digits ++ (readDigits t r n).2 ∧ ∀ c ∈ digits, (t.digit c).isSome = true := by
  induction n generalizing r with
  | nil => exact ⟨[], rfl, fun c hc => by cases hc⟩
  | cons c n ih =>
    rw [readDigits]
    cases hd : t.digit c with
    | none => exact ⟨[], rfl, fun c hc => by cases hc⟩
    | some d =>
      obtain ⟨digits, hsplit, hdigits⟩ := ih (t.push r (.ofWord (BitVec.ofNat 64 d)))
      exact ⟨c :: digits, congrArg (c :: ·) hsplit, List.forall_mem_cons.mpr ⟨by rw [hd]; rfl, hdigits⟩⟩

theorem closeQuote_ok {form : NumberForm} {m : Bytes} (h : closeQuote form.isQuoted n = .ok m) : n = form.closing ++ m := by
  unfold closeQuote at h
  unfold NumberForm.closing
  split at h
  · rename_i hquoted
    rw [if_pos hquoted]
    split at h
    · rename_i hquote
      cases h
      exact head?_eq_some hquote
    · cases h
  · rename_i hquoted
    cases h
    rw [if_neg hquoted]
    rfl

/-- Only the texts of numbers are accepted. -/
theorem stringToInt_ok (h : stringToInt number accept = .ok v) :
    ∃ t : NumberText, cString number = t.text ∧ (t.negative = true → accept = true) := by
  unfold stringToInt at h
  cases hsign : readSign accept ((cString number).dropWhile isSpace) with
  | error e =>
    rw [hsign] at h
    cases h
  | ok signed =>
    obtain ⟨negative, signed⟩ := signed
    rw [hsign] at h
    dsimp only [bind, Except.bind] at h
    obtain ⟨sign, hsigned, haccept⟩ := readSign_ok hsign
    obtain ⟨form, m, hintroducer, hform, hzero⟩ := readIntroducer_eq signed
    rw [hintroducer] at h
    dsimp only at h
    obtain ⟨digits, hm, hdigits⟩ := readDigits_split form.type 0 m
    cases hquote : closeQuote form.isQuoted (readDigits form.type 0 m).2 with
    | error e =>
      rw [hquote] at h
      cases h
    | ok trailing =>
      rw [hquote] at h
      dsimp only at h
      split at h
      · cases h
      · rename_i hspace
        have htrailing := List.dropWhile_eq_nil_iff.mp (not_not.mp hspace)
        have hclosing := closeQuote_ok hquote
        refine ⟨⟨(cString number).takeWhile isSpace, sign, form, digits, trailing, fun c hc => List.mem_takeWhile_imp hc, hdigits, ?_,
          htrailing, ?_⟩, ?_, fun hnegative => haccept (of_decide_eq_true hnegative)⟩
        · rintro rfl hfirst
          refine hzero rfl ?_
          rw [hform, hm, head?_eq_some hfirst]
          rfl
        · rintro rfl rfl rfl
          cases trailing with
          | nil => rfl
          | cons c trailing =>
            have hhead := List.head?_dropWhile_not isSpace (cString number)
            rw [hsigned, hform, hm, hclosing] at hhead
            have hc := htrailing c List.mem_cons_self
            have hfalse : isSpace c = false := hhead
            rw [hc] at hfalse
            cases hfalse
        · rw [NumberText.text_eq, ← hclosing, ← hm, ← hform, ← hsigned, List.takeWhile_append_dropWhile]

end

end Snapwebsites.Snapdatabase
