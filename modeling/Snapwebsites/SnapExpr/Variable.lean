import Mathlib.Algebra.Ring.Int.Defs
import Snapwebsites.SnapUri.Codec

/-! # Variables of list expressions

`snap_expr::variable_t`: a value of the database with one of fourteen types. The value itself, `libdbproxy::value`, is
little more than `cassvalue::Value`, which is not part of the repository. `ValueLibrary` is what list expressions rely on:
integers and floating points are stored in big-endian order, texts in UTF-8, and an accessor reads the bytes in front,
or gives its default when there are not enough of them. -/

namespace Snapwebsites
open QString

namespace SnapExpr

/-- `variable_t::variable_type_t`, in its order. -/
inductive VariableType
  | null | bool | int8 | uint8 | int16 | uint16 | int32 | uint32 | int64 | uint64 | float | double | string | binary
deriving DecidableEq

namespace VariableType

/-- The number of the type, which `std::max()` compares. -/
def toNat : VariableType → Nat
  | null => 0 | bool => 1 | int8 => 2 | uint8 => 3 | int16 => 4 | uint16 => 5 | int32 => 6 | uint32 => 7 | int64 => 8
  | uint64 => 9 | float => 10 | double => 11 | string => 12 | binary => 13

/-- `std::max()`. -/
def max (s t : VariableType) : VariableType := if s.toNat < t.toNat then t else s

/-- The integer types, `bool` among them. -/
def isInteger (t : VariableType) : Bool := 1 ≤ t.toNat && t.toNat ≤ 9

def isUnsigned (t : VariableType) : Bool := t = uint8 || t = uint16 || t = uint32 || t = uint64

/-- The bytes of an integer type. -/
def width : VariableType → Nat
  | bool | int8 | uint8 => 1
  | int16 | uint16 => 2
  | int32 | uint32 => 4
  | int64 | uint64 => 8
  | _ => 0

end VariableType

/-- An integer converted to a type of `w` bytes. -/
def wrap (w : Nat) (signed : Bool) (n : Int) : Int := if signed then n.bmod (256 ^ w) else n % (256 ^ w : Nat)

/-- The exceptions of list expressions with their messages. `undefined` stands for a C++ operation without a defined
    result. -/
inductive Failure
  | logic (what : String)
  | divisionByZero (what : String)
  | unknownFunction (what : String)
  | invalidNumberOfParameters (what : String)
  | invalidParameterType (what : String)
  | undefined
deriving DecidableEq

/-- `cassvalue::Value`: how each type is stored and read back. A `float` and a `double` are given by their bits. `arg` is
    `QString("%1").arg()` of a `double`. -/
structure ValueLibrary where
  setIntegerValue : Nat → Int → Bytes
  safeIntegerValue : Nat → Bool → Bytes → Int
  setBoolValue : Bool → Bytes
  safeBoolValue : Bytes → Bool
  setFloatValue : UInt32 → Bytes
  safeFloatValue : Bytes → UInt32
  setDoubleValue : UInt64 → Bytes
  safeDoubleValue : Bytes → UInt64
  setStringValue : QString → Bytes
  stringValue : Bytes → QString
  arg : UInt64 → QString
  setIntegerValue_eq : ∀ w n, setIntegerValue w n = bigEndian w (n % (256 ^ w : Nat)).toNat
  safeIntegerValue_short : ∀ w signed b, b.length < w → safeIntegerValue w signed b = 0
  safeIntegerValue_read : ∀ w signed b n rest, Reader.bigEndian w b = some (n, rest) →
    safeIntegerValue w signed b = wrap w signed n
  setBoolValue_eq : ∀ b, setBoolValue b = bigEndian 1 b.toNat
  safeBoolValue_set : ∀ b, safeBoolValue (setBoolValue b) = b
  safeFloatValue_set : ∀ f, safeFloatValue (setFloatValue f) = f
  safeDoubleValue_set : ∀ d, safeDoubleValue (setDoubleValue d) = d
  setStringValue_eq : ∀ s, setStringValue s = s.utf8
  stringValue_eq : ∀ b, stringValue b = fromUtf8 (decodeUtf8 0 b)

namespace ValueLibrary
variable (L : ValueLibrary)

def safeSignedCharValue : Bytes → Int := L.safeIntegerValue 1 true
def safeUnsignedCharValue : Bytes → Int := L.safeIntegerValue 1 false
def safeInt16Value : Bytes → Int := L.safeIntegerValue 2 true
def safeUInt16Value : Bytes → Int := L.safeIntegerValue 2 false
def safeInt32Value : Bytes → Int := L.safeIntegerValue 4 true
def safeUInt32Value : Bytes → Int := L.safeIntegerValue 4 false
def safeInt64Value : Bytes → Int := L.safeIntegerValue 8 true
def safeUInt64Value : Bytes → Int := L.safeIntegerValue 8 false

/-- `setSignedCharValue(static_cast<signed char>(n))` and its siblings; `setBoolValue(n)` for `bool`. -/
def setInteger (t : VariableType) (n : Int) : Bytes :=
  if t = .bool then L.setBoolValue (n ≠ 0) else L.setIntegerValue t.width n

end ValueLibrary

/-- `variable_t`. -/
structure Variable where
  name : QString := []
  type : VariableType := .null
  value : Bytes := []
deriving DecidableEq

namespace Variable
variable (L : ValueLibrary)

/-- `set_value(type, value)`, which leaves the name. -/
def setValue (v : Variable) (type : VariableType) (value : Bytes) : Variable := { v with type, value }

@[simp] theorem setValue_type (v : Variable) (t : VariableType) (b : Bytes) : (v.setValue t b).type = t := rfl

@[simp] theorem setValue_value (v : Variable) (t : VariableType) (b : Bytes) : (v.setValue t b).value = b := rfl

/-- `is_true()`. -/
def isTrue (v : Variable) : Bool :=
  match v.type with
  | .null => false
  | .bool => L.safeBoolValue v.value
  | .int8 | .uint8 => L.safeSignedCharValue v.value != 0
  | .int16 | .uint16 => L.safeInt16Value v.value != 0
  | .int32 | .uint32 => L.safeInt32Value v.value != 0
  | .int64 | .uint64 => L.safeInt32Value v.value != 0
  | .float => Float32.ofBits (L.safeFloatValue v.value) != 0
  | .double => Float.ofBits (L.safeDoubleValue v.value) != 0
  | .string | .binary => !v.value.isEmpty

/-- `get_string()`. -/
def getString (v : Variable) (name : String) : Except Failure QString :=
  match v.type with
  | .string => pure (L.stringValue v.value)
  | t => throw (.invalidParameterType ("parameter for " ++ name ++ " must be a string (got type " ++ toString t.toNat ++ " instead)"))

end Variable

/-! ### Numbers read back -/

namespace ValueLibrary
variable {L : ValueLibrary}

/-- An accessor reads the bytes in front. -/
theorem safeIntegerValue_append (w : Nat) (signed : Bool) (n : Nat) (rest : Bytes) :
    L.safeIntegerValue w signed (bigEndian w n ++ rest) = wrap w signed (n % 256 ^ w : Nat) :=
  L.safeIntegerValue_read _ _ _ _ _ (bigEndian_reads n w rest)

theorem wrap_emod (w : Nat) (signed : Bool) (n : Int) : wrap w signed (n % (256 ^ w : Nat)) = wrap w signed n := by
  unfold wrap
  split
  · exact Int.emod_bmod _ _
  · exact Int.emod_emod_of_dvd n (Int.dvd_refl _)

theorem toNat_emod (w : Nat) (n : Int) : ((n % (256 ^ w : Nat)).toNat : Int) = n % (256 ^ w : Nat) :=
  Int.toNat_of_nonneg (Int.emod_nonneg _ (Int.natCast_ne_zero.mpr (Nat.pow_pos (by decide)).ne'))

/-- The accessor of the type that was set gives the number back, as far as the type holds it. -/
theorem safeIntegerValue_set (w : Nat) (signed : Bool) (n : Int) :
    L.safeIntegerValue w signed (L.setIntegerValue w n) = wrap w signed n := by
  have h := L.safeIntegerValue_append w signed (n % (256 ^ w : Nat)).toNat []
  rw [List.append_nil, ← L.setIntegerValue_eq, Int.natCast_mod, toNat_emod, wrap_emod, wrap_emod] at h
  exact h

/-- A library that stores values so. No text of a `double` is asked of it. -/
def network : ValueLibrary where
  setIntegerValue w n := bigEndian w (n % (256 ^ w : Nat)).toNat
  safeIntegerValue w signed b := ((Reader.bigEndian w b).map fun p => wrap w signed p.1).getD 0
  setBoolValue b := bigEndian 1 b.toNat
  safeBoolValue b := b.head?.any (· ≠ 0)
  setFloatValue f := bigEndian 4 f.toNat
  safeFloatValue b := ((Reader.bigEndian 4 b).map fun p => UInt32.ofNat p.1).getD 0
  setDoubleValue d := bigEndian 8 d.toNat
  safeDoubleValue b := ((Reader.bigEndian 8 b).map fun p => UInt64.ofNat p.1).getD 0
  setStringValue s := s.utf8
  stringValue b := fromUtf8 (decodeUtf8 0 b)
  arg _ := "0".toList
  setIntegerValue_eq _ _ := rfl
  safeIntegerValue_short w signed b hb := by
    cases h : Reader.bigEndian w b with
    | none => rfl
    | some p =>
      have hlength := Reader.bigEndian_length h
      omega
  safeIntegerValue_read w signed b n rest h := by rw [h, Option.map_some, Option.getD_some]
  setBoolValue_eq _ := rfl
  safeBoolValue_set := by decide
  safeFloatValue_set f := by
    have h := (bigEndian_reads f.toNat 4).run []
    rw [List.append_nil, Nat.mod_eq_of_lt (show f.toNat < 256 ^ 4 from f.toNat_lt)] at h
    rw [h, Option.map_some, Option.getD_some, UInt32.ofNat_toNat]
  safeDoubleValue_set d := by
    have h := (bigEndian_reads d.toNat 8).run []
    rw [List.append_nil, Nat.mod_eq_of_lt (show d.toNat < 256 ^ 8 from d.toNat_lt)] at h
    rw [h, Option.map_some, Option.getD_some, UInt64.ofNat_toNat]
  setStringValue_eq _ := rfl
  stringValue_eq _ := rfl

end ValueLibrary
end SnapExpr
end Snapwebsites
