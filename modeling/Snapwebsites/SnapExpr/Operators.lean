import Snapwebsites.SnapExpr.Variable

/-! # Operators of list expressions

`expr_node::binary_operation()` and `expr_node::bool_binary_operation()` with the classes that they take as their template
parameter. Both read every integer into an `int64_t`, compute there, and give the result the later one of the two types. -/

namespace Snapwebsites
open QString

namespace SnapExpr

/-! ### Operands -/

/-- What `get_variable_value()` sets. -/
structure Operand where
  integer : Int := 0
  floatingPoint : Float := 0
  string : QString := []
  isFloatingPoint : Bool := false
  isStringType : Bool := false

/-- `static_cast<int64_t>`. -/
def toInt64 (n : Int) : Int := wrap 8 true n

section Operand
variable (L : ValueLibrary)

/-- `get_variable_value()`; nothing where it returns false. -/
def getVariableValue (var : Variable) : Option Operand :=
  match var.type with
  | .bool => some { integer := if L.safeBoolValue var.value then 1 else 0 }
  | .int8 => some { integer := L.safeSignedCharValue var.value }
  | .uint8 => some { integer := L.safeUnsignedCharValue var.value }
  | .int16 => some { integer := L.safeInt16Value var.value }
  | .uint16 => some { integer := L.safeUInt16Value var.value }
  | .int32 => some { integer := L.safeInt32Value var.value }
  | .uint32 => some { integer := L.safeUInt32Value var.value }
  | .int64 => some { integer := L.safeInt64Value var.value }
  | .uint64 => some { integer := toInt64 (L.safeUInt64Value var.value) }
  | .double => some { isFloatingPoint := true, floatingPoint := Float.ofBits (L.safeDoubleValue var.value) }
  | .string => some { isStringType := true, string := L.stringValue var.value }
  | _ => none

/-- An operand as a `double`. The common type of `signed_value ? li : static_cast<uint64_t>(li)` is `uint64_t`, whatever
    the flag says, so a negative number wraps here. -/
def Operand.toDouble (o : Operand) : Float :=
  if o.isFloatingPoint then o.floatingPoint else Float.ofNat (wrap 8 false o.integer).toNat

/-- An operand as a text. -/
def Operand.toText (o : Operand) : QString := if o.isStringType then o.string else L.arg o.toDouble.toBits

end Operand

/-! ### The classes of the operators -/

/-- A class with an `integers()` that returns an `int64_t`, and with those of the other functions that it has. -/
structure Operation where
  integers : Int → Int → Except Failure Int
  floatingPoints : Option (Float → Float → Float) := none
  strings : Option (QString → QString → QString) := none
  stringInteger : Option (QString → Int → QString) := none

/-- A class whose functions return a `bool`. -/
structure BoolOperation where
  integers : Int → Int → Bool
  floatingPoints : Option (Float → Float → Bool) := none
  strings : Option (QString → QString → Bool) := none

/-- The result of an operation on `int64_t`, undefined when it does not fit. -/
def int64 (n : Int) : Except Failure Int := if -2 ^ 63 ≤ n ∧ n < 2 ^ 63 then pure n else throw .undefined

/-- `operator < (QString, QString)` compares the UTF-16 units. -/
def lessThan (a b : QString) : Bool := decide (a.flatMap utf16 < b.flatMap utf16)

/-- `QString::repeated()` of a number cut to an `int`. -/
def repeated (a : QString) (n : Int) : QString := (List.replicate (wrap 4 true n).toNat a).flatten

def opMultiply : Operation where
  integers a b := int64 (a * b)
  floatingPoints := some (· * ·)
  stringInteger := some repeated

def opDivide : Operation where
  integers a b :=
    if b = 0 then throw (.divisionByZero "expr_node::op_divide() called with integers and a denominator set to zero")
    else int64 (a.tdiv b)
  floatingPoints := some (· / ·)

/-- The remainder is undefined where the quotient is. -/
def opModulo : Operation where
  integers a b :=
    if b = 0 then throw (.divisionByZero "expr_node::op_modulo() called with integers and a denominator set to zero")
    else (int64 (a.tdiv b)).map fun _ => a.tmod b

def opAdd : Operation where
  integers a b := int64 (a + b)
  floatingPoints := some (· + ·)
  strings := some (· ++ ·)

def opSubtract : Operation where
  integers a b := int64 (a - b)
  floatingPoints := some (· - ·)

/-- The compiler defines the shift of a negative number; the count stays limited. -/
def opShiftLeft : Operation where
  integers a b := if 0 ≤ b ∧ b < 64 then pure (toInt64 (a * 2 ^ b.toNat)) else throw .undefined

def opShiftRight : Operation where
  integers a b := if 0 ≤ b ∧ b < 64 then pure (a / 2 ^ b.toNat) else throw .undefined

def opLess : BoolOperation where
  integers a b := a < b
  floatingPoints := some fun a b => a < b
  strings := some lessThan

def opLessOrEqual : BoolOperation where
  integers a b := a ≤ b
  floatingPoints := some fun a b => a ≤ b
  strings := some fun a b => !lessThan b a

def opGreater : BoolOperation where
  integers a b := a > b
  floatingPoints := some fun a b => a > b
  strings := some fun a b => lessThan b a

def opGreaterOrEqual : BoolOperation where
  integers a b := a ≥ b
  floatingPoints := some fun a b => a ≥ b
  strings := some fun a b => !lessThan a b

def opMinimum : Operation where
  integers a b := pure (if a < b then a else b)
  floatingPoints := some fun a b => if a < b then a else b
  strings := some fun a b => if lessThan a b then a else b

def opMaximum : Operation where
  integers a b := pure (if a > b then a else b)
  floatingPoints := some fun a b => if a > b then a else b
  strings := some fun a b => if lessThan b a then a else b

def opEqual : BoolOperation where
  integers a b := a == b
  floatingPoints := some fun a b => a == b
  strings := some fun a b => a == b

def opNotEqual : BoolOperation where
  integers a b := a != b
  floatingPoints := some fun a b => a != b
  strings := some fun a b => a != b

def opBitwiseAnd : Operation where
  integers a b := pure (BitVec.ofInt 64 a &&& BitVec.ofInt 64 b).toInt

def opBitwiseXor : Operation where
  integers a b := pure (BitVec.ofInt 64 a ^^^ BitVec.ofInt 64 b).toInt

def opBitwiseOr : Operation where
  integers a b := pure (BitVec.ofInt 64 a ||| BitVec.ofInt 64 b).toInt

def opLogicalAnd : BoolOperation where
  integers a b := a != 0 && b != 0

def opLogicalXor : BoolOperation where
  integers a b := (a != 0) != (b != 0)

def opLogicalOr : BoolOperation where
  integers a b := a != 0 || b != 0

/-! ### The operations -/

/-- Both functions throw with the name of the first one. -/
def incompatible (op : String) (l r : Variable) : Failure :=
  .logic ("expr_node::binary_operation(\"" ++ op ++ "\") called with incompatible sub_result types: " ++
    toString l.type.toNat ++ " x " ++ toString r.type.toNat)

section Operations
variable (L : ValueLibrary)

/-- `binary_operation<F>()`. -/
def binaryOperation (op : String) (F : Operation) (result : Variable) : List Variable → Except Failure Variable
  | l :: r :: _ =>
    let type := l.type.max r.type
    match getVariableValue L l, getVariableValue L r with
    | some lv, some rv =>
      if type.isInteger then
        (F.integers lv.integer rv.integer).map fun n => result.setValue type (L.setInteger type n)
      else
        match type, F.floatingPoints, F.strings, F.stringInteger with
        | .float, some f, _, _ =>
          pure (result.setValue .float (L.setFloatValue (f lv.toDouble rv.toDouble).toFloat32.toBits))
        | .double, some f, _, _ => pure (result.setValue .double (L.setDoubleValue (f lv.toDouble rv.toDouble).toBits))
        | .string, _, some f, _ => pure (result.setValue .string (L.setStringValue (f (lv.toText L) (rv.toText L))))
        | .string, _, none, some f =>
          if l.type = .string && !rv.isFloatingPoint && !rv.isStringType then
            pure (result.setValue .string (L.setStringValue (f lv.string rv.integer)))
          else throw (incompatible op l r)
        | _, _, _, _ => throw (incompatible op l r)
    | _, _ => throw (incompatible op l r)
  | _ => throw .undefined

/-- `bool_binary_operation<F>()`. -/
def boolBinaryOperation (op : String) (F : BoolOperation) (result : Variable) : List Variable → Except Failure Variable
  | l :: r :: _ =>
    let type := l.type.max r.type
    match getVariableValue L l, getVariableValue L r with
    | some lv, some rv =>
      if type.isInteger then pure (result.setValue .bool (L.setBoolValue (F.integers lv.integer rv.integer)))
      else
        match type, F.floatingPoints, F.strings with
        | .float, some f, _ => pure (result.setValue .bool (L.setBoolValue (f lv.toDouble rv.toDouble)))
        | .double, some f, _ => pure (result.setValue .bool (L.setBoolValue (f lv.toDouble rv.toDouble)))
        | .string, _, some f => pure (result.setValue .bool (L.setBoolValue (f (lv.toText L) (rv.toText L))))
        | _, _, _ => throw (incompatible op l r)
    | _, _ => throw (incompatible op l r)
  | _ => throw .undefined

end Operations

/-! ### Variables of integer types -/

namespace VariableType

def lower : VariableType → Int
  | int8 => -128
  | int16 => -32768
  | int32 => -2147483648
  | int64 => -9223372036854775808
  | _ => 0

def upper : VariableType → Int
  | bool => 1
  | int8 => 127
  | uint8 => 255
  | int16 => 32767
  | uint16 => 65535
  | int32 => 2147483647
  | uint32 => 4294967295
  | int64 => 9223372036854775807
  | uint64 => 18446744073709551615
  | _ => 0

end VariableType

/-- A variable of an integer type and the number it holds. -/
structure IntegerVariable where
  name : QString := []
  type : VariableType
  number : Int
  isInteger : type.isInteger = true
  inRange : type.lower ≤ number ∧ number ≤ type.upper

namespace IntegerVariable
variable (L : ValueLibrary) (x y : IntegerVariable)

def toVariable : Variable := { name := x.name, type := x.type, value := L.setInteger x.type x.number }

end IntegerVariable

/-- The number of a variable of an integer type. -/
def Variable.number (L : ValueLibrary) (v : Variable) : Int :=
  if v.type = .bool then (L.safeBoolValue v.value).toInt else L.safeIntegerValue v.type.width (!v.type.isUnsigned) v.value

variable {L : ValueLibrary} {x y : IntegerVariable}

/-- A type holds the numbers between its bounds. -/
theorem wrap_of_inRange {t : VariableType} {n : Int} (ht : t.isInteger = true) (hn : t.lower ≤ n ∧ n ≤ t.upper) :
    wrap t.width (!t.isUnsigned) n = n := by
  cases t <;> first
    | exact absurd ht (by decide)
    | simp [wrap, VariableType.width, VariableType.isUnsigned, VariableType.lower, VariableType.upper, Int.bmod_def] at hn ⊢
      omega

theorem toInt64_eq (n : Int) : toInt64 n = (n + 2 ^ 63) % 2 ^ 64 - 2 ^ 63 := by
  simp [toInt64, wrap, Int.bmod_def]
  omega

theorem toInt64_of_lt {n : Int} (hn : -2 ^ 63 ≤ n ∧ n < 2 ^ 63) : toInt64 n = n := by
  rw [toInt64_eq]
  omega

theorem safeInteger_set {t : VariableType} {n : Int} (ht : t.isInteger = true) (hn : t.lower ≤ n ∧ n ≤ t.upper)
    (hbool : t ≠ .bool) : L.safeIntegerValue t.width (!t.isUnsigned) (L.setInteger t n) = n := by
  rw [ValueLibrary.setInteger, if_neg hbool, ValueLibrary.safeIntegerValue_set, wrap_of_inRange ht hn]

/-- Every integer but those from `2 ^ 63` on is read as it is. -/
theorem getVariableValue_toVariable : getVariableValue L (x.toVariable L) = some { integer := toInt64 x.number } := by
  obtain ⟨name, t, n, ht, hn⟩ := x
  by_cases hbool : t = .bool
  · subst hbool
    obtain rfl | rfl : n = 0 ∨ n = 1 := by
      simp only [VariableType.lower, VariableType.upper] at hn
      omega
    all_goals
      simp [getVariableValue, IntegerVariable.toVariable, ValueLibrary.setInteger, L.safeBoolValue_set]
      rfl
  · have hset := safeInteger_set (L := L) ht hn hbool
    have hsmall : t ≠ .uint64 → toInt64 n = n := fun h => toInt64_of_lt (by
      cases t <;> first | exact absurd rfl h | (simp only [VariableType.lower, VariableType.upper] at hn; omega))
    cases t <;> first
      | exact absurd ht (by decide)
      | exact absurd rfl hbool
      | exact congrArg (fun i => some ({ integer := i } : Operand)) (hset.trans (hsmall (by decide)).symm)
      | exact congrArg (fun i => some ({ integer := toInt64 i } : Operand)) hset

theorem number_setInteger (v : Variable) {t : VariableType} (n : Int) (hbool : t ≠ .bool) :
    (v.setValue t (L.setInteger t n)).number L = wrap t.width (!t.isUnsigned) n := by
  rw [Variable.number, Variable.setValue_type, Variable.setValue_value, if_neg hbool, ValueLibrary.setInteger, if_neg hbool,
    ValueLibrary.safeIntegerValue_set]

theorem number_setBool (v : Variable) (n : Int) :
    (v.setValue .bool (L.setInteger .bool n)).number L = if n = 0 then 0 else 1 := by
  simp [Variable.number, ValueLibrary.setInteger, L.safeBoolValue_set]
  split <;> simp [*]

theorem max_isInteger {s t : VariableType} (hs : s.isInteger = true) (ht : t.isInteger = true) : (s.max t).isInteger = true := by
  unfold VariableType.max
  split
  · exact ht
  · exact hs

/-- Two integers are computed with as `int64_t`. -/
theorem binaryOperation_integers (op : String) (F : Operation) (result : Variable) :
    binaryOperation L op F result [x.toVariable L, y.toVariable L] =
      (F.integers (toInt64 x.number) (toInt64 y.number)).map fun n =>
        result.setValue (x.type.max y.type) (L.setInteger (x.type.max y.type) n) := by
  have htype : ((x.toVariable L).type.max (y.toVariable L).type).isInteger = true := max_isInteger x.isInteger y.isInteger
  simp only [binaryOperation, getVariableValue_toVariable, htype, if_true]
  rfl

theorem boolBinaryOperation_integers (op : String) (F : BoolOperation) (result : Variable) :
    boolBinaryOperation L op F result [x.toVariable L, y.toVariable L] =
      .ok (result.setValue .bool (L.setBoolValue (F.integers (toInt64 x.number) (toInt64 y.number)))) := by
  have htype : ((x.toVariable L).type.max (y.toVariable L).type).isInteger = true := max_isInteger x.isInteger y.isInteger
  simp only [boolBinaryOperation, getVariableValue_toVariable, htype, if_true]
  rfl

end SnapExpr
end Snapwebsites
