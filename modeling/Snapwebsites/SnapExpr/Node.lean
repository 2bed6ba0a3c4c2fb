import Snapwebsites.Lib.SortedMap
import Snapwebsites.SnapExpr.Operators
import Snapwebsites.SnapExpr.Paths

/-! # Programs of list expressions

`snap_expr::expr_node`, the tree that a list expression is compiled to, and `execute()`, which runs it. The type of a node
is its operation; an operation computes its children first, but for `?:`, which computes its condition and one of the
other two. -/

namespace Snapwebsites
namespace SnapExpr

/-- `expr_node::node_type_t`, in its order. -/
inductive NodeType
  | unknown | loading
  | operationList | operationLogicalNot | operationBitwiseNot | operationNegate | operationFunction | operationMultiply
  | operationDivide | operationModulo | operationAdd | operationSubtract | operationShiftLeft | operationShiftRight
  | operationLess | operationLessOrEqual | operationGreater | operationGreaterOrEqual | operationMinimum | operationMaximum
  | operationEqual | operationNotEqual | operationBitwiseAnd | operationBitwiseXor | operationBitwiseOr | operationLogicalAnd
  | operationLogicalXor | operationLogicalOr | operationConditional | operationAssignment | operationVariable
  | literalBoolean | literalInteger | literalFloatingPoint | literalString
  | nodeVariable
deriving DecidableEq

/-- `expr_node`: its type, its name, its variable, which only a literal has, and its children. -/
inductive Node
  | node (type : NodeType) (name : QString) (literal : Variable) (children : List Node)

namespace Node

def type : Node → NodeType | node t _ _ _ => t
def name : Node → QString | node _ n _ _ => n
def literal : Node → Variable | node _ _ v _ => v
def children : Node → List Node | node _ _ _ c => c

end Node

/-- `functions_t::function_call_t`, which sets its result. -/
abbrev FunctionCall := Variable → List Variable → Except Failure Variable

/-- `functions_t`. -/
structure Functions where
  functions : SortedMap QString FunctionCall := ∅
  hasInternalFunctions : Bool := false

/-- What `execute()` changes: the variables, and the functions once the internal ones are added. -/
structure Environment where
  variableMap : SortedMap QString Variable := ∅
  functions : Functions := {}

/-- What lies outside of `snap_expr.cpp`: the values of the database, the internal functions but for `child()` and
    `parent()`, and those that the plugins add. -/
structure Server where
  values : ValueLibrary
  otherFunctions : List (QString × FunctionCall)
  addSnapExprFunctions : SortedMap QString FunctionCall → SortedMap QString FunctionCall

variable (S : Server)

/-- `expr_node::internal_functions`. -/
def internalFunctions : List (QString × FunctionCall) :=
  [("child".toList, callChild S.values), ("parent".toList, callParent S.values)] ++ S.otherFunctions

/-- `functions_t::add_functions()`. -/
def addFunctions (table : List (QString × FunctionCall)) (functions : SortedMap QString FunctionCall) : SortedMap QString FunctionCall :=
  table.foldl (fun m f => m.insert f.1 f.2) functions

/-! ### Operations on one value -/

/-- `expr_node::logical_not()`. -/
def logicalNot (L : ValueLibrary) (result : Variable) : List Variable → Except Failure Variable
  | [] => throw .undefined
  | sub :: _ => do
    let value ← match sub.type with
      | .bool => pure (!L.safeBoolValue sub.value)
      | .int8 => pure (L.safeSignedCharValue sub.value == 0)
      | .uint8 => pure (L.safeUnsignedCharValue sub.value == 0)
      | .int16 => pure (L.safeInt16Value sub.value == 0)
      | .uint16 => pure (L.safeUInt16Value sub.value == 0)
      | .int32 => pure (L.safeInt32Value sub.value == 0)
      | .uint32 => pure (L.safeUInt32Value sub.value == 0)
      | .int64 => pure (L.safeInt64Value sub.value == 0)
      | .uint64 => pure (L.safeUInt64Value sub.value == 0)
      | .float => pure (Float32.ofBits (L.safeFloatValue sub.value) == 0)
      | .double => pure (Float.ofBits (L.safeDoubleValue sub.value) == 0)
      | .string => pure ((L.stringValue sub.value).units == 0)
      | .binary => pure (sub.value.length == 0)
      | .null => throw (.logic ("expr_node::logical_not() called with an incompatible sub_result type: " ++
          toString sub.type.toNat))
    pure (result.setValue .bool (L.setBoolValue value))

/-- `expr_node::bitwise_not()`. Both values of a `bool` have a complement other than zero. -/
def bitwiseNot (L : ValueLibrary) (result : Variable) : List Variable → Except Failure Variable
  | [] => throw .undefined
  | sub :: _ =>
    if sub.type = .bool then pure (result.setValue .bool (L.setBoolValue true))
    else if sub.type.isInteger then
      pure (result.setValue sub.type (L.setInteger sub.type (-(sub.number L) - 1)))
    else throw (.logic ("expr_node::bitwise_not() called with an incompatible sub_result type: " ++ toString sub.type.toNat))

/-- `expr_node::negate()`. An `int32_t` and an `int64_t` are negated as they are, which is undefined for the least one; the
    smaller types are negated as `int`. -/
def negate (L : ValueLibrary) (result : Variable) : List Variable → Except Failure Variable
  | [] => throw .undefined
  | sub :: _ =>
    match sub.type with
    | .float => pure (result.setValue .float (L.setFloatValue (-Float32.ofBits (L.safeFloatValue sub.value)).toBits))
    | .double => pure (result.setValue .double (L.setDoubleValue (-Float.ofBits (L.safeDoubleValue sub.value)).toBits))
    | .null | .bool | .string | .binary =>
      throw (.logic ("expr_node::negate() called with an incompatible sub_result type: " ++ toString sub.type.toNat))
    | .int32 | .int64 =>
      if sub.number L = sub.type.lower then throw .undefined
      else pure (result.setValue sub.type (L.setInteger sub.type (-(sub.number L))))
    | t => pure (result.setValue t (L.setInteger t (-(sub.number L))))

/-- The decision of `expr_node::conditional()`, which throws with the name of another function. -/
def condition (L : ValueLibrary) (result : Variable) : Except Failure Bool :=
  match result.type with
  | .bool => pure (L.safeSignedCharValue result.value != 0)
  | .int8 => pure (L.safeSignedCharValue result.value != 0)
  | .uint8 => pure (L.safeUnsignedCharValue result.value != 0)
  | .int16 => pure (L.safeInt16Value result.value != 0)
  | .uint16 => pure (L.safeUInt16Value result.value != 0)
  | .int32 => pure (L.safeInt32Value result.value != 0)
  | .uint32 => pure (L.safeUInt32Value result.value != 0)
  | .int64 => pure (L.safeInt64Value result.value != 0)
  | .uint64 => pure (L.safeUInt64Value result.value != 0)
  | .float => pure (Float32.ofBits (L.safeFloatValue result.value) != 0)
  | .double => pure (Float.ofBits (L.safeDoubleValue result.value) != 0)
  | .string => pure ((L.stringValue result.value).units != 0)
  | .binary => pure (result.value.length != 0)
  | .null => throw (.logic ("expr_node::logical_not() called with an incompatible sub_result type: " ++
      toString result.type.toNat))

/-- `expr_node::call_function()`: the internal functions are added the first time that a name is not known. -/
def callFunction (name : QString) (result : Variable) (subResults : List Variable) (functions : Functions) :
    Except Failure (Variable × Functions) :=
  match functions.functions.find? name with
  | some f => (f result subResults).map (·, functions)
  | none =>
    let unknown := Failure.unknownFunction ("unknown function \"" ++ String.ofList name ++ "\" in list execution environment")
    if functions.hasInternalFunctions then throw unknown
    else
      let functions : Functions :=
        { functions := S.addSnapExprFunctions (addFunctions (internalFunctions S) functions.functions),
          hasInternalFunctions := true }
      match functions.functions.find? name with
      | some f => (f result subResults).map (·, functions)
      | none => throw unknown

/-! ### Running a program -/

/-- The name of an operator on two values and its class: one that gives a number or a text, or one that gives a `bool`. -/
def NodeType.binary : NodeType → Option (String × (Operation ⊕ BoolOperation))
  | operationMultiply => some ("*", .inl opMultiply)
  | operationDivide => some ("/", .inl opDivide)
  | operationModulo => some ("%", .inl opModulo)
  | operationAdd => some ("+", .inl opAdd)
  | operationSubtract => some ("-", .inl opSubtract)
  | operationShiftLeft => some ("<<", .inl opShiftLeft)
  | operationShiftRight => some (">>", .inl opShiftRight)
  | operationLess => some ("<", .inr opLess)
  | operationLessOrEqual => some ("<=", .inr opLessOrEqual)
  | operationGreater => some (">", .inr opGreater)
  | operationGreaterOrEqual => some (">=", .inr opGreaterOrEqual)
  | operationMinimum => some ("<?", .inl opMinimum)
  | operationMaximum => some (">?", .inl opMaximum)
  | operationEqual => some ("==", .inr opEqual)
  | operationNotEqual => some ("!=", .inr opNotEqual)
  | operationBitwiseAnd => some ("&", .inl opBitwiseAnd)
  | operationBitwiseXor => some ("^", .inl opBitwiseXor)
  | operationBitwiseOr => some ("|", .inl opBitwiseOr)
  | operationLogicalAnd => some ("&&", .inr opLogicalAnd)
  | operationLogicalXor => some ("^^", .inr opLogicalXor)
  | operationLogicalOr => some ("||", .inr opLogicalOr)
  | _ => none

/-- The switch of `execute()`, once the children are computed; `?:` is not among its cases. -/
def operate (type : NodeType) (name : QString) (literal result : Variable) (subResults : List Variable) (e : Environment) :
    Except Failure (Variable × Environment) :=
  match type with
  | .unknown | .loading =>
    throw (.logic "expr_node::execute() called with an incompatible result type: node_type_t::NODE_TYPE_UNKNOWN or node_type_t::NODE_TYPE_LOADING")
  | .operationList =>
    match subResults.getLast? with
    | some last => pure (last, e)
    | none => throw .undefined
  | .operationLogicalNot => (logicalNot S.values result subResults).map (·, e)
  | .operationBitwiseNot => (bitwiseNot S.values result subResults).map (·, e)
  | .operationNegate => (negate S.values result subResults).map (·, e)
  | .operationFunction =>
    (callFunction S name result subResults e.functions).map fun r => (r.1, { e with functions := r.2 })
  | .operationAssignment =>
    match subResults with
    | sub :: _ => pure (sub, { e with variableMap := e.variableMap.insert name sub })
    | [] => throw .undefined
  | .operationVariable => pure ((e.variableMap.find? name).getD result, e)
  | .literalBoolean | .literalInteger | .literalFloatingPoint | .literalString => pure (literal, e)
  | .nodeVariable => throw (.logic "expr_node::execute() called with an incompatible type: 35")
  | type =>
    match type.binary with
    | some (op, .inl F) => (binaryOperation S.values op F result subResults).map (·, e)
    | some (op, .inr F) => (boolBinaryOperation S.values op F result subResults).map (·, e)
    | none => throw .undefined

mutual

/-- `expr_node::execute()`. The result that comes in stays where a variable is not known. -/
def Node.execute : Node → Variable → Environment → Except Failure (Variable × Environment)
  | .node .operationConditional _ _ (c :: a :: b :: _), result, e => do
    let (result, e) ← c.execute result e
    let r ← condition S.values result
    if r then a.execute result e else b.execute result e
  | .node .operationConditional _ _ _, _, _ => throw .undefined
  | .node type name literal children, result, e => do
    let (subResults, e) ← Node.executeAll children e
    operate S type name literal result subResults e

/-- The children in their order, each with a variable of its own. -/
def Node.executeAll : List Node → Environment → Except Failure (List Variable × Environment)
  | [], e => pure ([], e)
  | c :: children, e => do
    let (cr, e) ← c.execute {} e
    let (subResults, e) ← Node.executeAll children e
    pure (cr :: subResults, e)

end

end SnapExpr
end Snapwebsites
