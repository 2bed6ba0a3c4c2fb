import Snapwebsites.Lib.Fallible
import Snapwebsites.SnapExpr.Operators

/-! # Integers in list expressions

The operators compute with `int64_t`, so the numbers of `uint64_t` from `2 ^ 63` on arrive as negative ones, and a result
is stored in the later one of the two types, which may not hold it. What the comparisons give is the order of the
integers exactly for the operands that escape both (`mathematicalOrder_iff`). The guard against a division by zero leaves
out the other operands for which C++ defines no result (`neverTraps_iff`). -/

namespace Snapwebsites
namespace SnapExpr

variable {L : ValueLibrary} {x y : IntegerVariable} {result : Variable} {s t : VariableType} {n : Int}

/-! ### Bounds -/

theorem bounds_le : t.isInteger = true → -2 ^ 63 ≤ t.lower ∧ t.upper < 2 ^ 64 := by
  cases t <;> decide

theorem IntegerVariable.number_bounds (x : IntegerVariable) : -2 ^ 63 ≤ x.number ∧ x.number < 2 ^ 64 := by
  have htype := bounds_le x.isInteger
  have hx := x.inRange
  omega

/-- The bounds of the types grow with their numbers, but for the negative numbers. -/
theorem upper_le_max : s.isInteger = true → t.isInteger = true → s.upper ≤ (s.max t).upper ∧ t.upper ≤ (s.max t).upper := by
  cases s <;> cases t <;> decide

theorem max_lower_le : s.isInteger = true → t.isInteger = true → (s.max t).isUnsigned = false →
    (s.max t).lower ≤ s.lower ∧ (s.max t).lower ≤ t.lower := by
  cases s <;> cases t <;> decide

theorem lower_of_isUnsigned (h : t.isUnsigned = true) : t.lower = 0 := by
  cases t <;> first | rfl | cases h

/-- Only `uint64_t` reaches `2 ^ 63`, and it is the last of the integer types. -/
theorem isUnsigned_max_of_le : s.isInteger = true → t.isInteger = true → 2 ^ 63 ≤ s.upper ∨ 2 ^ 63 ≤ t.upper →
    (s.max t).isUnsigned = true := by
  cases s <;> cases t <;> decide

theorem lower_nonpos (t : VariableType) : t.lower ≤ 0 := by cases t <;> decide

/-- What a type cannot hold is cut to what it can. -/
theorem number_setInteger_range (ht : t.isInteger = true) (n : Int) :
    t.lower ≤ (result.setValue t (L.setInteger t n)).number L ∧ (result.setValue t (L.setInteger t n)).number L ≤ t.upper := by
  by_cases hbool : t = .bool
  · subst hbool
    rw [number_setBool]
    split <;> decide
  · rw [number_setInteger _ _ hbool]
    cases t <;> first
      | exact absurd ht (by decide)
      | exact absurd rfl hbool
      | simp [wrap, VariableType.width, VariableType.isUnsigned, VariableType.lower, VariableType.upper, Int.bmod_def]
        omega

/-- A number that the type of the result holds survives the way through `int64_t`. -/
theorem number_setInteger_toInt64 (ht : t.isInteger = true) (hn : t.lower ≤ n ∧ n ≤ t.upper) :
    (result.setValue t (L.setInteger t (toInt64 n))).number L = n := by
  by_cases hbool : t = .bool
  · subst hbool
    obtain rfl | rfl : n = 0 ∨ n = 1 := by
      simp only [VariableType.lower, VariableType.upper] at hn
      omega
    all_goals
      rw [number_setBool]
      decide
  · rw [number_setInteger _ _ hbool, toInt64_eq]
    cases t <;> first
      | exact absurd ht (by decide)
      | exact absurd rfl hbool
      | simp [wrap, VariableType.width, VariableType.isUnsigned, VariableType.lower, VariableType.upper, Int.bmod_def] at hn ⊢
        omega

/-! ### Comparisons -/

/-- The eight comparisons of two integers are those of the numbers. -/
structure MathematicalOrder (L : ValueLibrary) (result : Variable) (x y : IntegerVariable) : Prop where
  less : boolBinaryOperation L "<" opLess result [x.toVariable L, y.toVariable L] =
    .ok (result.setValue .bool (L.setBoolValue (x.number < y.number)))
  lessOrEqual : boolBinaryOperation L "<=" opLessOrEqual result [x.toVariable L, y.toVariable L] =
    .ok (result.setValue .bool (L.setBoolValue (x.number ≤ y.number)))
  greater : boolBinaryOperation L ">" opGreater result [x.toVariable L, y.toVariable L] =
    .ok (result.setValue .bool (L.setBoolValue (x.number > y.number)))
  greaterOrEqual : boolBinaryOperation L ">=" opGreaterOrEqual result [x.toVariable L, y.toVariable L] =
    .ok (result.setValue .bool (L.setBoolValue (x.number ≥ y.number)))
  equal : boolBinaryOperation L "==" opEqual result [x.toVariable L, y.toVariable L] =
    .ok (result.setValue .bool (L.setBoolValue (x.number == y.number)))
  notEqual : boolBinaryOperation L "!=" opNotEqual result [x.toVariable L, y.toVariable L] =
    .ok (result.setValue .bool (L.setBoolValue (x.number != y.number)))
  minimum : ∃ r, binaryOperation L "<?" opMinimum result [x.toVariable L, y.toVariable L] = .ok r ∧
    r.number L = min x.number y.number
  maximum : ∃ r, binaryOperation L ">?" opMaximum result [x.toVariable L, y.toVariable L] = .ok r ∧
    r.number L = max x.number y.number

/-- Both numbers fit `int64_t`, or neither does; and the type of the result is signed, or no number is negative. -/
def Comparable (x y : IntegerVariable) : Prop :=
  (x.number < 2 ^ 63 ↔ y.number < 2 ^ 63) ∧
    ((x.type.max y.type).isUnsigned = false ∨ 0 ≤ x.number ∧ 0 ≤ y.number)

/-- On one side of `2 ^ 63` the order stays. -/
theorem toInt64_lt_iff (h : x.number < 2 ^ 63 ↔ y.number < 2 ^ 63) : toInt64 x.number < toInt64 y.number ↔ x.number < y.number := by
  have hx := x.number_bounds
  have hy := y.number_bounds
  rw [toInt64_eq, toInt64_eq]
  omega

theorem toInt64_inj (hx : -2 ^ 63 ≤ n ∧ n < 2 ^ 64) {m : Int} (hm : -2 ^ 63 ≤ m ∧ m < 2 ^ 64) (h : n < 2 ^ 63 ↔ m < 2 ^ 63) :
    toInt64 n = toInt64 m ↔ n = m := by
  rw [toInt64_eq, toInt64_eq]
  omega

/-- The type of the result holds both numbers. -/
theorem Comparable.inRange (h : Comparable x y) :
    ((x.type.max y.type).lower ≤ x.number ∧ x.number ≤ (x.type.max y.type).upper) ∧
      (x.type.max y.type).lower ≤ y.number ∧ y.number ≤ (x.type.max y.type).upper := by
  have hupper := upper_le_max x.isInteger y.isInteger
  have hx := x.inRange
  have hy := y.inRange
  obtain hsigned | hnonneg := h.2
  · have hlower := max_lower_le x.isInteger y.isInteger hsigned
    omega
  · have hlower := lower_nonpos (x.type.max y.type)
    omega

theorem Comparable.order (h : Comparable x y) : MathematicalOrder L result x y := by
  have hlt : toInt64 x.number < toInt64 y.number ↔ x.number < y.number := toInt64_lt_iff h.1
  have hgt : toInt64 y.number < toInt64 x.number ↔ y.number < x.number := toInt64_lt_iff h.1.symm
  have heq : toInt64 x.number = toInt64 y.number ↔ x.number = y.number := toInt64_inj x.number_bounds y.number_bounds h.1
  have htype := max_isInteger x.isInteger y.isInteger
  obtain ⟨hx, hy⟩ := h.inRange
  constructor
  · simp only [boolBinaryOperation_integers, opLess, hlt]
  · simp only [boolBinaryOperation_integers, opLessOrEqual, ← not_lt, hgt]
  · simp only [boolBinaryOperation_integers, opGreater, gt_iff_lt, hgt]
  · simp only [boolBinaryOperation_integers, opGreaterOrEqual, ge_iff_le, ← not_lt, hlt]
  · simp only [boolBinaryOperation_integers, opEqual, beq_eq_decide, heq]
  · simp only [boolBinaryOperation_integers, opNotEqual, bne, beq_eq_decide, heq]
  · refine ⟨_, binaryOperation_integers _ _ _, ?_⟩
    simp only [hlt, ← apply_ite toInt64, ← min_def_lt]
    exact number_setInteger_toInt64 htype (by omega)
  · refine ⟨_, binaryOperation_integers _ _ _, ?_⟩
    simp only [gt_iff_lt, hgt, ← apply_ite toInt64, max_comm x.number, ← max_def_lt]
    exact number_setInteger_toInt64 htype (by omega)

/-- A library's `bool` tells which of the two it is. -/
theorem setBoolValue_inj {a b : Bool}
    (h : (Except.ok (result.setValue .bool (L.setBoolValue a)) : Except Failure Variable) =
      .ok (result.setValue .bool (L.setBoolValue b))) : a = b := by
  have hvalue : L.setBoolValue a = L.setBoolValue b := congrArg Variable.value (Except.ok.inj h)
  rw [← L.safeBoolValue_set a, hvalue, L.safeBoolValue_set]

/-- An unsigned type has no room for a negative minimum; and a number from `2 ^ 63` on comes before those below it that
    are not negative. -/
theorem MathematicalOrder.comparable (h : MathematicalOrder L result x y) : Comparable x y := by
  have htype := max_isInteger x.isInteger y.isInteger
  have hx := x.number_bounds
  have hy := y.number_bounds
  have hless : (toInt64 x.number < toInt64 y.number) ↔ x.number < y.number :=
    decide_eq_decide.mp (setBoolValue_inj ((boolBinaryOperation_integers _ _ _).symm.trans h.less))
  have hgreater : (toInt64 x.number > toInt64 y.number) ↔ x.number > y.number :=
    decide_eq_decide.mp (setBoolValue_inj ((boolBinaryOperation_integers _ _ _).symm.trans h.greater))
  have hsign : (x.type.max y.type).isUnsigned = false ∨ 0 ≤ x.number ∧ 0 ≤ y.number := by
    obtain ⟨r, hr, hmin⟩ := h.minimum
    rw [binaryOperation_integers] at hr
    cases hr
    rw [← Bool.not_eq_true]
    by_contra! hneg
    obtain ⟨hunsigned, hneg⟩ := hneg
    have hrange : (x.type.max y.type).lower ≤ min x.number y.number := hmin ▸ (number_setInteger_range htype _).1
    rw [lower_of_isUnsigned hunsigned] at hrange
    omega
  refine ⟨?_, hsign⟩
  by_contra hmixed
  have hunsigned : (x.type.max y.type).isUnsigned = true := by
    have hxr := x.inRange
    have hyr := y.inRange
    exact isUnsigned_max_of_le x.isInteger y.isInteger (by omega)
  obtain hsigned | hnonneg := hsign
  · exact absurd (hsigned.symm.trans hunsigned) (by decide)
  · rw [toInt64_eq, toInt64_eq] at hless hgreater
    omega

/-- The comparisons of two integers are those of the numbers exactly where the numbers fit `int64_t` together, or
    together do not, and the type of the result has room for a negative one. -/
theorem mathematicalOrder_iff (L : ValueLibrary) (result : Variable) (x y : IntegerVariable) :
    MathematicalOrder L result x y ↔ Comparable x y :=
  ⟨MathematicalOrder.comparable, Comparable.order⟩

/-- The smaller one of the `int8_t` -1 and the `uint8_t` 5 is not -1. -/
theorem not_mathematicalOrder :
    ¬ MathematicalOrder .network {} ⟨[], .int8, -1, rfl, by decide⟩ ⟨[], .uint8, 5, rfl, by decide⟩ :=
  fun h => absurd h.comparable (by unfold Comparable; decide)

/-! ### Undefined results -/

/-- The operators whose result is not defined for all operands. -/
inductive GuardedOperator
  | divide | modulo | shiftLeft | shiftRight
deriving DecidableEq

namespace GuardedOperator

def symbol : GuardedOperator → String
  | divide => "/" | modulo => "%" | shiftLeft => "<<" | shiftRight => ">>"

def operation : GuardedOperator → Operation
  | divide => opDivide | modulo => opModulo | shiftLeft => opShiftLeft | shiftRight => opShiftRight

/-- What the guard throws. -/
def refusal : GuardedOperator → String
  | modulo => "expr_node::op_modulo() called with integers and a denominator set to zero"
  | _ => "expr_node::op_divide() called with integers and a denominator set to zero"

def isDivision (o : GuardedOperator) : Bool := o = divide || o = modulo

end GuardedOperator

/-- A division by zero is refused, and nothing else; all other results are defined. -/
structure NeverTraps (L : ValueLibrary) (o : GuardedOperator) (result : Variable) (x y : IntegerVariable) : Prop where
  divisionByZero : (∃ what, binaryOperation L o.symbol o.operation result [x.toVariable L, y.toVariable L] =
    .error (.divisionByZero what)) ↔ o.isDivision = true ∧ y.number = 0
  defined : ∀ e, binaryOperation L o.symbol o.operation result [x.toVariable L, y.toVariable L] = .error e →
    ∃ what, e = .divisionByZero what

/-- No quotient of the least `int64_t` by -1, where an `uint64_t` counts as the `int64_t` it wraps to; and a count of a
    shift below the size. -/
def Defined (o : GuardedOperator) (x y : IntegerVariable) : Prop :=
  if o.isDivision then ¬ ((x.number = -2 ^ 63 ∨ x.number = 2 ^ 63) ∧ (y.number = -1 ∨ y.number = 2 ^ 64 - 1))
  else 0 ≤ y.number ∧ y.number < 64

instance decidableDefined (o : GuardedOperator) (x y : IntegerVariable) : Decidable (Defined o x y) := by
  unfold Defined
  infer_instance

theorem toInt64_eq_zero (y : IntegerVariable) : toInt64 y.number = 0 ↔ y.number = 0 := by
  have hy := y.number_bounds
  rw [toInt64_eq]
  omega

/-- A quotient of two `int64_t` is one, but for one. -/
theorem tdiv_fits {a b : Int} (ha : -2 ^ 63 ≤ a ∧ a < 2 ^ 63) :
    (-2 ^ 63 ≤ a.tdiv b ∧ a.tdiv b < 2 ^ 63) ↔ ¬ (a = -2 ^ 63 ∧ b = -1) := by
  by_cases hone : b.natAbs = 1
  · obtain rfl | rfl : b = 1 ∨ b = -1 := by omega
    · rw [Int.tdiv_one]
      omega
    · rw [Int.tdiv_neg, Int.tdiv_one]
      omega
  · have hquotient : (a.tdiv b).natAbs ≤ a.natAbs / 2 := by
      rw [Int.natAbs_tdiv]
      by_cases hzero : b.natAbs = 0
      · rw [hzero]
        exact (Nat.div_zero _).trans_le (Nat.zero_le _)
      · exact Nat.div_le_div_left (by omega) (by decide)
    omega

/-- The guard is against one pair of operands too few. -/
theorem int64_tdiv (x y : IntegerVariable) (e : Failure) :
    int64 ((toInt64 x.number).tdiv (toInt64 y.number)) = .error e ↔
      e = .undefined ∧ (x.number = -2 ^ 63 ∨ x.number = 2 ^ 63) ∧ (y.number = -1 ∨ y.number = 2 ^ 64 - 1) := by
  have hx := x.number_bounds
  have hy := y.number_bounds
  have hfits := tdiv_fits (a := toInt64 x.number) (b := toInt64 y.number) (by rw [toInt64_eq]; omega)
  have hpair : (toInt64 x.number = -2 ^ 63 ∧ toInt64 y.number = -1) ↔
      (x.number = -2 ^ 63 ∨ x.number = 2 ^ 63) ∧ (y.number = -1 ∨ y.number = 2 ^ 64 - 1) := by
    rw [toInt64_eq, toInt64_eq]
    omega
  rw [hpair] at hfits
  unfold int64
  split
  · rename_i h
    exact iff_of_false (fun h => by cases h) fun hbad => hfits.mp h hbad.2
  · rename_i h
    rw [hfits, not_not] at h
    exact ⟨fun he => ⟨(Except.error.inj he).symm, h⟩, fun he => congrArg Except.error he.1.symm⟩

/-- What an operator throws, the operation throws. -/
theorem binaryOperation_eq_error (op : String) (F : Operation) (e : Failure) :
    binaryOperation L op F result [x.toVariable L, y.toVariable L] = .error e ↔
      F.integers (toInt64 x.number) (toInt64 y.number) = .error e := by
  rw [binaryOperation_integers, Fallible.map_eq_error]

theorem not_defined_iff {o : GuardedOperator} (ho : o.isDivision = true) :
    ¬ Defined o x y ↔ (x.number = -2 ^ 63 ∨ x.number = 2 ^ 63) ∧ (y.number = -1 ∨ y.number = 2 ^ 64 - 1) := by
  rw [Defined, if_pos ho, not_not]

/-- The two ways in which one of the operators fails. -/
theorem operation_eq_error (o : GuardedOperator) (e : Failure) :
    o.operation.integers (toInt64 x.number) (toInt64 y.number) = .error e ↔
      (o.isDivision = true ∧ y.number = 0 ∧ e = .divisionByZero o.refusal) ∨
        (e = .undefined ∧ ¬ (o.isDivision = true ∧ y.number = 0) ∧ ¬ Defined o x y) := by
  have hzero := toInt64_eq_zero y
  have hcount : (0 ≤ toInt64 y.number ∧ toInt64 y.number < 64) ↔ 0 ≤ y.number ∧ y.number < 64 := by
    have hy := y.number_bounds
    rw [toInt64_eq]
    omega
  cases o with
  | divide =>
    rw [not_defined_iff rfl]
    simp only [GuardedOperator.operation, opDivide, GuardedOperator.isDivision, GuardedOperator.refusal, hzero]
    split
    · simp [throw, throwThe, MonadExceptOf.throw, *, eq_comm]
    · rw [int64_tdiv]
      simp [*]
  | modulo =>
    rw [not_defined_iff rfl]
    simp only [GuardedOperator.operation, opModulo, GuardedOperator.isDivision, GuardedOperator.refusal, hzero]
    split
    · simp [throw, throwThe, MonadExceptOf.throw, *, eq_comm]
    · rw [Fallible.map_eq_error, int64_tdiv]
      simp [*]
  | shiftLeft =>
    simp only [GuardedOperator.operation, opShiftLeft, GuardedOperator.isDivision, Defined, hcount]
    split <;> simp [throw, throwThe, MonadExceptOf.throw, pure, Except.pure, *, eq_comm]
  | shiftRight =>
    simp only [GuardedOperator.operation, opShiftRight, GuardedOperator.isDivision, Defined, hcount]
    split <;> simp [throw, throwThe, MonadExceptOf.throw, pure, Except.pure, *, eq_comm]

/-- The operators throw for a zero divisor and have a defined result otherwise exactly for the operands of `Defined`. -/
theorem neverTraps_iff (L : ValueLibrary) (o : GuardedOperator) (result : Variable) (x y : IntegerVariable) :
    NeverTraps L o result x y ↔ Defined o x y := by
  constructor
  · intro h
    by_contra hdefined
    have hzero : ¬ (o.isDivision = true ∧ y.number = 0) := by
      rintro ⟨hdivision, hzero⟩
      simp [Defined, hdivision, hzero] at hdefined
    obtain ⟨what, hwhat⟩ := h.defined .undefined
      ((binaryOperation_eq_error _ _ _).mpr ((operation_eq_error o _).mpr (.inr ⟨rfl, hzero, hdefined⟩)))
    cases hwhat
  · intro h
    constructor
    · simp only [binaryOperation_eq_error, operation_eq_error]
      constructor
      · rintro ⟨what, ⟨hdivision, hzero, -⟩ | ⟨⟨⟩, -⟩⟩
        exact ⟨hdivision, hzero⟩
      · rintro ⟨hdivision, hzero⟩
        exact ⟨_, .inl ⟨hdivision, hzero, rfl⟩⟩
    · intro e he
      rw [binaryOperation_eq_error, operation_eq_error] at he
      obtain ⟨-, -, rfl⟩ | ⟨-, -, hdefined⟩ := he
      · exact ⟨_, rfl⟩
      · exact absurd h hdefined

/-- The least `int64_t` divided by -1. -/
theorem not_neverTraps : ¬ NeverTraps .network .divide {} ⟨[], .int64, -2 ^ 63, rfl, by decide⟩ ⟨[], .int8, -1, rfl, by decide⟩ := by
  intro h
  obtain ⟨what, hwhat⟩ := h.defined .undefined
    ((binaryOperation_eq_error _ _ _).mpr ((operation_eq_error .divide _).mpr (.inr ⟨rfl, by decide, by decide⟩)))
  cases hwhat

end SnapExpr
end Snapwebsites
