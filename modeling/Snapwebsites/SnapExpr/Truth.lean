import Snapwebsites.SnapExpr.Integers
import Snapwebsites.SnapExpr.Node

/-! # Truth in list expressions

`variable_t::is_true()`, the operator `!` and the operator `?:` each take their own look at a value. The operators agree
for every value (`logicalNot_content`, `condition_content`); `is_true()` reads the first half of a 64 bit integer, and takes
a text for true that the others find empty. -/

namespace Snapwebsites
open QString

namespace SnapExpr

/-- The values of all types but null. -/
inductive Content
  | integer (x : IntegerVariable)
  | float (f : UInt32)
  | double (d : UInt64)
  | string (s : QString)
  | binary (b : Bytes)

namespace Content

/-- The variable that holds a value. -/
def toVariable (L : ValueLibrary) : Content → Variable
  | integer x => x.toVariable L
  | float f => { type := .float, value := L.setFloatValue f }
  | double d => { type := .double, value := L.setDoubleValue d }
  | string s => { type := .string, value := L.setStringValue s }
  | binary b => { type := .binary, value := b }

/-- What the operators find. -/
def truth : Content → Bool
  | integer x => x.number ≠ 0
  | float f => Float32.ofBits f != 0
  | double d => Float.ofBits d != 0
  | string s => (fromUtf8 s).units != 0
  | binary b => b.length != 0

/-- The values that `is_true()` takes for the opposite: the 64 bit integers without a bit in their first half, and the text
    that is lost as a byte order mark. -/
def Mistaken : Content → Prop
  | integer x => (x.type = .int64 ∨ x.type = .uint64) ∧ 0 < x.number ∧ x.number < 2 ^ 32
  | string s => s = [bom]
  | _ => False

end Content

/-- One notion of truth: `is_true()`, `!` and `?:` agree, and for integers with the number. -/
structure OneTruth (S : Server) (result : Variable) (c : Content) : Prop where
  logicalNot : (c.toVariable S.values).isTrue S.values = true ↔
    logicalNot S.values result [c.toVariable S.values] = .ok (result.setValue .bool (S.values.setBoolValue false))
  conditional : (c.toVariable S.values).isTrue S.values = true ↔
    ∀ (name : QString) (literal r : Variable) (condition a b : Node) (e e' : Environment),
      condition.execute S r e = .ok (c.toVariable S.values, e') →
      (Node.node .operationConditional name literal [condition, a, b]).execute S r e = a.execute S (c.toVariable S.values) e'
  integer : ∀ x, c = .integer x → ((c.toVariable S.values).isTrue S.values = true ↔ x.number ≠ 0)

variable {L : ValueLibrary} {x : IntegerVariable} {result : Variable} {s : QString}

/-! ### The operators -/

/-- The accessor of the type of an integer reads its number. -/
theorem safeIntegerValue_toVariable (hbool : x.type ≠ .bool) :
    L.safeIntegerValue (x.toVariable L).type.width (!(x.toVariable L).type.isUnsigned) (x.toVariable L).value = x.number :=
  safeInteger_set x.isInteger x.inRange hbool

/-- `!` and `?:` take the accessor of the type. -/
theorem logicalNot_integer {v : Variable} (hv : v.type.isInteger = true) (hbool : v.type ≠ .bool) :
    logicalNot L result [v] =
      .ok (result.setValue .bool (L.setBoolValue (L.safeIntegerValue v.type.width (!v.type.isUnsigned) v.value == 0))) := by
  obtain ⟨name, t, b⟩ := v
  cases t <;> first | exact absurd rfl hbool | rfl | cases hv

theorem condition_integer {v : Variable} (hv : v.type.isInteger = true) (hbool : v.type ≠ .bool) :
    condition L v = .ok (L.safeIntegerValue v.type.width (!v.type.isUnsigned) v.value != 0) := by
  obtain ⟨name, t, b⟩ := v
  cases t <;> first | exact absurd rfl hbool | rfl | cases hv

theorem bne_zero_eq (n : Int) : (n != 0) = decide (n ≠ 0) := by
  by_cases h : n = 0 <;> simp [h]

theorem logicalNot_content (c : Content) :
    logicalNot L result [c.toVariable L] = .ok (result.setValue .bool (L.setBoolValue (!c.truth))) := by
  cases c with
  | integer x =>
    by_cases hbool : x.type = .bool
    · have hvalue : (x.toVariable L).value = L.setBoolValue (x.number ≠ 0) := if_pos hbool
      have htype : (x.toVariable L).type = .bool := hbool
      simp only [logicalNot, Content.toVariable, htype, hvalue, L.safeBoolValue_set, Content.truth]
      rfl
    · rw [Content.toVariable, logicalNot_integer x.isInteger hbool, safeIntegerValue_toVariable hbool, Content.truth,
        ← bne_zero_eq, bne, Bool.not_not]
  | float f =>
    simp only [logicalNot, Content.toVariable, Content.truth, L.safeFloatValue_set, bne, Bool.not_not]
    rfl
  | double d =>
    simp only [logicalNot, Content.toVariable, Content.truth, L.safeDoubleValue_set, bne, Bool.not_not]
    rfl
  | string s =>
    simp only [logicalNot, Content.toVariable, Content.truth, stringValue_set, bne, Bool.not_not]
    rfl
  | binary b =>
    simp only [logicalNot, Content.toVariable, Content.truth, bne, Bool.not_not]
    rfl

theorem condition_content (c : Content) : condition L (c.toVariable L) = .ok c.truth := by
  cases c with
  | integer x =>
    by_cases hbool : x.type = .bool
    · have hvalue : (x.toVariable L).value = L.setBoolValue (x.number ≠ 0) := if_pos hbool
      have htype : (x.toVariable L).type = .bool := hbool
      have hbyte : L.safeSignedCharValue (L.setBoolValue (x.number ≠ 0)) = if x.number = 0 then 0 else 1 := by
        have hset := L.safeIntegerValue_append 1 true (decide (x.number ≠ 0)).toNat []
        rw [List.append_nil, ← L.setBoolValue_eq] at hset
        rw [ValueLibrary.safeSignedCharValue, hset]
        by_cases h : x.number = 0 <;> simp [h] <;> decide
      simp only [condition, Content.toVariable, htype, hvalue, hbyte, Content.truth]
      by_cases h : x.number = 0 <;> simp [h] <;> rfl
    · rw [Content.toVariable, condition_integer x.isInteger hbool, safeIntegerValue_toVariable hbool, Content.truth, bne_zero_eq]
  | float f =>
    simp only [condition, Content.toVariable, Content.truth, L.safeFloatValue_set]
    rfl
  | double d =>
    simp only [condition, Content.toVariable, Content.truth, L.safeDoubleValue_set]
    rfl
  | string s =>
    simp only [condition, Content.toVariable, Content.truth, stringValue_set]
    rfl
  | binary b => rfl

/-- `?:` goes on with its second child or its third one, as the condition is. -/
theorem execute_conditional {S : Server} {name : QString} {literal r v : Variable} {condition a b : Node}
    {e e' : Environment} {holds : Bool} (hc : condition.execute S r e = .ok (v, e'))
    (hv : SnapExpr.condition S.values v = .ok holds) :
    (Node.node .operationConditional name literal [condition, a, b]).execute S r e =
      if holds then a.execute S v e' else b.execute S v e' := by
  rw [Node.execute, hc]
  change (SnapExpr.condition S.values v >>= fun r => if r then a.execute S v e' else b.execute S v e') = _
  rw [hv]
  rfl

/-! ### `is_true()` -/

/-- The accessor of 32 bits reads the first half of a 64 bit integer. -/
theorem safeInt32Value_setIntegerValue (n : Int) :
    L.safeInt32Value (L.setIntegerValue 8 n) = wrap 4 true (n % 2 ^ 64 / 2 ^ 32) := by
  have hnonneg : ((n % (256 ^ 8 : Nat)).toNat : Int) = n % 2 ^ 64 := ValueLibrary.toNat_emod 8 n
  rw [ValueLibrary.safeInt32Value, L.setIntegerValue_eq, bigEndian_add _ 4 4, L.safeIntegerValue_append, Int.natCast_mod,
    ValueLibrary.wrap_emod, Int.natCast_div, hnonneg]
  rfl

theorem isTrue_wide (htype : x.type = .int64 ∨ x.type = .uint64) :
    (x.toVariable L).isTrue L = decide (x.number ≠ 0 ∧ ¬ (0 < x.number ∧ x.number < 2 ^ 32)) := by
  have hbounds := x.number_bounds
  have htrue : (x.toVariable L).isTrue L = (L.safeInt32Value (L.setIntegerValue 8 x.number) != 0) := by
    obtain ⟨name, t, n, ht, hn⟩ := x
    obtain rfl | rfl := htype <;> rfl
  rw [htrue, safeInt32Value_setIntegerValue, bne_zero_eq, decide_eq_decide]
  simp [wrap, Int.bmod_def]
  omega

theorem isTrue_narrow (htype : ¬ (x.type = .int64 ∨ x.type = .uint64)) :
    (x.toVariable L).isTrue L = decide (x.number ≠ 0) := by
  obtain ⟨name, t, n, ht, hn⟩ := x
  by_cases hbool : t = .bool
  · subst hbool
    exact L.safeBoolValue_set _
  · have hset : (L.setInteger t n) = L.setIntegerValue t.width n := if_neg hbool
    have htrue : (IntegerVariable.toVariable L ⟨name, t, n, ht, hn⟩).isTrue L =
        (L.safeIntegerValue t.width true (L.setIntegerValue t.width n) != 0) := by
      rw [← hset]
      cases t <;> first
        | exact absurd ht (by decide)
        | exact absurd rfl hbool
        | exact absurd (.inl rfl) htype
        | exact absurd (.inr rfl) htype
        | rfl
    rw [htrue, ValueLibrary.safeIntegerValue_set, bne_zero_eq, decide_eq_decide]
    cases t <;> first
      | exact absurd ht (by decide)
      | exact absurd rfl hbool
      | exact absurd (.inl rfl) htype
      | exact absurd (.inr rfl) htype
      | simp [wrap, VariableType.width, VariableType.lower, VariableType.upper, Int.bmod_def] at hn ⊢
        omega

theorem units_eq_zero : s.units = 0 ↔ s = [] := by
  cases s with
  | nil => simp [units]
  | cons c s =>
    have hc : utf16 c ≠ [] := by
      unfold utf16
      split <;> simp
    simp [units, hc]

theorem fromUtf8_eq_nil : fromUtf8 s = [] ↔ s = [] ∨ s = [bom] := by
  by_cases hbom : s.head? = some bom
  · obtain ⟨rest, rfl⟩ := List.head?_eq_some_iff.mp hbom
    simp [fromUtf8_bom]
  · rw [fromUtf8_eq_self hbom]
    refine ⟨.inl, ?_⟩
    rintro (h | rfl)
    · exact h
    · exact absurd rfl hbom

theorem utf8_eq_nil : s.utf8 = [] ↔ s = [] := ⟨fun h => utf8_inj (h.trans rfl), fun h => h ▸ rfl⟩

/-- `is_true()` finds what the operators find, but for the values it mistakes. -/
theorem isTrue_content (c : Content) : (c.toVariable L).isTrue L = c.truth ↔ ¬ c.Mistaken := by
  cases c with
  | integer x =>
    by_cases htype : x.type = .int64 ∨ x.type = .uint64
    · rw [Content.toVariable, isTrue_wide htype, Content.truth, decide_eq_decide]
      simp only [Content.Mistaken, htype, true_and]
      omega
    · rw [Content.toVariable, isTrue_narrow htype]
      exact iff_of_true rfl fun h => htype h.1
  | float f => exact iff_of_true (by simp only [Content.toVariable, Variable.isTrue, Content.truth, L.safeFloatValue_set]) id
  | double d => exact iff_of_true (by simp only [Content.toVariable, Variable.isTrue, Content.truth, L.safeDoubleValue_set]) id
  | string s =>
    have htrue : (Content.toVariable L (.string s)).isTrue L = decide (s ≠ []) := by
      have hvalue : (Content.toVariable L (.string s)).isTrue L = !(L.setStringValue s).isEmpty := rfl
      rw [hvalue, L.setStringValue_eq]
      by_cases hs : s = [] <;> simp [hs, utf8_eq_nil]
    have htruth : (Content.string s).truth = decide (fromUtf8 s ≠ []) := by
      by_cases hs : fromUtf8 s = [] <;> simp [Content.truth, hs, units_eq_zero]
    rw [htrue, htruth, decide_eq_decide, not_iff_not, fromUtf8_eq_nil, Content.Mistaken]
    by_cases hs : s = [] <;> simp [hs]
  | binary b => exact iff_of_true (by cases b <;> rfl) id

/-! ### One notion of truth -/

theorem OneTruth.isTrue_eq {S : Server} {c : Content} (h : OneTruth S result c) :
    (c.toVariable S.values).isTrue S.values = c.truth := by
  have hnot := h.logicalNot
  rw [logicalNot_content] at hnot
  rw [Bool.eq_iff_iff, hnot]
  constructor
  · intro heq
    have hbool := setBoolValue_inj heq
    simpa using hbool
  · intro htruth
    rw [htruth]
    rfl

theorem oneTruth_of_isTrue_eq {S : Server} {c : Content} (h : (c.toVariable S.values).isTrue S.values = c.truth) :
    OneTruth S result c := by
  constructor
  · rw [logicalNot_content, h]
    constructor
    · intro htruth
      rw [htruth]
      rfl
    · intro heq
      have hbool := setBoolValue_inj heq
      simpa using hbool
  · rw [h]
    constructor
    · intro htruth name literal r condition a b e e' hc
      rw [execute_conditional hc (condition_content c), htruth, if_pos rfl]
    · intro hsecond
      -- a condition that is a literal, and two literals to choose from
      let condition : Node := .node .literalString [] (c.toVariable S.values) []
      have hcondition : condition.execute S {} {} = .ok (c.toVariable S.values, {}) := rfl
      have hchoice := hsecond [] {} {} condition (.node .literalBoolean [] { name := ['a'] } [])
        (.node .literalBoolean [] {} []) {} {} hcondition
      rw [execute_conditional hcondition (condition_content c)] at hchoice
      by_contra htruth
      rw [if_neg htruth] at hchoice
      have hname := congrArg (fun r => r.toOption.map fun p => p.1.name) hchoice
      cases hname
  · rintro x rfl
    rw [h]
    exact decide_eq_true_iff

/-- `is_true()`, `!` and `?:` agree exactly on the values that `is_true()` does not mistake. -/
theorem oneTruth_iff (S : Server) (result : Variable) (c : Content) : OneTruth S result c ↔ ¬ c.Mistaken :=
  ⟨fun h => (isTrue_content c).mp h.isTrue_eq, fun h => oneTruth_of_isTrue_eq ((isTrue_content c).mpr h)⟩

/-- The `int64_t` 5 is true for the operators only. -/
theorem not_oneTruth : ¬ OneTruth ⟨.network, [], id⟩ {} (.integer ⟨[], .int64, 5, rfl, by decide⟩) := fun h =>
  (isTrue_content _).mp h.isTrue_eq ⟨.inl rfl, by decide, by decide⟩

end SnapExpr
end Snapwebsites
