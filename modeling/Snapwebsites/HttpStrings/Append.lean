import Snapwebsites.HttpStrings.WeightedHttpString

/-! # Parsing on

A second text goes on with the parts of the first one, as long as its first byte is found: the offset counts UTF-16 units, so the
end of a first text with other characters than ASCII is scanned again. -/

namespace Snapwebsites
namespace HttpStrings
open QString

variable {L : Type} (qt : Qt L) {a b : QString} {r s : Bytes}

/-! ### The offset -/

theorem utf8_append (a b : QString) : utf8 (a ++ b) = utf8 a ++ utf8 b := List.flatMap_append

theorem units_le (a : QString) : units a ≤ (utf8 a).length := by
  induction a with
  | nil => exact le_refl _
  | cons c a ih =>
    have hc : (utf16 c).length ≤ (String.utf8EncodeChar c).length := by
      rw [String.length_utf8EncodeChar, utf16]
      split
      · exact c.utf8Size_pos
      · have hsize : c.utf8Size = 4 := by
          rw [Char.utf8Size_eq_four_iff, UInt32.lt_iff_toNat_lt]
          have hval : c.toNat = c.val.toNat := rfl
          have hmax : (0xffff : UInt32).toNat = 0xffff := rfl
          omega
        rw [hsize]
        exact Nat.le_add_left 2 2
    rw [units, List.flatMap_cons, List.length_append, utf8, List.flatMap_cons, List.length_append]
    exact Nat.add_le_add hc ih

/-- What is scanned again in front of a second text. -/
def again (a : QString) : Bytes := (utf8 (a ++ [','])).drop (units (a ++ [',']))

/-- `std::isspace()` or a comma. -/
def isSeparator (x : UInt8) : Bool := separators.any fun c => c.toNat = x.toNat

/-- There is nothing but blanks and commas to scan again. -/
def OnlySeparators (a : QString) : Prop := ∀ x ∈ again a, isSeparator x

theorem parse_start (a : QString) : (parse qt {} a false).1 =
    { str := a, parts := (readParts qt bytes (utf8 a)).1, errorMessages := (readParts qt bytes (utf8 a)).2 } := by
  simp [parse]

theorem parse_again (h : a ≠ []) (b : QString) : (parse qt (parse qt {} a false).1 b false).1.parts =
    (readParts qt bytes (utf8 a)).1 ++ (readParts qt bytes (again a ++ utf8 b)).1 := by
  have hdrop : (utf8 (a ++ [','] ++ b)).drop (units (a ++ [','])) = again a ++ utf8 b := by
    rw [utf8_append, List.drop_append_of_le_length (units_le _)]
    rfl
  rw [parse_start, parse]
  simp [h, ← hdrop]

theorem readParts_separators (hr : ∀ x ∈ r, isSeparator x) (s : Bytes) :
    readParts qt bytes (r ++ s) = readParts qt bytes s := by
  have hskip : skip bytes separators (r ++ s) = skip bytes separators s := List.dropWhile_append_of_pos hr
  rw [readParts_eq, hskip, ← readParts_eq]

/-! ### What is scanned again -/

/-- What is scanned again ends with the comma that was put there. -/
theorem again_comma (a : QString) : again a = [] ∨ ∃ x, again a = x ++ [0x2C] := by
  have hbytes : utf8 (a ++ [',']) = utf8 a ++ [0x2C] := by
    rw [utf8_append]
    rfl
  rw [again, hbytes]
  by_cases h : units (a ++ [',']) ≤ (utf8 a).length
  · exact .inr ⟨_, List.drop_append_of_le_length h⟩
  · refine .inl (List.drop_eq_nil_iff.mpr ?_)
    rw [List.length_append]
    exact Nat.lt_of_not_le h

/-- A name ends in front of a comma, whatever stands behind it. -/
theorem before_comma (r s : Bytes) : before bytes [',', ';', '=', ' ', '\t'] (r ++ [0x2C] ++ s) =
    before bytes [',', ';', '=', ' ', '\t'] (r ++ [0x2C]) := by
  induction r with
  | nil => rfl
  | cons x r ih =>
    rw [before, before] at ih
    rw [before, before, List.cons_append, List.cons_append, List.takeWhile_cons, List.takeWhile_cons, ih]

theorem readPart_comma (r s : Bytes) : (readPart qt bytes (r ++ [0x2C] ++ s)).isSome = (readPart qt bytes (r ++ [0x2C])).isSome := by
  rw [readPart, readPart, before_comma]
  simp only
  split
  · rfl
  · rfl

theorem readParts_isSome (hskip : skip bytes separators s = r) (hpeek : peek bytes r ≠ 0) :
    (readParts qt bytes s).1 ≠ [] ↔ (readPart qt bytes r).isSome := by
  rw [readParts_eq, hskip, if_neg hpeek]
  cases readPart qt bytes r with
  | none => exact iff_of_false (fun h => h rfl) Bool.false_ne_true
  | some x => exact iff_of_true (List.cons_ne_nil _ _) rfl

theorem readParts_letter : (readParts qt bytes (utf8 ['x'])).1 ≠ [] := by
  have hpeek : peek bytes (utf8 ['x']) ≠ 0 := show 0x78 ≠ 0 by decide
  have hskip : skip bytes separators (utf8 ['x']) = utf8 ['x'] := rfl
  refine (readParts_isSome qt hskip hpeek).mpr ?_
  have hname : simplified (bytes.text (before bytes [',', ';', '=', ' ', '\t'] (utf8 ['x']))) = ['x'] := by
    have hbefore : before bytes [',', ';', '=', ' ', '\t'] (utf8 ['x']) = utf8 ['x'] := rfl
    rw [hbefore]
    show simplified (fromUtf8 (decodeUtf8 0 (utf8 ['x']))) = _
    rw [decodeUtf8_utf8]
    rfl
  rw [readPart, hname, if_neg (by decide)]
  rfl

/-- Something other than separators gives a part in front of the second text, or keeps all of its parts away. -/
theorem onlySeparators_of_append (h : ∀ b, (readParts qt bytes (again a ++ utf8 b)).1 = (readParts qt bytes (utf8 b)).1) :
    OnlySeparators a := by
  intro x hx
  by_contra hnot
  obtain ⟨y, hy⟩ := (again_comma a).resolve_left (List.ne_nil_of_mem hx)
  have hne : (again a).dropWhile isSeparator ≠ [] := fun hnil => hnot (List.dropWhile_eq_nil_iff.mp hnil x hx)
  have hskip : ∀ s, skip bytes separators (again a ++ s) = (again a).dropWhile isSeparator ++ s := by
    intro s
    show (again a ++ s).dropWhile isSeparator = _
    rw [List.dropWhile_append, if_neg (by simpa using hne)]
  have hcomma : ∃ z, (again a).dropWhile isSeparator = z ++ [0x2C] := by
    have hsuffix : (again a).dropWhile isSeparator <:+ y ++ [0x2C] := hy ▸ List.dropWhile_suffix _
    rcases List.suffix_concat_iff.mp hsuffix with hnil | ⟨z, hz, -⟩
    · exact absurd hnil hne
    · exact ⟨z, hz⟩
  obtain ⟨z, hz⟩ := hcomma
  have hempty := h []
  have hletter := h ['x']
  have hpeek : ∀ s, peek bytes (z ++ [0x2C] ++ s) = peek bytes (z ++ [0x2C]) := by
    intro s
    cases z with
    | nil => rfl
    | cons x z => rfl
  by_cases hzero : peek bytes (z ++ [0x2C]) = 0
  · refine readParts_letter qt ?_
    rw [← hletter, readParts_eq, hskip, hz, hpeek, if_pos hzero]
  · have hiff : ∀ s, (readParts qt bytes (again a ++ s)).1 ≠ [] ↔ (readPart qt bytes (z ++ [0x2C])).isSome := by
      intro s
      rw [readParts_isSome qt (hskip s) (by rw [hz, hpeek]; exact hzero), hz, readPart_comma]
    have hnone : ¬ (readPart qt bytes (z ++ [0x2C])).isSome := fun hsome => by
      refine (hiff (utf8 [])).mpr hsome ?_
      rw [hempty]
      exact congrArg Prod.fst (readParts_nil qt bytes)
    refine hnone ((hiff (utf8 ['x'])).mp ?_)
    rw [hletter]
    exact readParts_letter qt

/-- A second text adds its parts, whatever it is, if and only if nothing but blanks and commas of the first one is scanned again. -/
theorem parse_append_iff (a : QString) : (∀ b, (parse qt (parse qt {} a false).1 b false).1.parts =
    (parse qt {} a false).1.parts ++ (parse qt {} b false).1.parts) ↔ OnlySeparators a := by
  by_cases ha : a = []
  · subst ha
    have hparts : (readParts qt bytes (utf8 [])).1 = [] := congrArg Prod.fst (readParts_nil qt bytes)
    refine iff_of_true (fun b => ?_) ?_
    · rw [parse_start, parse, parse_start, hparts]
      simp
    · intro x hx
      cases hx
  · constructor
    · intro h
      refine onlySeparators_of_append qt fun b => ?_
      have hb := h b
      rw [parse_again qt ha, parse_start, parse_start] at hb
      exact List.append_cancel_left hb
    · intro h b
      rw [parse_again qt ha, parse_start, parse_start, readParts_separators qt h]

end HttpStrings
end Snapwebsites
