import Snapwebsites.HttpStrings.Weight

/-! # Printed parts

`arg()` puts a text where the lowest place marker stands, which is a marker of the text printed so far where that has one as low.
Without such markers the parts are printed one behind the other, with all but their value. -/

namespace Snapwebsites
namespace HttpStrings
open QString

variable {L : Type} {qt : Qt L} {s t a : QString} {c : Char} {n : Nat} {part : Part L}

/-! ### Place markers -/

/-- The markers of a text are all greater. -/
def Above (qt : Qt L) (n : Nat) : QString → Prop
  | [] => True
  | c :: s => (∀ m length, marker qt (c :: s) = some (m, length) → n < m) ∧ Above qt n s

/-- A character that is in no marker. -/
structure Breaks (qt : Qt L) (c : Char) : Prop where
  percent : c ≠ '%'
  localized : c ≠ 'L'
  digit : qt.digitValue c = none

theorem breaks_ascii (hc : c.toNat < 0x80) (hdigit : c.isDigit = false) (hpercent : c ≠ '%') (hlocalized : c ≠ 'L') :
    Breaks qt c := ⟨hpercent, hlocalized, qt.digitValue_ascii c hc hdigit⟩

theorem markerNumber_append (hc : Breaks qt c) (start : Nat) (s t : QString) :
    markerNumber qt start (s ++ c :: t) = markerNumber qt start s := by
  cases s with
  | nil => simp [markerNumber, hc.digit]
  | cons d s =>
    cases s with
    | nil => simp [markerNumber, hc.digit]
    | cons e s => rfl

theorem marker_append (hc : Breaks qt c) (d : Char) (s t : QString) :
    marker qt (d :: s ++ c :: t) = marker qt (d :: s) := by
  rw [List.cons_append, marker, marker]
  cases s with
  | nil =>
    have hhead : ¬ some c = some 'L' := fun h => hc.localized (Option.some.inj h)
    simp [hhead, markerNumber, hc.digit]
  | cons e s =>
    rw [← markerNumber_append hc 1 (e :: s) t, List.cons_append, List.tail_cons, List.tail_cons, markerNumber_append hc 2 s t]
    rfl

theorem marker_break (hc : Breaks qt c) (t : QString) : marker qt (c :: t) = none := by
  rw [marker, if_neg hc.percent]

theorem Above.append (hc : Breaks qt c) (hs : Above qt n s) (ht : Above qt n t) : Above qt n (s ++ c :: t) := by
  induction s with
  | nil =>
    refine ⟨fun m length h => ?_, ht⟩
    rw [marker_break hc] at h
    cases h
  | cons d s ih =>
    refine ⟨fun m length h => hs.1 m length ?_, ih hs.2⟩
    rwa [← marker_append hc d s t]

theorem lowestMarker_append (hc : Breaks qt c) (hs : Above qt n s) (ht : lowestMarker qt (c :: t) = some n) :
    lowestMarker qt (s ++ c :: t) = some n := by
  induction s with
  | nil => exact ht
  | cons d s ih =>
    have hmarker := marker_append hc d s t
    rw [List.cons_append] at hmarker ⊢
    rw [lowestMarker, hmarker, ih hs.2]
    cases h : marker qt (d :: s) with
    | none => rfl
    | some r => exact congrArg some (min_eq_right (hs.1 r.1 r.2 h).le)

theorem replaceMarker_append (hc : Breaks qt c) (hs : Above qt n s) (a t : QString) :
    replaceMarker qt n a 0 (s ++ c :: t) = s ++ replaceMarker qt n a 0 (c :: t) := by
  induction s with
  | nil => rfl
  | cons d s ih =>
    have hmarker := marker_append hc d s t
    rw [List.cons_append] at hmarker ⊢
    rw [replaceMarker, hmarker]
    cases h : marker qt (d :: s) with
    | none => rw [ih hs.2, List.cons_append]
    | some r =>
      simp only
      rw [if_neg (hs.1 r.1 r.2 h).ne', ih hs.2, List.cons_append]

/-- The lowest marker stands behind a text whose markers are all greater. -/
theorem arg_append (hc : Breaks qt c) (hs : Above qt n s) (ht : lowestMarker qt (c :: t) = some n) (a : QString) :
    arg qt (s ++ c :: t) a = s ++ replaceMarker qt n a 0 (c :: t) := by
  rw [arg, lowestMarker_append hc hs ht]
  exact replaceMarker_append hc hs a t

theorem breaks_equal : Breaks qt '=' := breaks_ascii (by decide) (by decide) (by decide) (by decide)

theorem breaks_semicolon : Breaks qt ';' := breaks_ascii (by decide) (by decide) (by decide) (by decide)

theorem breaks_space : Breaks qt ' ' := breaks_ascii (by decide) (by decide) (by decide) (by decide)

theorem digitValue_one : qt.digitValue '1' = some 1 := qt.digitValue_digit 1 (by decide)

theorem digitValue_two : qt.digitValue '2' = some 2 := qt.digitValue_digit 2 (by decide)

theorem arg_equal (hs : Above qt 2 s) (a : QString) : arg qt (arg qt "%1=%2".toList s) a = s ++ '=' :: a := by
  have hfirst : arg qt "%1=%2".toList s = s ++ "=%2".toList := by
    simp [arg, lowestMarker, marker, markerNumber, replaceMarker, digitValue_one, digitValue_two, breaks_equal.digit]
  have hlowest : lowestMarker qt "=%2".toList = some 2 := by
    simp [lowestMarker, marker, markerNumber, digitValue_two]
  have hreplace : replaceMarker qt 2 a 0 "=%2".toList = '=' :: a := by
    simp [replaceMarker, marker, markerNumber, digitValue_two]
  rw [hfirst, ← hreplace]
  exact arg_append breaks_equal hs hlowest a

theorem arg_semicolon (hs : Above qt 2 s) (a : QString) : arg qt (arg qt "%1; %2".toList s) a = s ++ "; ".toList ++ a := by
  have hfirst : arg qt "%1; %2".toList s = s ++ "; %2".toList := by
    simp [arg, lowestMarker, marker, markerNumber, replaceMarker, digitValue_one, digitValue_two, breaks_semicolon.digit]
  have hlowest : lowestMarker qt "; %2".toList = some 2 := by
    simp [lowestMarker, marker, markerNumber, digitValue_two]
  have hreplace : replaceMarker qt 2 a 0 "; %2".toList = "; ".toList ++ a := by
    simp [replaceMarker, marker, markerNumber, digitValue_two]
  rw [hfirst, List.append_assoc, ← hreplace]
  exact arg_append breaks_semicolon hs hlowest a

/-! ### Parts without place markers -/

def parameterText (e : QString × QString) : QString := e.1 ++ if e.2 = [] then [] else '=' :: e.2

def parametersText (entries : List (QString × QString)) : QString := entries.flatMap fun e => "; ".toList ++ parameterText e

theorem parametersText_cons (e : QString × QString) (es : List (QString × QString)) :
    parametersText (e :: es) = "; ".toList ++ parameterText e ++ parametersText es := rfl

def partText (part : Part L) : QString := part.name ++ parametersText part.param.entries

/-- Nothing in front of what `arg()` is to replace has a marker as low. -/
structure Unmarked (qt : Qt L) (part : Part L) : Prop where
  name : part.param.entries ≠ [] → Above qt 2 part.name
  keys : ∀ e ∈ part.param.entries, e.2 ≠ [] → Above qt 2 e.1
  inner : ∀ e ∈ part.param.entries.dropLast, Above qt 2 e.1 ∧ Above qt 2 e.2

theorem unmarked_of_no_parameters (h : part.param.entries = []) : Unmarked qt part := by
  refine ⟨fun hne => absurd h hne, fun e he => ?_, fun e he => ?_⟩
  · rw [h] at he
    cases he
  · rw [h] at he
    cases he

theorem parameterToString_eq {e : QString × QString} (h : e.2 ≠ [] → Above qt 2 e.1) :
    parameterToString qt e = parameterText e := by
  rw [parameterToString, parameterText]
  by_cases he : e.2 = []
  · rw [if_neg (not_not.mpr he), if_pos he, List.append_nil]
  · rw [if_pos he, if_neg he, arg_equal (h he)]

theorem above_parameterText {e : QString × QString} (hkey : Above qt 2 e.1) (hvalue : Above qt 2 e.2) :
    Above qt 2 (parameterText e) := by
  rw [parameterText]
  split
  · rwa [List.append_nil]
  · exact hkey.append breaks_equal hvalue

theorem parametersToString_eq {entries : List (QString × QString)} {result : QString}
    (hresult : entries ≠ [] → Above qt 2 result) (hkeys : ∀ e ∈ entries, e.2 ≠ [] → Above qt 2 e.1)
    (hinner : ∀ e ∈ entries.dropLast, Above qt 2 e.1 ∧ Above qt 2 e.2) :
    entries.foldl (fun result e => arg qt (arg qt "%1; %2".toList result) (parameterToString qt e)) result =
      result ++ parametersText entries := by
  induction entries generalizing result with
  | nil => exact (List.append_nil _).symm
  | cons e es ih =>
    obtain ⟨hkey, hkeys⟩ := List.forall_mem_cons.mp hkeys
    have habove := hresult (List.cons_ne_nil _ _)
    have hnext : es ≠ [] → Above qt 2 (result ++ "; ".toList ++ parameterText e) := by
      intro hes
      rw [List.dropLast_cons_of_ne_nil hes] at hinner
      obtain ⟨hkey, hvalue⟩ := hinner e List.mem_cons_self
      rw [List.append_assoc]
      exact habove.append breaks_semicolon
        (Above.append (s := []) breaks_space trivial (above_parameterText hkey hvalue))
    have hrest : ∀ e ∈ es.dropLast, Above qt 2 e.1 ∧ Above qt 2 e.2 := by
      intro e' he'
      cases es with
      | nil => cases he'
      | cons d es => exact hinner e' (List.mem_cons_of_mem _ he')
    rw [List.foldl_cons, arg_semicolon habove, parameterToString_eq hkey, ih hnext hkeys hrest, parametersText_cons]
    simp only [List.append_assoc]

theorem partToString_eq (h : Unmarked qt part) : partToString qt part = partText part :=
  parametersToString_eq h.name h.keys h.inner

/-- The parts with a comma in front of each. -/
def partsText (parts : List (Part L)) : QString := parts.flatMap fun part => ", ".toList ++ partText part

theorem partsText_cons (part : Part L) (parts : List (Part L)) :
    partsText (part :: parts) = ", ".toList ++ partText part ++ partsText parts := rfl

theorem partsToString_eq {parts : List (Part L)} {result : QString} (hresult : result ≠ []) (h : ∀ part ∈ parts, Unmarked qt part) :
    parts.foldl (fun result part => (if result ≠ [] then result ++ ", ".toList else result) ++ partToString qt part) result =
      result ++ partsText parts := by
  induction parts generalizing result with
  | nil => exact (List.append_nil _).symm
  | cons part parts ih =>
    obtain ⟨hpart, h⟩ := List.forall_mem_cons.mp h
    have hne : result ++ ", ".toList ++ partText part ≠ [] := by simp
    rw [List.foldl_cons, if_pos hresult, partToString_eq hpart, ih hne h, partsText_cons]
    simp only [List.append_assoc]

/-- What is printed of parts without place markers, behind their first comma. -/
theorem toString_eq {parts : List (Part L)} (hnames : ∀ part ∈ parts, part.name ≠ []) (h : ∀ part ∈ parts, Unmarked qt part) :
    toString qt parts = (partsText parts).drop 2 := by
  cases parts with
  | nil => rfl
  | cons part parts =>
    obtain ⟨hpart, h⟩ := List.forall_mem_cons.mp h
    have hne : partText part ≠ [] := fun h => hnames part List.mem_cons_self (List.append_eq_nil_iff.mp h).1
    rw [toString, List.foldl_cons, if_neg (not_not.mpr rfl), List.nil_append, partToString_eq hpart, partsToString_eq hne h]
    rfl

/-! ### What the printed text costs -/

theorem weight_parameterText (e : QString × QString) : weight (parameterText e) = entryWeight e := by
  rw [parameterText, weight_append, entryWeight, valueWeight]
  split
  · rw [‹e.2 = []›]
    rfl
  · rw [weight_cons (by decide)]

theorem weight_parametersText (entries : List (QString × QString)) :
    weight (parametersText entries) = (entries.map entryWeight).sum := by
  induction entries with
  | nil => rfl
  | cons e es ih =>
    have hfree : weight "; ".toList = 0 := by decide
    rw [parametersText_cons, weight_append, weight_append, hfree, Nat.zero_add, weight_parameterText, ih, List.map_cons,
      List.sum_cons]

/-- The value of a part is not printed. -/
theorem weight_partText (part : Part L) : weight (partText part) + valueWeight part.value = partWeight part := by
  rw [partText, weight_append, weight_parametersText, partWeight, SortedMap.sumOf]
  omega

theorem weight_partsText (parts : List (Part L)) :
    weight (partsText parts) + (parts.map fun part => valueWeight part.value).sum = partsWeight parts := by
  induction parts with
  | nil => rfl
  | cons part parts ih =>
    have hfree : weight ", ".toList = 0 := by decide
    have hpart := weight_partText part
    rw [partsWeight_cons, List.map_cons, List.sum_cons, partsText_cons, weight_append, weight_append, hfree]
    omega

end HttpStrings
end Snapwebsites
