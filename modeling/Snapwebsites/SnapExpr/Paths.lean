import Snapwebsites.SnapExpr.Variable

/-! # Paths in list expressions

The functions `child()` and `parent()`. A child that is put under a path comes back from `child()` with the path in
front, and the path from `parent()`, unless the path is the root: then `child()` returns neither of the two names
(`inverse_iff`). -/

namespace Snapwebsites
open QString

namespace SnapExpr

section Functions
variable (L : ValueLibrary) (result : Variable)

/-- `expr_node::call_child()`. -/
def callChild : List Variable → Except Failure Variable
  | [p, c] => do
    let path ← p.getString L "child(1)"
    let child ← c.getString L "child(2)"
    let path := path.rdropWhile (· = '/')
    let child := child.dropWhile (· = '/')
    let path := if !child.isEmpty && !path.isEmpty then path ++ '/' :: child else path
    pure (result.setValue .string (L.setStringValue path))
  | _ => throw (.invalidNumberOfParameters "invalid number of parameters to call child() expected exactly 2")

/-- What is in front of the last slash, and nothing without one. -/
def parentPath (path : QString) : QString := (path.rdropWhile (· ≠ '/')).dropLast

/-- `expr_node::call_parent()`. -/
def callParent : List Variable → Except Failure Variable
  | [p] => do
    let path ← p.getString L "parent(1)"
    let path := if path.getLast? = some '/' then path.dropLast else path
    pure (result.setValue .string (L.setStringValue (parentPath path)))
  | _ => throw (.invalidNumberOfParameters "invalid number of parameters to call parent() expected exactly 1")

end Functions

/-- A variable that holds a text. -/
def textVariable (L : ValueLibrary) (s : QString) : Variable := { type := .string, value := L.setStringValue s }

/-- A path without its trailing slashes. -/
def withoutSlashes (p : QString) : QString := p.rdropWhile (· = '/')

/-- The path of a child: the name alone under the root. -/
def childPath (p c : QString) : QString := if withoutSlashes p = [] then c else withoutSlashes p ++ '/' :: c

/-- `child()` gives the path of the child, and `parent()` leads back from there. -/
structure Inverse (L : ValueLibrary) (result : Variable) (p c : QString) : Prop where
  child : callChild L result [textVariable L p, textVariable L c] =
    .ok (result.setValue .string (L.setStringValue (childPath p c)))
  parent : ∃ v, callChild L result [textVariable L p, textVariable L c] = .ok v ∧
    callParent L result [v] = .ok (result.setValue .string (L.setStringValue (withoutSlashes p)))

variable {L : ValueLibrary} {result : Variable} {p c s t : QString}

theorem stringValue_set (s : QString) : L.stringValue (L.setStringValue s) = fromUtf8 s := by
  rw [L.stringValue_eq, L.setStringValue_eq, decodeUtf8_utf8]

theorem setStringValue_inj (h : L.setStringValue s = L.setStringValue t) : s = t := by
  rw [L.setStringValue_eq, L.setStringValue_eq] at h
  exact utf8_inj h

theorem getString_set (v : Variable) (s : QString) (name : String) :
    (v.setValue .string (L.setStringValue s)).getString L name = .ok (fromUtf8 s) :=
  congrArg Except.ok (stringValue_set s)

/-- A text loses a character where it starts with a byte order mark, and none elsewhere. -/
theorem fromUtf8_length (s : QString) :
    (fromUtf8 s).length ≤ s.length ∧ (s.head? = some bom → (fromUtf8 s).length + 1 = s.length) := by
  refine ⟨(fromUtf8_sublist s).length_le, fun h => ?_⟩
  obtain ⟨rest, rfl⟩ := List.head?_eq_some_iff.mp h
  rw [fromUtf8_bom, List.length_cons]

/-! ### The texts of the functions -/

/-- The text that `child()` returns. -/
def joined (p c : QString) : QString :=
  if !(c.dropWhile (· = '/')).isEmpty && !(withoutSlashes p).isEmpty then withoutSlashes p ++ '/' :: c.dropWhile (· = '/')
  else withoutSlashes p

theorem callChild_text : callChild L result [textVariable L p, textVariable L c] =
    .ok (result.setValue .string (L.setStringValue (joined (fromUtf8 p) (fromUtf8 c)))) := by
  have hp : (textVariable L p).getString L "child(1)" = .ok (fromUtf8 p) := getString_set {} p _
  have hc : (textVariable L c).getString L "child(2)" = .ok (fromUtf8 c) := getString_set {} c _
  simp only [callChild, hp, hc]
  rfl

theorem withoutSlashes_eq_nil : withoutSlashes p = [] ↔ ∀ x ∈ p, x = '/' := by
  simp [withoutSlashes]

theorem withoutSlashes_cons {x : Char} (hx : x ≠ '/') : withoutSlashes (x :: s) = x :: withoutSlashes s := by
  rw [withoutSlashes, withoutSlashes, List.rdropWhile, List.rdropWhile, List.reverse_cons, List.dropWhile_append]
  split
  · rename_i hall
    rw [List.dropWhile_cons_of_neg (by simpa using hx), List.isEmpty_iff.mp hall]
    rfl
  · rw [List.reverse_append]
    rfl

theorem dropWhile_slash (hslash : '/' ∉ c) : c.dropWhile (· = '/') = c := by
  cases c with
  | nil => rfl
  | cons x c => exact List.dropWhile_cons_of_neg (by simpa using fun h : x = '/' => hslash (h ▸ List.mem_cons_self))

theorem joined_of_ne_nil (hc : c ≠ []) (hslash : '/' ∉ c) (hp : withoutSlashes p ≠ []) :
    joined p c = withoutSlashes p ++ '/' :: c := by
  simp [joined, dropWhile_slash hslash, hc, hp]

theorem parentPath_append (hslash : '/' ∉ c) : parentPath (p ++ '/' :: c) = p := by
  have hreverse : (p ++ '/' :: c).reverse = c.reverse ++ '/' :: p.reverse := by simp
  rw [parentPath, List.rdropWhile, hreverse, dropWhile_ne_append (by simpa using hslash), dropWhile_ne_cons, List.reverse_cons,
    List.reverse_reverse, List.dropLast_concat]

/-! ### The root and the byte order mark -/

/-- A mark that is lost shortens the path, and the child. -/
theorem joined_fromUtf8_length (hp : withoutSlashes p ≠ []) :
    (joined (fromUtf8 p) (fromUtf8 c)).length ≤ (withoutSlashes p).length + 1 + c.length ∧
      (p.head? = some bom ∨ c.head? = some bom →
        (joined (fromUtf8 p) (fromUtf8 c)).length < (withoutSlashes p).length + 1 + c.length) := by
  have hjoined : (joined (fromUtf8 p) (fromUtf8 c)).length ≤ (withoutSlashes (fromUtf8 p)).length + 1 + (fromUtf8 c).length := by
    have hdrop : ((fromUtf8 c).dropWhile (· = '/')).length ≤ (fromUtf8 c).length := (List.dropWhile_sublist _).length_le
    unfold joined
    split
    · rw [List.length_append, List.length_cons]
      omega
    · omega
  have hpath : (withoutSlashes (fromUtf8 p)).length ≤ (withoutSlashes p).length ∧
      (p.head? = some bom → (withoutSlashes (fromUtf8 p)).length < (withoutSlashes p).length) := by
    by_cases hbom : p.head? = some bom
    · obtain ⟨rest, rfl⟩ := List.head?_eq_some_iff.mp hbom
      rw [withoutSlashes_cons (by decide), fromUtf8_bom, List.length_cons]
      omega
    · rw [fromUtf8_eq_self hbom]
      exact ⟨le_refl _, fun h => absurd h hbom⟩
  have hc := fromUtf8_length c
  refine ⟨by omega, ?_⟩
  rintro (h | h)
  · have := hpath.2 h
    omega
  · have := hc.2 h
    omega

theorem Inverse.regular (hc : c ≠ []) (h : Inverse L result p c) :
    p.head? ≠ some bom ∧ c.head? ≠ some bom ∧ ∃ x ∈ p, x ≠ '/' := by
  have htext : joined (fromUtf8 p) (fromUtf8 c) = childPath p c :=
    setStringValue_inj (congrArg Variable.value (Except.ok.inj (callChild_text.symm.trans h.child)))
  have hp : withoutSlashes p ≠ [] := by
    intro hroot
    -- a path of slashes has no mark to lose
    have hall := withoutSlashes_eq_nil.mp hroot
    have hbom : p.head? ≠ some bom := fun hb => absurd (hall bom (List.mem_of_mem_head? hb)) (by decide)
    rw [fromUtf8_eq_self hbom, childPath, if_pos hroot, joined, hroot] at htext
    exact hc (by simpa using htext.symm)
  obtain ⟨-, hshort⟩ := joined_fromUtf8_length (c := c) hp
  have hlength := congrArg List.length htext
  rw [childPath, if_neg hp, List.length_append, List.length_cons] at hlength
  refine ⟨fun hb => ?_, fun hb => ?_, ?_⟩
  · have := hshort (.inl hb)
    omega
  · have := hshort (.inr hb)
    omega
  · by_contra! hall
    exact hp (withoutSlashes_eq_nil.mpr hall)

theorem inverse_of_regular (hc : c ≠ []) (hslash : '/' ∉ c) (hpb : p.head? ≠ some bom) (hcb : c.head? ≠ some bom)
    (hp : ∃ x ∈ p, x ≠ '/') : Inverse L result p c := by
  have hroot : withoutSlashes p ≠ [] := fun h => by
    obtain ⟨x, hx, hne⟩ := hp
    exact hne (withoutSlashes_eq_nil.mp h x hx)
  have hchild : callChild L result [textVariable L p, textVariable L c] =
      .ok (result.setValue .string (L.setStringValue (joined (fromUtf8 p) (fromUtf8 c)))) := callChild_text
  rw [fromUtf8_eq_self hpb, fromUtf8_eq_self hcb, joined_of_ne_nil hc hslash hroot] at hchild
  refine ⟨?_, _, hchild, ?_⟩
  · rw [hchild, childPath, if_neg hroot]
  · have hhead : (withoutSlashes p ++ '/' :: c).head? ≠ some bom := by
      obtain ⟨rest, hrest⟩ : withoutSlashes p <+: p := List.rdropWhile_prefix _ _
      rw [← hrest, List.head?_append_of_ne_nil _ hroot] at hpb
      rwa [List.head?_append_of_ne_nil _ hroot]
    have hlast : (withoutSlashes p ++ '/' :: c).getLast? ≠ some '/' := by
      rw [List.getLast?_append_of_ne_nil _ (List.cons_ne_nil _ _), List.getLast?_cons_of_ne_nil hc]
      exact fun h => hslash (List.mem_of_getLast? h)
    simp only [callParent, getString_set, fromUtf8_eq_self hhead]
    change Except.ok _ = Except.ok _
    rw [if_neg hlast, parentPath_append hslash]

/-- `child()` and `parent()` are inverse exactly below a path that is not the root, and where no byte order mark is lost. -/
theorem inverse_iff (L : ValueLibrary) (result : Variable) {p c : QString} (hc : c ≠ []) (hslash : '/' ∉ c) :
    Inverse L result p c ↔ p.head? ≠ some bom ∧ c.head? ≠ some bom ∧ ∃ x ∈ p, x ≠ '/' :=
  ⟨Inverse.regular hc, fun ⟨hpb, hcb, hp⟩ => inverse_of_regular hc hslash hpb hcb hp⟩

theorem inverse_iff_path : Inverse .network {} "/a/".toList "b".toList ↔
    "/a/".toList.head? ≠ some bom ∧ "b".toList.head? ≠ some bom ∧ ∃ x ∈ "/a/".toList, x ≠ '/' :=
  inverse_iff .network {} (by decide) (by decide)

/-- The child of the root has no path. -/
theorem not_inverse_root : ¬ Inverse .network {} "/".toList "c".toList := fun h =>
  absurd (h.regular (by decide)).2.2 (by simp)

end SnapExpr
end Snapwebsites
