import Snapwebsites.SnapUri.Stable

/-! # Replacing the path

`snap_uri::set_path()`. A path that does not start with a slash goes on from the current one, and for that the current
segments are joined with slashes and split again: a segment that is ".", ".." or empty or has a slash in it, as
`set_uri()` leaves them where they are percent encoded, is not what it was (`setPath_eq_expected`). -/

namespace Snapwebsites
open QString

namespace SnapUri

/-- The loop over the segments; those in front of it are in reverse order. -/
def canonicalize : List QString → List QString → Option (List QString)
  | front, [] => some front.reverse
  | front, s :: rest =>
    if s = ".".toList then canonicalize front rest
    else if s = "..".toList then
      match front with
      | [] => none
      | _ :: front => canonicalize front rest
    else canonicalize (s :: front) rest

/-- `set_path()` on the current path; nothing when it throws, which leaves that path. -/
def setPath (uriPath : QString) (path : List QString) : Option (List QString) :=
  let uriPath := if uriPath.head? ≠ some '/' ∧ path ≠ [] then join '/' path ++ '/' :: uriPath else uriPath
  canonicalize [] (splitParts '/' uriPath)

/-! ### Resolving -/

/-- A segment on a stack whose top is at the end: "." changes nothing and ".." pops. -/
def resolveStep (stack : List QString) (s : QString) : Option (List QString) :=
  if s = ".".toList then some stack
  else if s = "..".toList then if stack = [] then none else some stack.dropLast
  else some (stack ++ [s])

def resolve (stack segments : List QString) : Option (List QString) := segments.foldlM resolveStep stack

/-- The path that `set_path()` is for. -/
def expected (uriPath : QString) (path : List QString) : Option (List QString) :=
  resolve (if uriPath.head? = some '/' then [] else path) (splitParts '/' uriPath)

/-- What becomes of the current segments when they are joined, split and resolved. -/
def again (path : List QString) : Option (List QString) := resolve [] (path.flatMap (splitParts '/'))

/-- How many segments of a stack are popped by segments, and what they leave on it. -/
def effect : Nat × List QString → List QString → Nat × List QString
  | e, [] => e
  | (k, own), s :: rest =>
    if s = ".".toList then effect (k, own) rest
    else if s = "..".toList then if own = [] then effect (k + 1, []) rest else effect (k, own.dropLast) rest
    else effect (k, own ++ [s]) rest

def popped (segments : List QString) : Nat := (effect (0, []) segments).1

/-- The segments that are left when `k` are popped. -/
def kept (k : Nat) (stack : List QString) : Option (List QString) :=
  if k ≤ stack.length then some (stack.take (stack.length - k)) else none

/-- The segments that a relative path keeps of the current ones are those it keeps of what becomes of them. -/
def Agrees (uriPath : QString) (path : List QString) : Prop :=
  uriPath.head? = some '/' ∨ (again path).bind (kept (popped (splitParts '/' uriPath))) =
    kept (popped (splitParts '/' uriPath)) path

variable {s : QString} {rest stack path segments own : List QString} {k : Nat}

theorem resolve_append (stack l m : List QString) : resolve stack (l ++ m) = (resolve stack l).bind fun t => resolve t m :=
  List.foldlM_append

theorem canonicalize_eq (rest : List QString) : ∀ front, canonicalize front rest = resolve front.reverse rest := by
  induction rest with
  | nil =>
    intro front
    rfl
  | cons s rest ih =>
    intro front
    rw [resolve, List.foldlM_cons, canonicalize.eq_def, resolveStep]
    simp only
    split
    · exact ih front
    · split
      · cases front with
        | nil => rfl
        | cons x front =>
          have hne : (x :: front).reverse ≠ [] := by simp
          rw [if_neg hne, List.reverse_cons, List.dropLast_concat]
          exact ih front
      · rw [← List.reverse_cons]
        exact ih (s :: front)

/-- `set_path()` resolves what a relative path makes of the current segments. -/
theorem setPath_eq (uriPath : QString) (path : List QString) : setPath uriPath path =
    if uriPath.head? = some '/' then resolve [] (splitParts '/' uriPath)
    else (again path).bind fun stack => resolve stack (splitParts '/' uriPath) := by
  unfold setPath
  rw [canonicalize_eq, List.reverse_nil]
  by_cases hhead : uriPath.head? = some '/'
  · rw [if_neg (fun h => h.1 hhead), if_pos hhead]
  · rw [if_neg hhead]
    by_cases hpath : path = []
    · rw [if_neg (fun h => h.2 hpath), hpath]
      rfl
    · rw [if_pos ⟨hhead, hpath⟩, splitParts_append, splitParts_join_flatMap, resolve_append]
      rfl

/-! ### What is kept of a stack -/

theorem kept_zero (stack : List QString) : kept 0 stack = some stack := by
  rw [kept, if_pos (Nat.zero_le _), Nat.sub_zero, List.take_length]

theorem kept_succ (k : Nat) (stack : List QString) :
    (kept k stack).bind (fun t => if t = [] then none else some t.dropLast) = kept (k + 1) stack := by
  unfold kept
  by_cases hk : k + 1 ≤ stack.length
  · have hne : stack.take (stack.length - k) ≠ [] := by
      rw [ne_eq, ← List.length_eq_zero_iff, List.length_take]
      omega
    rw [if_pos (by omega), if_pos hk, Option.bind_some, if_neg hne, List.dropLast_eq_take, List.take_take, List.length_take]
    congr 2
    omega
  · rw [if_neg hk]
    split
    · rename_i hle
      have hnil : stack.take (stack.length - k) = [] := by
        rw [← List.length_eq_zero_iff, List.length_take]
        omega
      rw [Option.bind_some, if_pos hnil]
    · rfl

theorem effect_eq (k : Nat) (own rest stack : List QString) :
    (kept k stack).bind (fun t => resolve (t ++ own) rest) =
      (kept (effect (k, own) rest).1 stack).map (· ++ (effect (k, own) rest).2) := by
  induction rest generalizing k own with
  | nil =>
    have hnil : ∀ t, resolve (t ++ own) [] = some (t ++ own) := fun t => rfl
    simp only [hnil, effect]
    cases kept k stack <;> rfl
  | cons s rest ih =>
    have hstep : ∀ t, resolve (t ++ own) (s :: rest) = (resolveStep (t ++ own) s).bind fun t => resolve t rest := fun t => rfl
    simp only [hstep, effect, resolveStep]
    split
    · exact ih k own
    · split
      · by_cases hown : own = []
        · subst hown
          have hnext := ih (k + 1) []
          simp only [List.append_nil, if_true] at hnext ⊢
          rw [← hnext, ← kept_succ, Option.bind_assoc]
        · have hne : ∀ t : List QString, t ++ own ≠ [] := fun t h => hown (List.append_eq_nil_iff.mp h).2
          simp only [if_neg (hne _), Option.bind_some, List.dropLast_append_of_ne_nil hown]
          rw [if_neg hown]
          exact ih k own.dropLast
      · simp only [Option.bind_some, List.append_assoc]
        exact ih k (own ++ [s])

/-- Segments pop a number of segments of the stack and put their own ones in their place. -/
theorem resolve_eq (stack segments : List QString) :
    resolve stack segments = (kept (popped segments) stack).map (· ++ (effect (0, []) segments).2) := by
  have h := effect_eq 0 [] segments stack
  rw [kept_zero, Option.bind_some, List.append_nil] at h
  exact h

/-- `set_path()` resolves the path where what it keeps of the current segments is the same, and only there. -/
theorem setPath_eq_expected (uriPath : QString) (path : List QString) :
    setPath uriPath path = expected uriPath path ↔ Agrees uriPath path := by
  rw [setPath_eq, expected, Agrees]
  by_cases hhead : uriPath.head? = some '/'
  · simp [hhead]
  · have hinj : Function.Injective fun t : List QString => t ++ (effect (0, []) (splitParts '/' uriPath)).2 :=
      fun t u h => List.append_cancel_right h
    have hmap : ((again path).bind fun stack => resolve stack (splitParts '/' uriPath)) =
        ((again path).bind (kept (popped (splitParts '/' uriPath)))).map (· ++ (effect (0, []) (splitParts '/' uriPath)).2) := by
      cases again path with
      | none => rfl
      | some stack => exact resolve_eq stack _
    rw [if_neg hhead, if_neg hhead, hmap, resolve_eq path, (Option.map_injective hinj).eq_iff]
    simp [hhead]

/-! ### Plain segments -/

/-- A segment that is not changed by being split and resolved. -/
structure Plain (s : QString) : Prop where
  ne_nil : s ≠ []
  slash : '/' ∉ s
  dot : s ≠ ".".toList
  dots : s ≠ "..".toList

theorem resolve_plain (h : ∀ s ∈ segments, Plain s) : resolve stack segments = some (stack ++ segments) := by
  induction segments generalizing stack with
  | nil =>
    rw [List.append_nil]
    rfl
  | cons s segments ih =>
    have hs := h s List.mem_cons_self
    rw [resolve, List.foldlM_cons, resolveStep, if_neg hs.dot, if_neg hs.dots]
    have hrest := @ih (stack ++ [s]) fun t ht => h t (List.mem_cons_of_mem _ ht)
    rw [List.append_assoc] at hrest
    exact hrest

theorem splitParts_plain (h : Plain s) : splitParts '/' s = [s] := by
  have hne : ∀ t ∈ [s], t ≠ [] := by simpa using h.ne_nil
  have hslash : ∀ t ∈ [s], '/' ∉ t := by simpa using h.slash
  have hjoin := splitParts_join hne hslash
  rwa [join, List.intercalate_singleton] at hjoin

/-- On plain segments, the path that `set_path()` is for is what it sets. -/
theorem setPath_of_plain (h : ∀ s ∈ path, Plain s) (uriPath : QString) : setPath uriPath path = expected uriPath path := by
  have hflat : path.flatMap (splitParts '/') = path := by
    rw [List.flatMap_congr fun s hs => splitParts_plain (h s hs), List.flatMap_singleton' path]
  have hagain : again path = some path := by rw [again, hflat, resolve_plain h, List.nil_append]
  rw [setPath_eq, hagain, expected]
  split <;> rfl

theorem resolve_keeps_plain (hstack : ∀ s ∈ stack, Plain s) (hsegments : ∀ s ∈ segments, s ≠ [] ∧ '/' ∉ s)
    (h : resolve stack segments = some path) : ∀ s ∈ path, Plain s := by
  induction segments generalizing stack with
  | nil =>
    cases h
    exact hstack
  | cons s segments ih =>
    have hrest := fun t ht => hsegments t (List.mem_cons_of_mem _ ht)
    rw [resolve, List.foldlM_cons, resolveStep] at h
    split at h
    · exact ih hstack hrest h
    · rename_i hdot
      split at h
      · split at h
        · cases h
        · exact ih (fun t ht => hstack t ((List.dropLast_sublist _).subset ht)) hrest h
      · rename_i hdots
        obtain ⟨hne, hslash⟩ := hsegments s List.mem_cons_self
        refine ih (fun t ht => ?_) hrest h
        rcases List.mem_append.mp ht with ht | ht
        · exact hstack t ht
        · rw [List.mem_singleton.mp ht]
          exact ⟨hne, hslash, hdot, hdots⟩

/-- A path that `set_path()` leaves is plain. -/
theorem setPath_plain (uriPath : QString) (h : setPath uriPath path = some segments) : ∀ s ∈ segments, Plain s := by
  unfold setPath at h
  rw [canonicalize_eq] at h
  refine resolve_keeps_plain (by simp) (fun s hs => ?_) h
  obtain ⟨hs, hne⟩ := List.mem_filter.mp hs
  refine ⟨of_decide_eq_true hne, fun hslash => ?_⟩
  exact notMem_of_mem_splitOn hs hslash

/-- Calls one after the other; one that throws leaves the path. -/
def setPaths (set : QString → List QString → Option (List QString)) (path : List QString) (uriPaths : List QString) : List QString :=
  uriPaths.foldl (fun path uriPath => (set uriPath path).getD path) path

/-- On a new object, any number of calls set the path that they are for, and leave it plain. -/
theorem setPaths_eq_expected (uriPaths : List QString) : setPaths setPath [] uriPaths = setPaths expected [] uriPaths ∧
    ∀ s ∈ setPaths setPath [] uriPaths, Plain s := by
  have hcalls : ∀ path, (∀ s ∈ path, Plain s) → setPaths setPath path uriPaths = setPaths expected path uriPaths ∧
      ∀ s ∈ setPaths setPath path uriPaths, Plain s := by
    induction uriPaths with
    | nil => exact fun path h => ⟨rfl, h⟩
    | cons uriPath uriPaths ih =>
      intro path h
      have hplain : ∀ s ∈ (setPath uriPath path).getD path, Plain s := by
        cases hset : setPath uriPath path with
        | none => exact h
        | some segments => exact setPath_plain uriPath hset
      have hfirst : setPaths setPath path (uriPath :: uriPaths) = setPaths setPath ((setPath uriPath path).getD path) uriPaths := rfl
      rw [hfirst, setPath_of_plain h]
      rw [setPath_of_plain h] at hplain
      exact ih _ hplain
  exact hcalls [] nofun

/-- The segment "a/b" of a URI becomes two. -/
theorem not_setPath : ¬ ∀ tld getservbyname uri u uriPath, setUri tld getservbyname uri = .ok u →
    setPath uriPath u.path = expected uriPath u.path := by
  intro h
  have hset := h dotCom (fun _ => none) "http://example.com/a%2Fb".toList
    { domain := "example".toList, topLevelDomain := ".com".toList, subDomains := [[]], path := ["a/b".toList] } "c".toList
    (by decide)
  revert hset
  decide

end SnapUri
end Snapwebsites
