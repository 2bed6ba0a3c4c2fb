import Snapwebsites.SnapUri.Uri

/-! # Website keys

`snap_child::canonicalize_domain()`: the sub-domains of a host are matched against the rules of the domain, and the values
of the required variables of the first rule that matches make the key of the website. `QRegExp` is not part of the
repository (`RegExp`). The values run together in the key without anything between them, so two hosts may meet in one key
(`websiteKey_iff`). -/

namespace Snapwebsites
open QString SnapUri

namespace SnapChild

/-- An expression put between parentheses, and whether it may be left out. -/
def group (p : QString × Bool) : QString := '(' :: p.1 ++ [')'] ++ if p.2 then ['?'] else []

/-- `QRegExp`: `exactMatch()`, with or without the case of the letters, and `indexIn()`; where a text matches, its
    `capturedTexts()`, the whole match first. Groups are counted from the left, each one once. -/
structure RegExp where
  exactMatch : QString → Bool → QString → Option (List QString)
  indexIn : QString → QString → Option (List QString)
  groupFree : QString → Bool
  exactMatch_length : ∀ p ci s captured, groupFree p = true → exactMatch (group (p, false)) ci s = some captured →
    captured.length = 2
  indexIn_length : ∀ (parts : List (QString × Bool)) s captured, (∀ p ∈ parts, groupFree p.1 = true) →
    indexIn ('^' :: parts.flatMap group) s = some captured → captured.length = parts.length + 1

theorem count_group (p : QString × Bool) (h : '(' ∉ p.1) : (group p).count '(' = 1 := by
  obtain ⟨p, optional⟩ := p
  cases optional <;> simp [group, List.count_eq_zero_of_not_mem h]

/-- A `QRegExp` that knows the matches of a table, whose expressions have no parentheses but those of groups. -/
def RegExp.table (entries : List ((QString × QString) × List QString))
    (h : ∀ e ∈ entries, e.2.length = e.1.1.count '(' + 1) : RegExp where
  exactMatch p _ s := (entries.find? fun e => e.1 = (p, s)).map (·.2)
  indexIn p s := (entries.find? fun e => e.1 = (p, s)).map (·.2)
  groupFree p := !p.contains '('
  exactMatch_length p ci s captured hfree hmatch := by
    obtain ⟨e, he, rfl⟩ := Option.map_eq_some_iff.mp hmatch
    have hkey : e.1 = (group (p, false), s) := by simpa using List.find?_some he
    rw [h e (List.mem_of_find?_eq_some he), hkey, count_group _ (by simpa using hfree)]
  indexIn_length parts s captured hfree hmatch := by
    obtain ⟨e, he, rfl⟩ := Option.map_eq_some_iff.mp hmatch
    have hkey : e.1 = ('^' :: parts.flatMap group, s) := by simpa using List.find?_some he
    have hcount : (parts.flatMap group).count '(' = parts.length := by
      clear hmatch he hkey
      induction parts with
      | nil => rfl
      | cons p parts ih =>
        rw [List.flatMap_cons, List.count_append, count_group p (by simpa using hfree p List.mem_cons_self),
          ih fun q hq => hfree q (List.mem_cons_of_mem _ hq), List.length_cons, Nat.add_comm]
    rw [h e (List.mem_of_find?_eq_some he), hkey, List.count_cons_of_ne (by decide), hcount]

/-- `domain_variable_type_t` and `website_variable_type_t`. -/
inductive VariableType
  | standard | website | flagWithDefault | flagNoDefault
deriving DecidableEq

/-- `domain_variable`. -/
structure DomainVariable where
  type : VariableType
  name : QString
  value : QString
  default : QString := []
  required : Bool := false
deriving DecidableEq

/-- What the functions of the child set: the options of the URI and the keys. -/
structure Child where
  uri : SnapUri
  options : SortedMap QString QString := ∅
  domainKey : QString := []
  websiteKey : QString := []
  siteKey : QString := []
  siteKeyWithSlash : QString := []

/-- The child dies with the code 404, or reads a text that was not captured. -/
inductive Failure
  | notFound
  | undefined
deriving DecidableEq

/-- `snap_uri::set_option()`. -/
def setOption (options : SortedMap QString QString) (name value : QString) : SortedMap QString QString :=
  if value.isEmpty then options.erase name else options.insert name value

/-- The last dot is removed. -/
def withoutDot (s : QString) : QString := if s.getLast? = some '.' then s.dropLast else s

/-- The value of a required variable: its default for an empty text and for a website. -/
def DomainVariable.requiredValue (var : DomainVariable) (text : QString) : QString :=
  if (withoutDot text).isEmpty || var.type = .website then var.default else withoutDot text

/-- The options that a variable sets. -/
def DomainVariable.setOptions (var : DomainVariable) (text : QString) (options : SortedMap QString QString) :
    SortedMap QString QString :=
  if var.required then setOption options var.name (var.requiredValue text)
  else if !(withoutDot text).isEmpty then
    setOption options var.name (if var.type = .website then var.default else withoutDot text)
  else if !var.default.isEmpty then setOption options var.name var.default
  else options

/-- The loop over the variables, from variable `v` on. -/
def readVariables (captured : List QString) :
    Nat → List DomainVariable → SortedMap QString QString → QString → Except Failure (SortedMap QString QString × QString)
  | _, [], options, canonicalized => pure (options, canonicalized)
  | v, var :: vars, options, canonicalized =>
    match captured[v + 1]? with
    | none => throw .undefined
    | some text =>
      readVariables captured (v + 1) vars (var.setOptions text options)
        (if var.required then canonicalized ++ urlencode (var.requiredValue text) ['.'] else canonicalized)

section
variable (R : RegExp)

/-- The expression of a rule. -/
def domainExpression (info : List DomainVariable) : QString := info.flatMap fun var => group (var.value, !var.required)

/-- The first rule that matches, with what it captures. -/
def matchDomain (rules : List (List DomainVariable)) (subDomains : QString) : Option (List DomainVariable × List QString) :=
  rules.findSome? fun info => (R.exactMatch (domainExpression info) false subDomains).map (info, ·)

/-- The sub-domains, which end with a dot unless there are none. -/
def Child.subDomains (c : Child) : QString :=
  if (join '.' c.uri.subDomains).isEmpty then [] else join '.' c.uri.subDomains ++ ['.']

/-- `canonicalize_domain()`, with the rules of the domains that exist and have some. -/
def canonicalizeDomain (domains : QString → Option (List (List DomainVariable))) (c : Child) : Except Failure Child :=
  let domainKey := c.uri.domain ++ c.uri.topLevelDomain
  match domains domainKey with
  | none => throw .notFound
  | some rules =>
    match matchDomain R rules c.subDomains with
    | none => throw .notFound
    | some (info, captured) => do
      let (options, canonicalized) ← readVariables captured 0 info c.options []
      pure { c with options, domainKey
                    websiteKey := if canonicalized.isEmpty then domainKey else canonicalized ++ ['.'] ++ domainKey }

end

/-! ### The values of a rule -/

/-- The values of the required variables, in their order. -/
def requiredValues (captured : List QString) : Nat → List DomainVariable → List QString
  | _, [] => []
  | v, var :: vars =>
    (if var.required then [var.requiredValue (captured[v + 1]?.getD [])] else []) ++ requiredValues captured (v + 1) vars

/-- The values are told apart by their key: either they do not run together to one text (what follows a NUL does not
    count), or each two of them end at the same place. -/
def KeptApart (values values' : List QString) : Prop :=
  (values.map constData).flatten = (values'.map constData).flatten →
    values.map (fun s => (constData s).length) = values'.map (fun s => (constData s).length) ∧
      (values.map constData = values'.map constData → values = values')

variable {R : RegExp} {captured : List QString} {options : SortedMap QString QString} {canonicalized s t : QString}

/-- The loop appends the encoded values of the required variables. -/
theorem readVariables_canonicalized {vars : List DomainVariable} {v : Nat} {r : SortedMap QString QString × QString}
    (h : readVariables captured v vars options canonicalized = .ok r) :
    r.2 = canonicalized ++ (requiredValues captured v vars).flatMap (urlencode · ['.']) := by
  induction vars generalizing v options canonicalized with
  | nil =>
    cases h
    simp [requiredValues]
  | cons var vars ih =>
    rw [readVariables] at h
    split at h
    · cases h
    · rename_i text htext
      rw [ih h, requiredValues, htext]
      split <;> simp

/-! ### Texts that run together -/

theorem takeWhile_utf8 : ∀ s : QString, s.utf8.takeWhile (· ≠ 0) = (constData s).utf8
  | [] => rfl
  | c :: s => by
    by_cases hc : c = nul
    · subst hc
      have hbyte : String.utf8EncodeChar nul = [0] := by decide
      simp [utf8, constData, hbyte]
    · have hzero : 0 ∉ String.utf8EncodeChar c := by
        have hnul : nul ∉ [c] := by simpa using Ne.symm hc
        simpa [utf8] using zero_notMem_utf8 hnul
      have hall : ∀ x ∈ String.utf8EncodeChar c, decide (x ≠ 0) = true :=
        fun x hx => decide_eq_true fun h => hzero (h ▸ hx)
      rw [constData, List.takeWhile_cons_of_pos (by simpa using hc), ← constData, utf8, List.flatMap_cons,
        List.takeWhile_append_of_pos hall, utf8, List.flatMap_cons]
      exact congrArg _ (takeWhile_utf8 s)

theorem flatMap_urlencode (values : List QString) :
    values.flatMap (urlencode · ['.']) = (utf8 (values.map constData).flatten).flatMap (encodeByte ['.']) := by
  induction values with
  | nil => rfl
  | cons s values ih =>
    rw [List.flatMap_cons, ih, urlencode, takeWhile_utf8, List.map_cons, List.flatten_cons, utf8, utf8, utf8, List.flatMap_append,
      List.flatMap_append]

/-- An encoded text is not that of another one. -/
theorem encode_inj (h : s.utf8.flatMap (encodeByte ['.']) = t.utf8.flatMap (encodeByte ['.'])) : s = t := by
  have hdecode : ∀ s : QString, urldecodeBytes (s.utf8.flatMap (encodeByte ['.'])) = some s.utf8 := fun s => by
    have hbytes := @urldecodeBytes_encode ['.'] (by decide) s.utf8 []
    rw [List.append_nil] at hbytes
    rw [hbytes]
    simp [urldecodeBytes]
  have hs := hdecode s
  rw [h, hdecode t] at hs
  rw [← decodeUtf8_utf8 s, ← decodeUtf8_utf8 t, Option.some.inj hs]

/-- Pieces of the same lengths that run together to one text are the same. -/
theorem eq_of_flatten_eq : ∀ {v w : List QString}, v.map List.length = w.map List.length → v.flatten = w.flatten → v = w
  | [], [], _, _ => rfl
  | [], _ :: _, h, _ => by simp at h
  | _ :: _, [], h, _ => by simp at h
  | s :: v, t :: w, hlength, hflatten => by
    rw [List.map_cons, List.map_cons, List.cons.injEq] at hlength
    rw [List.flatten_cons, List.flatten_cons] at hflatten
    obtain ⟨rfl, hrest⟩ := List.append_inj hflatten hlength.1
    rw [eq_of_flatten_eq hlength.2 hrest]

/-- The key of a website in a domain is that of its canonicalized sub-domains. -/
theorem websiteKey_inj {a b domainKey : QString}
    (h : (if a.isEmpty then domainKey else a ++ ['.'] ++ domainKey) = if b.isEmpty then domainKey else b ++ ['.'] ++ domainKey) :
    a = b := by
  cases a <;> cases b
  · rfl
  · have hlength := congrArg List.length h
    simp at hlength
    omega
  · have hlength := congrArg List.length h
    simp at hlength
    omega
  · simpa using h

variable {domains : QString → Option (List (List DomainVariable))} {rules : List (List DomainVariable)} {a b a' b' : Child}
  {info : List DomainVariable} {captured' : List QString}

/-- The key that a host gets through a rule. -/
theorem canonicalizeDomain_key (hdomain : domains (a.uri.domain ++ a.uri.topLevelDomain) = some rules)
    (hmatch : matchDomain R rules a.subDomains = some (info, captured)) (h : canonicalizeDomain R domains a = .ok a') :
    a'.websiteKey =
      let canonicalized := (requiredValues captured 0 info).flatMap (urlencode · ['.'])
      if canonicalized.isEmpty then a.uri.domain ++ a.uri.topLevelDomain
      else canonicalized ++ ['.'] ++ (a.uri.domain ++ a.uri.topLevelDomain) := by
  simp only [canonicalizeDomain, hdomain, hmatch] at h
  cases hread : readVariables captured 0 info a.options [] with
  | error e =>
    rw [hread] at h
    cases h
  | ok r =>
    rw [hread] at h
    cases h
    have hcanonicalized := readVariables_canonicalized hread
    rw [List.nil_append] at hcanonicalized
    exact hcanonicalized ▸ rfl

/-- Two hosts of a domain share a key when the values that they get through a rule run together to one text. -/
theorem websiteKey_eq_iff (hsame : a.uri.domain ++ a.uri.topLevelDomain = b.uri.domain ++ b.uri.topLevelDomain)
    (hdomain : domains (a.uri.domain ++ a.uri.topLevelDomain) = some rules)
    (ha : matchDomain R rules a.subDomains = some (info, captured)) (ha' : canonicalizeDomain R domains a = .ok a')
    (hb : matchDomain R rules b.subDomains = some (info, captured')) (hb' : canonicalizeDomain R domains b = .ok b') :
    a'.websiteKey = b'.websiteKey ↔
      ((requiredValues captured 0 info).map constData).flatten = ((requiredValues captured' 0 info).map constData).flatten := by
  rw [canonicalizeDomain_key hdomain ha ha', canonicalizeDomain_key (hsame ▸ hdomain) hb hb', ← hsame]
  constructor
  · intro h
    have hrun := websiteKey_inj h
    rw [flatMap_urlencode, flatMap_urlencode] at hrun
    exact encode_inj hrun
  · intro h
    rw [flatMap_urlencode, flatMap_urlencode, h]

/-- Two hosts of a domain that are accepted through the same rule have keys that tell their values apart exactly when the
    values do not run together to the same text at different places. -/
theorem websiteKey_iff (R : RegExp) (domains : QString → Option (List (List DomainVariable))) {a b a' b' : Child}
    {rules : List (List DomainVariable)} {info : List DomainVariable} {captured captured' : List QString}
    (hsame : a.uri.domain ++ a.uri.topLevelDomain = b.uri.domain ++ b.uri.topLevelDomain)
    (hdomain : domains (a.uri.domain ++ a.uri.topLevelDomain) = some rules)
    (ha : matchDomain R rules a.subDomains = some (info, captured)) (ha' : canonicalizeDomain R domains a = .ok a')
    (hb : matchDomain R rules b.subDomains = some (info, captured')) (hb' : canonicalizeDomain R domains b = .ok b') :
    (a'.websiteKey = b'.websiteKey → requiredValues captured 0 info = requiredValues captured' 0 info) ↔
      KeptApart (requiredValues captured 0 info) (requiredValues captured' 0 info) := by
  rw [websiteKey_eq_iff hsame hdomain ha ha' hb hb', KeptApart]
  constructor
  · intro h hrun
    rw [h hrun]
    exact ⟨rfl, fun _ => rfl⟩
  · intro h hrun
    obtain ⟨hlength, hnul⟩ := h hrun
    refine hnul (eq_of_flatten_eq ?_ hrun)
    rwa [List.map_map, List.map_map]

/-! ### Two sub-domains -/

/-- A rule of two required variables. -/
def twoLabels : List DomainVariable :=
  [⟨.standard, ['u'], "[a-z]+\\.".toList, [], true⟩, ⟨.standard, ['v'], "[a-z]+\\.".toList, [], true⟩]

/-- A host of the domain `snap.net`. -/
def host (subDomains : List QString) : Child :=
  { uri := { domain := "snap".toList, topLevelDomain := ".net".toList, subDomains } }

/-- What the rule captures of three hosts. -/
def labels : RegExp :=
  .table [(("([a-z]+\\.)([a-z]+\\.)".toList, "a.bc.".toList), ["a.bc.".toList, "a.".toList, "bc.".toList]),
    (("([a-z]+\\.)([a-z]+\\.)".toList, "ab.c.".toList), ["ab.c.".toList, "ab.".toList, "c.".toList]),
    (("([a-z]+\\.)([a-z]+\\.)".toList, "a.de.".toList), ["a.de.".toList, "a.".toList, "de.".toList])] (by decide)

theorem websiteKey_iff_labels : ∃ a' b', canonicalizeDomain labels (fun _ => some [twoLabels]) (host [['a'], "bc".toList]) = .ok a' ∧
    canonicalizeDomain labels (fun _ => some [twoLabels]) (host [['a'], "de".toList]) = .ok b' ∧
    ((a'.websiteKey = b'.websiteKey → requiredValues ["a.bc.".toList, "a.".toList, "bc.".toList] 0 twoLabels =
        requiredValues ["a.de.".toList, "a.".toList, "de.".toList] 0 twoLabels) ↔
      KeptApart (requiredValues ["a.bc.".toList, "a.".toList, "bc.".toList] 0 twoLabels)
        (requiredValues ["a.de.".toList, "a.".toList, "de.".toList] 0 twoLabels)) :=
  ⟨_, _, rfl, rfl, websiteKey_iff labels (fun _ => some [twoLabels]) (a := host [['a'], "bc".toList])
    (b := host [['a'], "de".toList]) rfl rfl rfl rfl rfl rfl⟩

/-- The hosts `a.bc.snap.net` and `ab.c.snap.net` are one website. -/
theorem websiteKey_collision : ∃ a' b', canonicalizeDomain labels (fun _ => some [twoLabels]) (host [['a'], "bc".toList]) = .ok a' ∧
    canonicalizeDomain labels (fun _ => some [twoLabels]) (host ["ab".toList, ['c']]) = .ok b' ∧
    a'.websiteKey = b'.websiteKey ∧
    matchDomain labels [twoLabels] (host [['a'], "bc".toList]).subDomains =
      some (twoLabels, ["a.bc.".toList, "a.".toList, "bc.".toList]) ∧
    matchDomain labels [twoLabels] (host ["ab".toList, ['c']]).subDomains =
      some (twoLabels, ["ab.c.".toList, "ab.".toList, "c.".toList]) ∧
    requiredValues ["a.bc.".toList, "a.".toList, "bc.".toList] 0 twoLabels ≠
      requiredValues ["ab.c.".toList, "ab.".toList, "c.".toList] 0 twoLabels :=
  ⟨_, _, rfl, rfl, rfl, rfl, rfl, by decide⟩

end SnapChild
end Snapwebsites
