import Snapwebsites.Lib.Fallible
import Snapwebsites.SnapChild.Domain

/-! # Website rules

`snap_child::canonicalize_website()`: the rules of a website are tried in their order. The protocol, the port and the query
options are matched variable by variable; the path variables make one expression, a group each, and their texts are read
back in a loop over all variables of the rule. A path variable gets the text of its own group exactly when no other
variable stands in front of one (`ownCaptures_iff`). -/

namespace Snapwebsites
open QString SnapUri

namespace SnapChild

/-- `website_variable_part_t`. -/
inductive Part
  | path | port | protocol | query
deriving DecidableEq

/-- `website_variable`. -/
structure WebsiteVariable where
  type : VariableType
  part : Part
  name : QString
  value : QString
  default : QString := []
  required : Bool := false
deriving DecidableEq

/-- The local variables of the loop over the variables of a rule. -/
structure Matched where
  protocol : QString := "http".toList
  port : QString := "80".toList
  query : SortedMap QString QString := ∅
  rePath : QString := []

/-- `captured[n]` of a `QStringList`. -/
def capture (captured : List QString) (n : Nat) : Except Failure QString :=
  match captured[n]? with
  | some text => pure text
  | none => throw .undefined

section
variable (R : RegExp)

/-- One variable of a rule; nothing where the request does not match it. -/
def matchVariable (uri : SnapUri) (m : Matched) (var : WebsiteVariable) : Except Failure (Option Matched) :=
  match var.part with
  | .path => pure (some { m with rePath := m.rePath ++ group (var.value, !var.required) })
  | .port =>
    match R.exactMatch (group (var.value, false)) false (toString uri.port).toList with
    | none => pure none
    | some captured => (capture captured 1).map fun port => some { m with port }
  | .protocol =>
    match R.exactMatch (group (var.value, false)) true uri.protocol with
    | none => pure none
    | some captured => (capture captured 1).map fun protocol => some { m with protocol }
  | .query =>
    match uri.queryStrings.find? var.name with
    | some option =>
      match R.exactMatch (group (var.value, false)) false option with
      | none => pure none
      | some captured => (capture captured 1).map fun text => some { m with query := m.query.insert var.name text }
    | none => pure (some (if var.required then { m with query := m.query.insert var.name var.default } else m))

def matchVariables (uri : SnapUri) : List WebsiteVariable → Matched → Except Failure (Option Matched)
  | [], m => pure (some m)
  | var :: vars, m =>
    match matchVariable R uri m var with
    | .ok (some m) => matchVariables uri vars m
    | .ok none => pure none
    | .error e => throw e

/-- Whether a request matches a rule, with the texts of the expression of the path, which is not asked when it is empty. -/
def matchRule (uri : SnapUri) (info : List WebsiteVariable) : Except Failure (Option (Matched × List QString)) :=
  (matchVariables R uri info {}).map fun m =>
    m.bind fun m =>
      if m.rePath.isEmpty then some (m, [])
      else (R.indexIn ('^' :: m.rePath) (join '/' uri.path)).map (m, ·)

end

/-- The value of a required variable: its default for an empty text and for a website. -/
def WebsiteVariable.requiredValue (var : WebsiteVariable) (text : QString) : QString :=
  if text.isEmpty || var.type = .website then var.default else text

/-- The options that a path variable sets. -/
def WebsiteVariable.setOptions (var : WebsiteVariable) (text : QString) (options : SortedMap QString QString) :
    SortedMap QString QString :=
  if var.required then setOption options var.name (var.requiredValue text)
  else if !text.isEmpty then setOption options var.name (if var.type = .website then var.default else text)
  else if !var.default.isEmpty then setOption options var.name var.default
  else options

/-- The loop over the variables once the path is matched, from variable `v` on. -/
def readPath (captured : List QString) :
    Nat → List WebsiteVariable → SortedMap QString QString → QString → Except Failure (SortedMap QString QString × QString)
  | _, [], options, canonicalizedPath => pure (options, canonicalizedPath)
  | v, var :: vars, options, canonicalizedPath =>
    if var.part = .path then
      match captured[v + 1]? with
      | none => throw .undefined
      | some text =>
        readPath captured (v + 1) vars (var.setOptions text options)
          (if var.required then canonicalizedPath ++ '/' :: urlencode (var.requiredValue text) ['~'] else canonicalizedPath)
    else readPath captured (v + 1) vars options canonicalizedPath

section
variable (R : RegExp) (getservbyname : QString → Option Nat)

/-- `snap_uri::protocol_to_port()`, which is -1 for a protocol that is not known. -/
def portOf (protocol : QString) : Int := ((protocolToPort getservbyname protocol).map Int.ofNat).getD (-1)

/-- `snap_uri::set_query_option()`. -/
def setQueryOption (queryStrings : SortedMap QString QString) (name value : QString) : SortedMap QString QString :=
  if name.isEmpty then queryStrings else setOption queryStrings name value

/-- The keys of the site, once a rule matches. -/
def setSite (m : Matched) (options : SortedMap QString QString) (canonicalizedPath : QString) (c : Child) : Child :=
  let canonicalizedQuery := join '&' (m.query.entries.map fun e => urlencode e.1 [] ++ ['='] ++ urlencode e.2 [])
  let siteKey := m.protocol ++ "://".toList ++ c.websiteKey ++
    (if (toInt m.port).getD 0 ≠ portOf getservbyname m.protocol then ':' :: m.port else []) ++
    (if canonicalizedPath.isEmpty then ['/'] else canonicalizedPath) ++
    (if canonicalizedQuery.isEmpty then [] else '?' :: canonicalizedQuery)
  { c with
    uri := { c.uri with
      queryStrings := m.query.entries.foldl (fun q e => setQueryOption q e.1 e.2) c.uri.queryStrings }
    options := setOption (setOption options "protocol".toList m.protocol) "port".toList m.port
    siteKey
    siteKeyWithSlash := if siteKey.getLast? = some '/' then siteKey else siteKey ++ ['/'] }

/-- The loop over the rules. -/
def tryRules (c : Child) : List (List WebsiteVariable) → Except Failure Child
  | [] => throw .notFound
  | info :: rules =>
    match matchRule R c.uri info with
    | .error e => throw e
    | .ok none => tryRules c rules
    | .ok (some (m, captured)) =>
      if m.rePath.isEmpty then pure (setSite getservbyname m c.options [] c)
      else (readPath captured 0 info c.options []).map fun r => setSite getservbyname m r.1 r.2 c

/-- `canonicalize_website()`, with the rules of the websites that exist and have some. -/
def canonicalizeWebsite (websites : QString → Option (List (List WebsiteVariable))) (c : Child) : Except Failure Child :=
  match websites c.websiteKey with
  | none => throw .notFound
  | some rules => tryRules R getservbyname c rules

end

/-! ### The groups of the path variables -/

def WebsiteVariable.isPath (var : WebsiteVariable) : Bool := var.part = .path

/-- Each path variable with the text of its own group. -/
def ownTexts (info : List WebsiteVariable) (captured : List QString) : List (WebsiteVariable × QString) :=
  (info.filter WebsiteVariable.isPath).zip captured.tail

/-- The options of the path variables, each with its own text. -/
def ownOptions (options : SortedMap QString QString) (texts : List (WebsiteVariable × QString)) : SortedMap QString QString :=
  texts.foldl (fun o p => p.1.setOptions p.2 o) options

/-- The path variables of a rule that matches get the texts of their own groups, and all of these are there. -/
def OwnCaptures (R : RegExp) (getservbyname : QString → Option Nat)
    (websites : QString → Option (List (List WebsiteVariable))) (c : Child) (info : List WebsiteVariable) (m : Matched)
    (captured : List QString) : Prop :=
  ∃ c', canonicalizeWebsite R getservbyname websites c = .ok c' ∧
    c'.options = setOption (setOption (ownOptions c.options (ownTexts info captured)) "protocol".toList m.protocol)
      "port".toList m.port

/-- The path variables come first. -/
def PathFirst (info : List WebsiteVariable) : Prop := info.Pairwise fun var var' => var'.isPath = true → var.isPath = true

variable {R : RegExp} {getservbyname : QString → Option Nat} {websites : QString → Option (List (List WebsiteVariable))}
  {c : Child} {info vars : List WebsiteVariable} {before after : List (List WebsiteVariable)} {m m' : Matched} {captured : List QString} {v : Nat}
  {options : SortedMap QString QString} {canonicalizedPath : QString} {var : WebsiteVariable}

/-! ### The expression of the path -/

/-- The parts of the expression of the path. -/
def pathParts (vars : List WebsiteVariable) : List (QString × Bool) :=
  (vars.filter WebsiteVariable.isPath).map fun var => (var.value, !var.required)

theorem matchVariable_rePath (h : matchVariable R c.uri m var = .ok (some m')) :
    m'.rePath = m.rePath ++ (pathParts [var]).flatMap group := by
  unfold matchVariable at h
  cases hpart : var.part <;> simp only [hpart] at h
  · cases h
    simp [pathParts, WebsiteVariable.isPath, hpart]
  all_goals
    have hnil : pathParts [var] = [] := by simp [pathParts, WebsiteVariable.isPath, hpart]
    rw [hnil, List.flatMap_nil, List.append_nil]
  · split at h
    · cases h
    · obtain ⟨_, -, heq⟩ := Fallible.map_eq_ok.mp h
      cases heq
      rfl
  · split at h
    · cases h
    · obtain ⟨_, -, heq⟩ := Fallible.map_eq_ok.mp h
      cases heq
      rfl
  · split at h
    · split at h
      · cases h
      · obtain ⟨_, -, heq⟩ := Fallible.map_eq_ok.mp h
        cases heq
        rfl
    · cases h
      split <;> rfl

theorem matchVariables_rePath (h : matchVariables R c.uri vars m = .ok (some m')) :
    m'.rePath = m.rePath ++ (pathParts vars).flatMap group := by
  induction vars generalizing m with
  | nil =>
    cases h
    simp [pathParts]
  | cons var vars ih =>
    rw [matchVariables] at h
    split at h
    · rename_i m₁ hvar
      have happend : pathParts (var :: vars) = pathParts [var] ++ pathParts vars := by
        simp [pathParts, List.filter_cons]
        split <;> rfl
      rw [ih h, matchVariable_rePath hvar, happend, List.flatMap_append, List.append_assoc]
    · cases h
    · cases h

/-- What a matching rule gives: an expression that is empty without path variables, and else a text for each of them. -/
theorem matchRule_spec (hfree : ∀ var ∈ info, R.groupFree var.value = true)
    (h : matchRule R c.uri info = .ok (some (m, captured))) :
    (m.rePath.isEmpty = true ↔ info.filter WebsiteVariable.isPath = []) ∧
      (m.rePath.isEmpty = false → captured.length = (info.filter WebsiteVariable.isPath).length + 1) := by
  obtain ⟨r, hvars, hr⟩ := Fallible.map_eq_ok.mp h
  obtain ⟨m', rfl, hm⟩ := Option.bind_eq_some_iff.mp hr
  have hpath := matchVariables_rePath hvars
  have hempty : m'.rePath.isEmpty = true ↔ info.filter WebsiteVariable.isPath = [] := by
    rw [hpath, pathParts]
    cases info.filter WebsiteVariable.isPath <;> simp [group]
  split at hm
  · rename_i hnil
    cases hm
    exact ⟨hempty, fun h => by rw [hnil] at h; cases h⟩
  · obtain ⟨texts, htexts, heq⟩ := Option.map_eq_some_iff.mp hm
    cases heq
    refine ⟨hempty, fun _ => ?_⟩
    rw [hpath, List.nil_append] at htexts
    have hlength := R.indexIn_length _ _ _ (fun p hp => ?_) htexts
    · rwa [pathParts, List.length_map] at hlength
    · obtain ⟨var, hvar, rfl⟩ := List.mem_map.mp hp
      exact hfree var (List.mem_filter.mp hvar).1

/-! ### The loop over the variables -/

theorem pathFirst_of_noPath (h : vars.filter WebsiteVariable.isPath = []) : PathFirst vars :=
  List.pairwise_of_forall_mem_list fun _ _ w hw hpath => absurd hpath (List.filter_eq_nil_iff.mp h w hw)

/-- Without path variables nothing is read. -/
theorem readPath_of_noPath (h : vars.filter WebsiteVariable.isPath = []) :
    readPath captured v vars options canonicalizedPath = .ok (options, canonicalizedPath) := by
  induction vars generalizing v with
  | nil => rfl
  | cons var vars ih =>
    have hvar : var.isPath = false := by simpa using List.filter_eq_nil_iff.mp h var List.mem_cons_self
    rw [List.filter_cons_of_neg (by simp [hvar])] at h
    rw [readPath, if_neg (by simpa [WebsiteVariable.isPath] using hvar), ih h]

/-- Path variables in front read the texts one after the other. -/
theorem readPath_of_pathFirst (hfirst : PathFirst vars)
    (hlength : v + (vars.filter WebsiteVariable.isPath).length < captured.length) :
    ∃ path, readPath captured v vars options canonicalizedPath =
      .ok (ownOptions options ((vars.filter WebsiteVariable.isPath).zip (captured.drop (v + 1))), path) := by
  induction vars generalizing v options canonicalizedPath with
  | nil => exact ⟨_, rfl⟩
  | cons var vars ih =>
    obtain ⟨hvars, hfirst⟩ := List.pairwise_cons.mp hfirst
    cases hvar : var.isPath with
    | true =>
      rw [List.filter_cons_of_pos hvar, List.length_cons] at hlength
      have htext : v + 1 < captured.length := by omega
      rw [readPath, if_pos (by simpa [WebsiteVariable.isPath] using hvar), List.getElem?_eq_getElem htext,
        List.filter_cons_of_pos hvar, List.drop_eq_getElem_cons htext, List.zip_cons_cons]
      exact ih hfirst (by omega)
    | false =>
      -- no path variable follows one of another part
      have hnone : vars.filter WebsiteVariable.isPath = [] := List.filter_eq_nil_iff.mpr fun w hw hpath => by
        rw [hvars w hw hpath] at hvar
        cases hvar
      rw [readPath, if_neg (by simpa [WebsiteVariable.isPath] using hvar), readPath_of_noPath hnone,
        List.filter_cons_of_neg (by simp [hvar]), hnone]
      exact ⟨_, rfl⟩

/-- Where fewer texts are left than path variables, one that does not exist is read. -/
theorem readPath_of_short (hlength : captured.length ≤ v + (vars.filter WebsiteVariable.isPath).length)
    (hpath : vars.filter WebsiteVariable.isPath ≠ []) :
    readPath captured v vars options canonicalizedPath = .error .undefined := by
  induction vars generalizing v options canonicalizedPath with
  | nil => exact absurd rfl hpath
  | cons var vars ih =>
    cases hvar : var.isPath with
    | true =>
      rw [List.filter_cons_of_pos hvar, List.length_cons] at hlength
      rw [readPath, if_pos (by simpa [WebsiteVariable.isPath] using hvar)]
      split
      · rfl
      · rename_i text htext
        have hlt := (List.getElem?_eq_some_iff.mp htext).1
        refine ih (by omega) fun hnone => ?_
        rw [hnone, List.length_nil] at hlength
        omega
    | false =>
      rw [List.filter_cons_of_neg (by simp [hvar])] at hlength hpath
      rw [readPath, if_neg (by simpa [WebsiteVariable.isPath] using hvar)]
      exact ih (by omega) hpath

/-- A variable of another part in front of a path variable shifts the texts of all that follow. -/
theorem readPath_of_not_pathFirst (hfirst : ¬ PathFirst vars)
    (hlength : captured.length ≤ v + (vars.filter WebsiteVariable.isPath).length + 1) :
    readPath captured v vars options canonicalizedPath = .error .undefined := by
  induction vars generalizing v options canonicalizedPath with
  | nil => exact absurd List.Pairwise.nil hfirst
  | cons var vars ih =>
    cases hvar : var.isPath with
    | true =>
      have hrest : ¬ PathFirst vars := fun h => hfirst (List.pairwise_cons.mpr ⟨fun _ _ _ => hvar, h⟩)
      rw [List.filter_cons_of_pos hvar, List.length_cons] at hlength
      rw [readPath, if_pos (by simpa [WebsiteVariable.isPath] using hvar)]
      split
      · rfl
      · exact ih hrest (by omega)
    | false =>
      have hpath : vars.filter WebsiteVariable.isPath ≠ [] := fun hnone =>
        hfirst (List.pairwise_cons.mpr ⟨fun w hw hpath => absurd hpath (List.filter_eq_nil_iff.mp hnone w hw),
          pathFirst_of_noPath hnone⟩)
      rw [List.filter_cons_of_neg (by simp [hvar])] at hlength
      rw [readPath, if_neg (by simpa [WebsiteVariable.isPath] using hvar)]
      exact readPath_of_short (by omega) hpath

/-! ### The rules of a website -/

/-- The rules that do not match are passed over. -/
theorem tryRules_append (hbefore : ∀ r ∈ before, matchRule R c.uri r = .ok none) :
    tryRules R getservbyname c (before ++ info :: after) = tryRules R getservbyname c (info :: after) := by
  induction before with
  | nil => rfl
  | cons r before ih =>
    rw [List.cons_append, tryRules, hbefore r List.mem_cons_self]
    exact ih fun r hr => hbefore r (List.mem_cons_of_mem _ hr)

/-- The path variables of the first rule that matches take their own captures, and read none that does not exist, exactly
    when no variable of another part stands in front of one. -/
theorem ownCaptures_iff (R : RegExp) (getservbyname : QString → Option Nat)
    (websites : QString → Option (List (List WebsiteVariable))) {c : Child} {before after : List (List WebsiteVariable)}
    {info : List WebsiteVariable} {m : Matched} {captured : List QString}
    (hfree : ∀ var ∈ info, R.groupFree var.value = true) (hrules : websites c.websiteKey = some (before ++ info :: after))
    (hbefore : ∀ r ∈ before, matchRule R c.uri r = .ok none) (hmatch : matchRule R c.uri info = .ok (some (m, captured))) :
    OwnCaptures R getservbyname websites c info m captured ↔ PathFirst info := by
  obtain ⟨hempty, hlength⟩ := matchRule_spec hfree hmatch
  have hrun : canonicalizeWebsite R getservbyname websites c =
      if m.rePath.isEmpty then .ok (setSite getservbyname m c.options [] c)
      else (readPath captured 0 info c.options []).map fun r => setSite getservbyname m r.1 r.2 c := by
    simp only [canonicalizeWebsite, hrules, tryRules_append hbefore, tryRules, hmatch]
    rfl
  rw [OwnCaptures, hrun]
  cases hnil : m.rePath.isEmpty with
  | true =>
    have hnone := hempty.mp hnil
    refine iff_of_true ⟨_, if_pos rfl, ?_⟩ (pathFirst_of_noPath hnone)
    rw [ownTexts, hnone]
    rfl
  | false =>
    rw [if_neg Bool.false_ne_true]
    have htexts := hlength hnil
    constructor
    · rintro ⟨c', hc', -⟩
      by_contra hfirst
      rw [readPath_of_not_pathFirst hfirst (by omega)] at hc'
      cases hc'
    · intro hfirst
      obtain ⟨path, hread⟩ : ∃ path, readPath captured 0 info c.options [] = .ok
          (ownOptions c.options ((info.filter WebsiteVariable.isPath).zip (captured.drop 1)), path) :=
        readPath_of_pathFirst hfirst (by omega)
      rw [hread]
      refine ⟨_, rfl, ?_⟩
      rw [ownTexts, ← List.drop_one]
      rfl

/-! ### A path behind a port -/

/-- The language in front of a path, and the port. -/
def language : WebsiteVariable := ⟨.standard, .path, "lang".toList, "en|fr".toList, [], true⟩

def plainPort : WebsiteVariable := ⟨.standard, .port, "port".toList, "80".toList, [], false⟩

/-- The matches of their expressions. -/
def languages : RegExp :=
  .table [(("^(en|fr)".toList, "en/home".toList), ["en".toList, "en".toList]),
    (("(80)".toList, "80".toList), ["80".toList, "80".toList])] (by decide)

/-- A request for `http://snap.net/en/home`. -/
def request : Child := { uri := { path := ["en".toList, "home".toList] }, websiteKey := "snap.net".toList }

theorem ownCaptures_iff_language :
    OwnCaptures languages (fun _ => none) (fun _ => some [[language, plainPort]]) request [language, plainPort]
        { rePath := "(en|fr)".toList } ["en".toList, "en".toList] ↔ PathFirst [language, plainPort] :=
  ownCaptures_iff languages (fun _ => none) (fun _ => some [[language, plainPort]])
    (by decide) rfl (fun _ h => absurd h List.not_mem_nil) rfl

/-- With the port in front, the language is read behind the last capture. -/
theorem not_ownCaptures :
    matchRule languages request.uri [plainPort, language] =
        .ok (some ({ rePath := "(en|fr)".toList }, ["en".toList, "en".toList])) ∧
      ¬ OwnCaptures languages (fun _ => none) (fun _ => some [[plainPort, language]]) request [plainPort, language]
        { rePath := "(en|fr)".toList } ["en".toList, "en".toList] := by
  refine ⟨rfl, ?_⟩
  rintro ⟨c', hc', -⟩
  have hrun : canonicalizeWebsite languages (fun _ => none) (fun _ => some [[plainPort, language]]) request = .error .undefined :=
    rfl
  rw [hrun] at hc'
  cases hc'

end SnapChild
end Snapwebsites
