import Snapwebsites.Lib.Fallible
import Snapwebsites.Lib.Program
import Snapwebsites.SnapUri.Stable

/-! # URIs that are refused

`set_uri()` on any object, which it writes at its end: the name and the password are only decoded when the original text and
the protocol are written. A check that fails refuses the text and changes nothing, and a component that cannot be decoded
throws. So a text is taken or refused without effect exactly when every component in front of the first check that fails can
be decoded (`setUri_soundly_iff`). -/

namespace Snapwebsites
open QString

/-- A `snap_uri`, with the fields that no parsing reads. -/
structure SnapUriObject extends SnapUri where
  original : QString := []
  options : SortedMap QString QString := ∅
  deriving DecidableEq

namespace SnapUri

/-! ### Setting any object -/

/-- What is decoded before the object is written. -/
structure Parts where
  subDomains : List QString
  domain : QString
  topLevelDomain : QString
  path : List QString
  queryStrings : SortedMap QString QString
  anchor : QString

section
variable (tld getservbyname : QString → Option Nat)

/-- The part of `set_uri()` between `split` and the first assignment. -/
def Raw.parts (raw : Raw) : Except SetUriError Parts := do
  let (subDomains, domain, topLevelDomain) ← processDomain tld raw.fullDomainName
  let path ← readPath raw.path
  let queryStrings ← readQuery true (raw.query.elim [] queryParameters) ∅
  let (path, anchor) ← readAnchor path raw.anchor
  match removeParents [] path with
  | none => .error .refused
  | some path => pure { subDomains, domain, topLevelDomain, path, queryStrings, anchor }

/-- The assignments of `set_uri()`, in their order. The port stays when there is none for the protocol. -/
def assign (uri : QString) (raw : Raw) (parts : Parts) : Program SnapUriObject Bool := do
  modify fun o => { o with original := uri, protocol := raw.protocol }
  let username ← Program.ofOption (urldecode raw.username)
  modify fun o => { o with username }
  let password ← Program.ofOption (urldecode raw.password)
  modify fun o => { o with
    password, port := raw.port.getD o.port, domain := parts.domain, topLevelDomain := parts.topLevelDomain
    subDomains := parts.subDomains, path := parts.path, options := ∅, queryStrings := parts.queryStrings
    anchor := parts.anchor }
  pure true

/-- `set_uri()`; its value is what it returns. -/
def setObject (uri : QString) : Program SnapUriObject Bool :=
  match split getservbyname uri with
  | none => pure false
  | some raw =>
    match raw.parts tld with
    | .error .refused => pure false
    | .error .invalidUri => Program.ofOption none
    | .ok parts => assign uri raw parts

/-- The text is taken, or it is refused and nothing has changed. Nothing is thrown. -/
def Soundly (uri : QString) (o : SnapUriObject) : Prop :=
  ∃ taken t, Program.Yields (setObject tld getservbyname uri) o taken t ∧ (taken = false → t = o)

end

/-! ### The components of a text, in order -/

/-- A text that `urldecode()` takes: characters that it accepts, "+", and "%" in front of two digits. It ends at a NUL. -/
def encoded : QString → Bool
  | [] => true
  | '%' :: h :: l :: s => (hexDigit h).isSome && (hexDigit l).isSome && encoded s
  | c :: s => c = nul || (c = '+' || isAccepted c) && encoded s

/-- A component that is decoded, or a check that fails. -/
inductive Check
  | decode (component : QString)
  | fail

/-- What comes of the checks and the components. -/
def outcome : List Check → Except SetUriError Unit
  | [] => .ok ()
  | .fail :: _ => .error .refused
  | .decode s :: l => if encoded s then outcome l else .error .invalidUri

/-- Every component in front of the first check that fails can be decoded. -/
def Sound : List Check → Prop
  | [] => True
  | .fail :: _ => True
  | .decode s :: l => encoded s = true ∧ Sound l

/-- A component decoded; it can be. -/
def decoded (s : QString) : QString := (urldecode s).getD []

section
variable (tld : QString → Option Nat)

def domainChecks (fullDomainName : QString) : List Check :=
  match tld fullDomainName with
  | none => [.fail]
  | some offset =>
    let allSubDomains := ((fullDomainName.take offset).rdropWhile (· ≠ '.')).dropLast
    [.decode (fullDomainName.drop offset), .decode ((fullDomainName.take offset).rtakeWhile (· ≠ '.'))] ++
      if allSubDomains.isEmpty then []
      else (allSubDomains.splitOn '.').map fun s => if s.isEmpty then .fail else .decode s

def pathChecks (path : QString) : List Check := (splitParts '/' path).map .decode

/-- The names of the parameters must differ. One without a name is named "*", which is decoded as well. -/
def queryChecks : Bool → List QString → List QString → List Check
  | _, [], _ => []
  | first, parameter :: rest, names =>
    let (name, value) := nameAndValue first parameter
    let name := if name.isEmpty then ['*'] else name
    .decode name :: if decoded name ∈ names then [.fail]
      else .decode value :: queryChecks false rest (decoded name :: names)

/-- What a hash bang adds to the path. -/
def hashBang (anchor : Option QString) : List QString :=
  match anchor with
  | none => []
  | some anchor => if (decoded anchor).head? = some '!' then splitParts '/' (decoded anchor) else []

/-- The components of a text and the checks that it fails, in the order of `set_uri()`. -/
def Raw.checks (raw : Raw) : List Check :=
  domainChecks tld raw.fullDomainName ++ pathChecks raw.path ++ queryChecks true (raw.query.elim [] queryParameters) [] ++
    raw.anchor.toList.map .decode ++ (hashBang raw.anchor).map .decode ++
    (if removeParents [] ((splitParts '/' raw.path ++ hashBang raw.anchor).map decoded) = none then [.fail] else []) ++
    [.decode raw.username, .decode raw.password]

end

/-! ### Decoding -/

variable {tld getservbyname : QString → Option Nat} {α β : Type} {e : Except SetUriError α} {l k : List Check}

theorem sound_iff : Sound l ↔ outcome l ≠ .error .invalidUri := by
  induction l with
  | nil => simp [Sound, outcome]
  | cons c l ih =>
    cases c with
    | fail => simp [Sound, outcome]
    | decode s =>
      rw [Sound, outcome, ih]
      cases encoded s <;> simp

theorem encoded_iff (s : QString) : encoded s = true ↔ (urldecode s).isSome = true := by
  rw [urldecode, Option.isSome_map]
  fun_induction encoded s with
  | case1 => simp [urldecodeBytes]
  | case2 h l s ih =>
    rw [urldecodeBytes]
    cases hexDigit h with
    | none => simp
    | some h =>
      cases hexDigit l with
      | none => simp
      | some l =>
        rw [Bool.and_eq_true, ih]
        cases urldecodeBytes s <;> simp
  | case3 c s hpercent ih =>
    rw [urldecodeBytes.eq_3 c s hpercent]
    by_cases hnul : c = nul
    · simp [hnul]
    · by_cases hplus : c = '+'
      · have hne : '+' ≠ nul := by decide
        simp [hplus, hne, ih]
      · cases haccepted : isAccepted c <;> simp [hnul, hplus, ih]

theorem decoded_eq {s t : QString} (h : SnapUri.decode s = .ok t) : decoded s = t := by
  unfold SnapUri.decode at h
  unfold decoded
  cases hs : urldecode s with
  | none =>
    rw [hs] at h
    cases h
  | some t' =>
    rw [hs] at h
    cases h
    rfl

/-- A computation fails where the checks and the components say. -/
def Follows (l : List Check) (e : Except SetUriError α) : Prop := outcome l = e.map fun _ => ()

theorem outcome_append (l l' : List Check) : outcome (l ++ l') = outcome l >>= fun _ => outcome l' := by
  induction l with
  | nil => rfl
  | cons c l ih =>
    cases c with
    | fail => rfl
    | decode s =>
      rw [List.cons_append, outcome, outcome, ih]
      cases encoded s <;> rfl

theorem Follows.bind {f : α → Except SetUriError β} (h : Follows l e) (hf : ∀ a, e = .ok a → Follows k (f a)) :
    Follows (l ++ k) (e >>= f) := by
  unfold Follows at h ⊢
  rw [outcome_append, h]
  cases e with
  | error e => rfl
  | ok a => exact hf a rfl

theorem Follows.pure (a : α) : Follows [] (.ok a : Except SetUriError α) := rfl

theorem Follows.refused (l : List Check) : Follows (.fail :: l) (.error .refused : Except SetUriError α) := rfl

theorem Follows.decode (s : QString) : Follows [.decode s] (SnapUri.decode s) := by
  unfold Follows outcome SnapUri.decode
  rw [Bool.eq_iff_iff.mpr (encoded_iff s)]
  cases urldecode s <;> rfl

theorem Follows.map {f : α → β} (h : Follows l e) : Follows l (e.map f) := by
  unfold Follows at h ⊢
  rw [h]
  cases e <;> rfl

/-! ### The parts of a text -/

theorem follows_mapM {c : α → Check} {f : α → Except SetUriError β} (h : ∀ a, Follows [c a] (f a)) :
    ∀ l : List α, Follows (l.map c) (l.mapM f)
  | [] => .pure _
  | a :: l => by
    rw [List.mapM_cons, List.map_cons, ← List.singleton_append]
    refine (h a).bind fun b _ => ?_
    have hrest := (follows_mapM h l).map (f := fun bs => b :: bs)
    cases hl : l.mapM f with
    | error e =>
      rw [hl] at hrest
      exact hrest
    | ok bs =>
      rw [hl] at hrest
      exact hrest

theorem mapM_decode : ∀ {l path : List QString}, l.mapM SnapUri.decode = .ok path → path = l.map decoded
  | [], _, h => by cases h; rfl
  | s :: l, _, h => by
    rw [List.mapM_cons] at h
    obtain ⟨t, ht, h⟩ := Fallible.bind_eq_ok.mp h
    obtain ⟨ts, hts, h⟩ := Fallible.bind_eq_ok.mp h
    cases h
    rw [List.map_cons, decoded_eq ht, ← mapM_decode hts]

theorem follows_processDomain (tld : QString → Option Nat) (name : QString) :
    Follows (domainChecks tld name) (processDomain tld name) := by
  unfold domainChecks processDomain
  cases tld name with
  | none => exact .refused []
  | some offset =>
    refine (Follows.decode _).bind fun topLevelDomain _ => (Follows.decode _).bind fun domain _ => ?_
    simp only
    generalize ((name.take offset).rdropWhile (· ≠ '.')).dropLast = allSubDomains
    split
    · exact .pure _
    · have hall := follows_mapM (c := fun s : QString => if s.isEmpty then Check.fail else .decode s)
        (f := fun s => if s.isEmpty then .error .refused else SnapUri.decode s) (fun s => by
          split
          · exact .refused []
          · exact .decode s)
      have hrest := (hall (allSubDomains.splitOn '.')).bind (k := [])
        (f := fun subDomains => (.ok (subDomains, domain, topLevelDomain) : Except SetUriError _)) fun _ _ => .pure _
      rw [List.append_nil] at hrest
      exact hrest

theorem follows_readPath (path : QString) : Follows (pathChecks path) (readPath path) := follows_mapM Follows.decode _

theorem follows_readQuery : ∀ (l : List QString) (first : Bool) (m : SortedMap QString QString) (names : List QString),
    (∀ name, m.contains name = true ↔ name ∈ names) → Follows (queryChecks first l names) (readQuery first l m)
  | [], _, _, _, _ => .pure _
  | parameter :: l, first, m, names, hnames => by
    unfold queryChecks readQuery
    rcases nameAndValue first parameter with ⟨name, value⟩
    simp only
    rw [← List.singleton_append]
    refine (Follows.decode _).bind fun name' hname => ?_
    rw [decoded_eq hname]
    by_cases hmem : name' ∈ names
    · rw [if_pos hmem, if_pos ((hnames name').mpr hmem)]
      exact .refused []
    · rw [if_neg hmem, if_neg (mt (hnames name').mp hmem), ← List.singleton_append]
      refine (Follows.decode value).bind fun value' _ => follows_readQuery l false _ _ fun n => ?_
      rw [SortedMap.contains, SortedMap.find?_insert, List.mem_cons, ← hnames n]
      split
      · rename_i heq
        simp [heq]
      · rename_i hne
        simp [hne, SortedMap.contains]

theorem follows_readAnchor (path : List QString) (anchor : Option QString) :
    Follows (anchor.toList.map .decode ++ (hashBang anchor).map .decode) (readAnchor path anchor) := by
  cases anchor with
  | none => exact .pure _
  | some anchor =>
    refine (Follows.decode anchor).bind fun p hp => ?_
    rw [hashBang, decoded_eq hp]
    split
    · have hrest := (follows_mapM Follows.decode (splitParts '/' p)).bind (k := [])
        (f := fun more => (.ok (path ++ more, []) : Except SetUriError (List QString × QString))) fun _ _ => .pure _
      rw [List.append_nil] at hrest
      exact hrest
    · exact .pure _

theorem readAnchor_path {path path' : List QString} {anchor : Option QString} {anchor' : QString}
    (h : readAnchor path anchor = .ok (path', anchor')) : path' = path ++ (hashBang anchor).map decoded := by
  cases anchor with
  | none =>
    cases h
    exact (List.append_nil _).symm
  | some anchor =>
    obtain ⟨p, hp, h⟩ := Fallible.bind_eq_ok.mp h
    rw [hashBang, decoded_eq hp]
    split at h
    · rename_i hbang
      obtain ⟨more, hmore, h⟩ := Fallible.bind_eq_ok.mp h
      cases h
      rw [if_pos hbang, mapM_decode hmore]
    · rename_i hbang
      cases h
      rw [if_neg hbang, List.map_nil, List.append_nil]

/-- The checks and the components in front of the first assignment. -/
def Raw.partsChecks (tld : QString → Option Nat) (raw : Raw) : List Check :=
  domainChecks tld raw.fullDomainName ++ (pathChecks raw.path ++ (queryChecks true (raw.query.elim [] queryParameters) [] ++
    ((raw.anchor.toList.map .decode ++ (hashBang raw.anchor).map .decode) ++
      if removeParents [] ((splitParts '/' raw.path ++ hashBang raw.anchor).map decoded) = none then [.fail] else [])))

theorem Raw.checks_eq (raw : Raw) : raw.checks tld = raw.partsChecks tld ++ [.decode raw.username, .decode raw.password] := by
  simp only [Raw.checks, Raw.partsChecks, List.append_assoc]

theorem Raw.follows_parts (raw : Raw) : Follows (raw.partsChecks tld) (raw.parts tld) := by
  refine (follows_processDomain tld _).bind fun domain _ => (follows_readPath _).bind fun path hpath => ?_
  refine (follows_readQuery _ true ∅ [] fun name => ?_).bind fun queryStrings _ => ?_
  · simp [SortedMap.contains]
  · refine (follows_readAnchor path raw.anchor).bind fun pathAndAnchor hanchor => ?_
    obtain ⟨whole, anchor⟩ := pathAndAnchor
    rw [List.map_append, ← mapM_decode hpath, ← readAnchor_path hanchor]
    simp only
    cases removeParents [] whole with
    | none =>
      rw [if_pos rfl]
      exact .refused []
    | some path =>
      rw [if_neg (Option.some_ne_none path)]
      exact .pure _

/-! ### Any object -/

theorem assign_soundly_iff (uri : QString) (raw : Raw) (parts : Parts) (o : SnapUriObject) :
    (∃ taken t, Program.Yields (assign uri raw parts) o taken t ∧ (taken = false → t = o)) ↔
      outcome [.decode raw.username, .decode raw.password] ≠ .error .invalidUri := by
  rw [← sound_iff, Sound, Sound, Sound, encoded_iff, encoded_iff, and_true]
  cases husername : urldecode raw.username with
  | none =>
    refine iff_of_false ?_ fun h => by cases h.1
    rintro ⟨taken, t, h, -⟩
    simp only [assign, husername] at h
    cases h
  | some username =>
    cases hpassword : urldecode raw.password with
    | none =>
      refine iff_of_false ?_ fun h => by cases h.2
      rintro ⟨taken, t, h, -⟩
      simp only [assign, husername, hpassword] at h
      cases h
    | some password =>
      refine iff_of_true ⟨true, (assign uri raw parts).exec o, ?_, fun h => by cases h⟩ ⟨rfl, rfl⟩
      simp only [assign, husername, hpassword]
      rfl

/-- A text is taken, or refused without effect, exactly when every component in front of the first check that fails can be
    decoded. -/
theorem setObject_soundly_iff (tld getservbyname : QString → Option Nat) (uri : QString) (o : SnapUriObject) :
    Soundly tld getservbyname uri o ↔ ∀ raw, split getservbyname uri = some raw → Sound (raw.checks tld) := by
  unfold Soundly setObject
  cases hsplit : split getservbyname uri with
  | none => exact iff_of_true ⟨false, o, .pure _ _, fun _ => rfl⟩ fun raw hraw => by cases hraw
  | some raw =>
    have hraw : (∀ raw', some raw = some raw' → Sound (raw'.checks tld)) ↔ outcome (raw.checks tld) ≠ .error .invalidUri := by
      simp [sound_iff]
    rw [hraw, raw.checks_eq, outcome_append, raw.follows_parts]
    simp only
    cases hparts : raw.parts tld with
    | error e =>
      cases e with
      | refused => exact iff_of_true ⟨false, o, .pure _ _, fun _ => rfl⟩ (by rintro ⟨⟩)
      | invalidUri =>
        refine iff_of_false ?_ fun h => h rfl
        rintro ⟨taken, t, h, -⟩
        cases h
    | ok parts => exact assign_soundly_iff uri raw parts o

/-! ### A new object -/

/-- What `set_uri()` sets in a new object, from what it decoded before. -/
def Raw.finish (raw : Raw) (parts : Parts) : Except SetUriError SnapUri := do
  let username ← SnapUri.decode raw.username
  let password ← SnapUri.decode raw.password
  pure { protocol := raw.protocol, username, password, port := raw.port.getD 80, domain := parts.domain
         topLevelDomain := parts.topLevelDomain, subDomains := parts.subDomains, path := parts.path
         queryStrings := parts.queryStrings, anchor := parts.anchor }

theorem Raw.decode_eq (raw : Raw) : raw.decode tld = raw.parts tld >>= raw.finish := by
  unfold Raw.decode Raw.parts
  cases processDomain tld raw.fullDomainName with
  | error e => rfl
  | ok domain =>
    cases readPath raw.path with
    | error e => rfl
    | ok path =>
      cases readQuery true (raw.query.elim [] queryParameters) ∅ with
      | error e => rfl
      | ok queryStrings =>
        simp only [bind, Except.bind]
        cases readAnchor path raw.anchor with
        | error e => rfl
        | ok pathAndAnchor =>
          simp only
          cases removeParents [] pathAndAnchor.1 with
          | none => rfl
          | some path => rfl

theorem assign_new (u : SnapUri) (uri : QString) (raw : Raw) (parts : Parts) : raw.finish parts = .ok u ↔
    Program.Yields (assign uri raw parts) {} true { toSnapUri := u, original := uri } := by
  cases husername : urldecode raw.username with
  | none =>
    refine iff_of_false (fun h => ?_) fun h => ?_
    · simp only [Raw.finish, SnapUri.decode, husername] at h
      cases h
    · simp only [assign, husername] at h
      cases h
  | some username =>
    cases hpassword : urldecode raw.password with
    | none =>
      refine iff_of_false (fun h => ?_) fun h => ?_
      · simp only [Raw.finish, SnapUri.decode, husername, hpassword] at h
        cases h
      · simp only [assign, husername, hpassword] at h
        cases h
    | some password =>
      constructor
      · intro h
        simp only [Raw.finish, SnapUri.decode, husername, hpassword] at h
        cases h
        simp only [assign, husername, hpassword]
        rfl
      · intro h
        simp only [assign, husername, hpassword] at h
        simp only [Raw.finish, SnapUri.decode, husername, hpassword]
        cases h
        rfl

/-- On a new object, a text is taken exactly when it is parsed, and the object is then what was parsed. -/
theorem setObject_new (u : SnapUri) (uri : QString) : setUri tld getservbyname uri = .ok u ↔
    Program.Yields (setObject tld getservbyname uri) {} true { toSnapUri := u, original := uri } := by
  unfold setUri setObject
  cases split getservbyname uri with
  | none => exact iff_of_false (fun h => by cases h) fun h => by cases h
  | some raw =>
    simp only
    rw [raw.decode_eq]
    cases raw.parts tld with
    | error e => cases e <;> exact iff_of_false (fun h => by cases h) fun h => by cases h
    | ok parts => exact assign_new u uri raw parts

/-! ### A percent sign -/

/-- An invalid percent sequence throws. -/
theorem not_setObject_soundly : ¬ ∀ tld getservbyname uri o, Soundly tld getservbyname uri o := by
  intro hall
  obtain ⟨taken, t, h, -⟩ := hall dotCom (fun _ => none) "http://m2osw.com/%zz".toList {}
  have hvalue : (setObject dotCom (fun _ => none) "http://m2osw.com/%zz".toList).value {} = none := by decide
  rw [h.value] at hvalue
  cases hvalue

end SnapUri
end Snapwebsites
