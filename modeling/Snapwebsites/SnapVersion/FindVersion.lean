import Snapwebsites.SnapUri.Codec
import Snapwebsites.SnapVersion.Dependency

/-! # Searching the fields of a source

`quick_find_version_in_source::find_version()`. At the end of the data `get_line()` returns empty lines without end, so where
the comment is never closed the loop goes on, and `check()` reads the first character of a line that has none
(`findVersion_iff`). -/

namespace Snapwebsites
open QString

namespace SnapVersion

/-! ### Lines -/

/-- What `get_line()` makes of the bytes of a line. -/
def lineOf (raw : Bytes) : QString := trimmed (fromCString raw)

/-- `get_line()`, with the bytes of the line so far: the line and the data that is left. `getc()` returns a signed `char`, so the
    byte 0xFF is `EOF` as well. -/
def getLine (raw : Bytes) : Bytes → QString × Bytes
  | [] => (lineOf raw, [])
  | c :: data =>
    if c = 10 ∨ c = 13 then if lineOf raw ≠ [] then (lineOf raw, data) else getLine [] data
    else if c = 255 then (lineOf raw, data)
    else getLine (raw ++ [c]) data

def contains (pattern s : QString) : Bool := s.tails.any pattern.isPrefixOf

/-! ### Fields -/

/-- `c &= 0x5F` of a lower case letter. -/
def upper (c : Char) : Char := if c.isLower then Char.ofNat (c.toNat &&& 0x5F) else c

/-- The name of a field and the colon behind it. -/
def checkName : QString → QString → Option QString
  | [], [] => none
  | [], c :: s => if c = ':' then some (simplified s) else none
  | _ :: _, [] => none
  | n :: name, c :: s => if upper c ≠ n then none else checkName name s

/-- `field_t::check()`. -/
def check (fieldName line : QString) : Option QString :=
  let s := line.dropWhile isBlank
  checkName fieldName (if s.head? = some '*' then s.tail.dropWhile isBlank else s)

/-- `check()` reads the character behind the blanks, which is past the end of a line that has nothing else. -/
def readsPastEnd (line : QString) : Bool := line.dropWhile isBlank = []

structure Source where
  name : Name := {}
  layout : Name := {}
  version : Version := {}
  browsers : List Name := []
  error : QString := []
  description : QString := []
  depends : List Dependency := []
  deriving DecidableEq

/-- Why a line stops the search: an error with the object that it leaves, or an exception. -/
inductive Stop
  | refused (source : Source)
  | thrown (text : QString)
  deriving DecidableEq

namespace Source

def definedTwice (field : String) : QString := field.toList ++ " field cannot be defined more than once".toList

def refuse (error : QString) (s : Source) : Except Stop Source := .error (.refused { s with error })

/-- A field that is a name: the new name, or the error and the name that it leaves. -/
def setOnce (field : String) (value : QString) (n : Name) : Except (QString × Name) Name :=
  if n.name ≠ [] then .error (definedTwice field, n)
  else
    match n.setName value with
    | (true, n) => .ok n
    | (false, n) => .error (n.error, n)

def setName (value : QString) (s : Source) : Except Stop Source :=
  match setOnce "name" value s.name with
  | .ok name => .ok { s with name }
  | .error (error, name) => refuse error { s with name }

def setLayout (value : QString) (s : Source) : Except Stop Source :=
  match setOnce "layout" value s.layout with
  | .ok layout => .ok { s with layout }
  | .error (error, layout) => refuse error { s with layout }

def setVersion (value : QString) (s : Source) : Except Stop Source :=
  let (text, version) := s.version.getVersionString
  if text ≠ [] then refuse (definedTwice "version") { s with version }
  else
    match version.setVersionString value with
    | .ok (true, version) => .ok { s with version }
    | .ok (false, version) => refuse version.error { s with version }
    | .error text => .error (.thrown text)

def addBrowsers : List QString → Source → Except Stop Source
  | [], s => .ok s
  | text :: list, s =>
    match ({} : Name).setName (trimmed text) with
    | (true, browser) => addBrowsers list { s with browsers := s.browsers ++ [browser] }
    | (false, browser) => refuse browser.error s

def setBrowsers (value : QString) (s : Source) : Except Stop Source :=
  if s.browsers ≠ [] then refuse (definedTwice "browser") s else addBrowsers (value.splitOn ',') s

def setDescription (value : QString) (s : Source) : Except Stop Source :=
  if s.description ≠ [] then refuse (definedTwice "description") s else .ok { s with description := value }

/-- An entry of the list of dependencies. One that is refused is kept as well, with its error. -/
def addDependency (entry : QString) (s : Source) : Except Stop Source :=
  if entry = [] then .ok s
  else
    match ({} : Dependency).setDependency entry with
    | .ok d => .ok { s with depends := s.depends ++ [d] }
    | .error (.error error) => .ok { s with depends := s.depends ++ [{ error }] }
    | .error (.logic text) => .error (.thrown text)

/-- The loop over the characters of the list, with the depth of the parentheses and of the brackets and the entry so far. A NUL
    ends the list. -/
def addDependencies (paren brack : Int) (entry : QString) : QString → Source → Except Stop Source
  | [], s => if paren = 0 ∧ brack = 0 then addDependency entry s else refuse "depends field () or [] mismatch".toList s
  | c :: value, s =>
    if c = '(' then addDependencies (paren + 1) brack (entry ++ [c]) value s
    else if c = ')' then addDependencies (paren - 1) brack (entry ++ [c]) value s
    else if c = '[' then addDependencies paren (brack + 1) (entry ++ [c]) value s
    else if c = ']' then addDependencies paren (brack - 1) (entry ++ [c]) value s
    else if c = ',' ∧ paren = 0 ∧ brack = 0 then do
      let s ← addDependency entry s
      addDependencies paren brack [] value s
    else addDependencies paren brack (entry ++ [c]) value s

def setDepends (value : QString) (s : Source) : Except Stop Source :=
  if s.depends ≠ [] then refuse (definedTwice "depends") s
  else if value ≠ [] then addDependencies 0 0 [] (constData value) s
  else .ok s

/-- The fields other than the name, of which a line can set one. -/
def setOthers (line : QString) (s : Source) : Except Stop Source :=
  match check "LAYOUT".toList line with
  | some value => s.setLayout value
  | none =>
    match check "VERSION".toList line with
    | some value => s.setVersion value
    | none =>
      match check "BROWSERS".toList line with
      | some value => s.setBrowsers value
      | none =>
        match check "DESCRIPTION".toList line with
        | some value => s.setDescription value
        | none =>
          match check "DEPENDS".toList line with
          | some value => s.setDepends value
          | none => .ok s

/-- What the loop does with the fields of a line. -/
def readLine (s : Source) (line : QString) : Except Stop Source :=
  match check "NAME".toList line with
  | some value => do
    let s ← s.setName value
    s.setOthers line
  | none => s.setOthers line

/-- The end of the comment. -/
def finish (s : Source) : Bool × Source :=
  let (text, version) := s.version.getVersionString
  let s := { s with version }
  if text ≠ [] ∧ s.browsers = [] then (true, { s with browsers := [(({} : Name).setName "all".toList).2] })
  else (text ≠ [], s)

end Source

/-! ### The loop -/

/-- What `find_version()` returns, the object, and whether a character past the end of a line was read. -/
structure Found where
  result : Bool
  source : Source
  pastEnd : Bool
  deriving DecidableEq

/-- The loop, for a number of lines; nothing when it goes on. An exception is an error as well. -/
def findLoop : Nat → Bytes → QString → Source → Bool → Option (Except QString Found)
  | 0, _, _, _, _ => none
  | fuel + 1, data, line, s, pastEnd =>
    let pastEnd := pastEnd || readsPastEnd line
    match s.readLine line with
    | .error (.thrown text) => some (.error text)
    | .error (.refused source) => some (.ok { result := false, source, pastEnd })
    | .ok source =>
      if contains "*/".toList line then
        let (result, source) := source.finish
        some (.ok { result, source, pastEnd })
      else
        let (line, data) := getLine [] data
        findLoop fuel data line source pastEnd

def findVersion (fuel : Nat) (data : Bytes) (s : Source) : Option (Except QString Found) :=
  let (line, data) := getLine [] data
  if "/*".toList.isPrefixOf line then findLoop fuel data line s false
  else some (.ok {
    result := false, source := { s with error := "file does not start with a C-like comment".toList }, pastEnd := false })

/-! ### Exceptions -/

/-- A result that is not the exception of a branch that cannot be reached. -/
def NoLogic {α : Type} (x : Except Failure α) : Prop := ∀ text, x ≠ .error (.logic text)

namespace NoLogic
variable {α β : Type} {x : Except Failure α} {f : α → Except Failure β}

theorem ok (a : α) : NoLogic (.ok a : Except Failure α) := by
  rintro text ⟨⟩

theorem error (text : QString) : NoLogic (.error (.error text) : Except Failure α) := by
  rintro text ⟨⟩

theorem bind (hx : NoLogic x) (hf : ∀ a, x = .ok a → NoLogic (f a)) : NoLogic (x >>= f) := by
  cases x with
  | error e =>
    rintro text ⟨⟩
    exact hx text rfl
  | ok a => exact hf a rfl

theorem mapM {γ : Type} {g : γ → Except Failure α} (h : ∀ c, NoLogic (g c)) : ∀ l : List γ, NoLogic (l.mapM g)
  | [] => ok []
  | c :: l => by
    rw [List.mapM_cons]
    exact (h c).bind fun a _ => (mapM h l).bind fun b _ => ok _

end NoLogic

variable {s line versionString text : QString} {data raw : Bytes}

theorem getLast?_tail {c d : Char} (h : (c :: s).getLast? ≠ some d) : s.getLast? ≠ some d := by
  cases s with
  | nil => simp
  | cons x s =>
    rwa [List.getLast?_cons_cons] at h

theorem noLogic_readNumbers {value : Option VersionNumber} (h : s.getLast? ≠ some '.') :
    NoLogic (readNumbers versionString value s) := by
  fun_induction readNumbers versionString value s with
  | case1 => exact .ok _
  | case2 c s hc ih => exact ih (getLast?_tail h)
  | case3 => exact .error _
  | case4 => exact .ok _
  | case5 value c s hc ih => exact ih (getLast?_tail h)
  | case6 => exact .error _
  | case7 value c hc hdot =>
    rw [not_not.mp hdot] at h
    exact absurd rfl h
  | case8 value c s hc hdot hs ih =>
    intro text
    have hrest := ih (getLast?_tail h)
    cases hread : readNumbers versionString none s with
    | error e =>
      rintro ⟨⟩
      exact hrest text hread
    | ok rest => rintro ⟨⟩

theorem noLogic_validateVersion (s : QString) : NoLogic (validateVersion s) := by
  unfold validateVersion
  split
  · exact .error _
  · split
    · exact .error _
    · rename_i hdot
      intro text
      have hread : NoLogic (readNumbers s none s) := noLogic_readNumbers hdot
      cases hs : readNumbers s none s with
      | error e =>
        rintro ⟨⟩
        exact hread text hs
      | ok rest => rintro ⟨⟩

/-- `set_version_string()` does not throw. -/
theorem setVersionString_ne_error (v : Version) (s text : QString) : v.setVersionString s ≠ .error text := by
  unfold Version.setVersionString
  have hvalid := noLogic_validateVersion s
  split
  · rintro ⟨⟩
  · rintro ⟨⟩
  · rename_i t ht
    exact absurd ht (hvalid t)

theorem noLogic_readVersion (s : QString) : NoLogic (readVersion s) := by
  unfold readVersion
  split
  · exact .ok _
  · exact .error _
  · rename_i text h
    exact absurd h (setVersionString_ne_error _ _ text)

theorem noLogic_readOperator (s : QString) : NoLogic (readOperator s) := by
  unfold readOperator
  split
  · exact .ok _
  · exact .error _

theorem noLogic_rangeVersions {vo : VersionOperator} {vonly : QString} {v rhs : Version}
    (h : ¬ (vo.operator = .unordered ∨ vo.operator = .equal ∨ vo.operator = .except)) :
    NoLogic (rangeVersions vonly vo v rhs) := by
  have hguard : ∀ {p : Prop} [Decidable p] {a b : Version} {sign : String} {l : List Version},
      NoLogic (if p then Except.error (wrongOrder vonly a b sign) else .ok l) := by
    intro p _ a b sign l
    split
    · exact .error _
    · exact .ok _
  obtain ⟨op, error⟩ := vo
  unfold rangeVersions
  cases op
  case unordered | equal | except => simp at h
  all_goals exact hguard

theorem noLogic_readRange (vonly : QString) (vo : VersionOperator) (v : Version) (s : QString) :
    NoLogic (readRange vonly vo v s) := by
  unfold readRange
  split
  · split
    · exact .error _
    · refine (noLogic_readOperator _).bind fun vo _ => ?_
      simp only
      split
      · exact .error _
      · rename_i hop
        split
        · exact .error _
        · exact (noLogic_readVersion _).bind fun rhs _ => noLogic_rangeVersions hop
  · exact .ok _

theorem noLogic_readItem (vonly : QString) : NoLogic (readItem vonly) := by
  unfold readItem
  simp only
  split
  · exact (noLogic_readOperator _).bind fun vo _ => (noLogic_readVersion _).bind fun v _ => noLogic_readRange _ _ _ _
  · exact (noLogic_readVersion _).bind fun v _ => noLogic_readRange _ _ _ _

/-- `set_dependency()` does not throw. -/
theorem noLogic_setDependency (d : Dependency) (s : QString) : NoLogic (d.setDependency s) := by
  have hversions : ∀ d pos, NoLogic (Dependency.readVersions d pos) := by
    intro d pos
    unfold Dependency.readVersions
    split
    · simp only
      split
      · exact .error _
      · exact (NoLogic.mapM noLogic_readItem _).bind fun versions _ => .ok _
    · exact .ok _
  have hbrowser : ∀ bn, NoLogic (Dependency.readBrowser bn) := by
    intro bn
    unfold Dependency.readBrowser
    split
    · exact .ok _
    · exact .error _
  have hbrowsers : ∀ d pos, NoLogic (Dependency.readBrowsers d pos) := by
    intro d pos
    unfold Dependency.readBrowsers
    split
    · simp only
      split
      · exact .error _
      · exact (NoLogic.mapM hbrowser _).bind fun browsers _ => .ok _
    · exact .ok _
  unfold Dependency.setDependency
  simp only
  split
  · exact .error _
  · split
    · exact .error _
    · refine (hversions _ _).bind fun p _ => ?_
      refine (hbrowsers _ _).bind fun q _ => ?_
      split
      · exact .error _
      · exact .ok _

namespace Source

/-- What a line does is not an exception. -/
def NotThrown (x : Except Stop Source) : Prop := ∀ text, x ≠ .error (.thrown text)

variable {source : Source} {value : QString}

theorem notThrown_ok (s : Source) : NotThrown (.ok s) := by
  rintro text ⟨⟩

theorem notThrown_refuse (error : QString) (s : Source) : NotThrown (refuse error s) := by
  rintro text ⟨⟩

theorem notThrown_bind {x : Except Stop Source} {f : Source → Except Stop Source} (hx : NotThrown x) (hf : ∀ s, NotThrown (f s)) :
    NotThrown (x >>= f) := by
  cases x with
  | error e =>
    rintro text ⟨⟩
    exact hx text rfl
  | ok s => exact hf s

theorem notThrown_addBrowsers (list : List QString) (s : Source) : NotThrown (addBrowsers list s) := by
  fun_induction addBrowsers list s with
  | case1 => exact notThrown_ok _
  | case2 _ _ _ _ _ ih => exact ih
  | case3 => exact notThrown_refuse _ _

theorem notThrown_addDependency (entry : QString) (s : Source) : NotThrown (addDependency entry s) := by
  unfold addDependency
  split
  · exact notThrown_ok _
  · split
    · exact notThrown_ok _
    · exact notThrown_ok _
    · rename_i text h
      exact absurd h (noLogic_setDependency _ _ text)

theorem notThrown_addDependencies (paren brack : Int) (entry value : QString) (s : Source) :
    NotThrown (addDependencies paren brack entry value s) := by
  fun_induction addDependencies paren brack entry value s with
  | case1 => exact notThrown_addDependency _ _
  | case2 => exact notThrown_refuse _ _
  | case7 _ _ _ _ _ _ _ _ _ _ _ ih => exact notThrown_bind (notThrown_addDependency _ _) ih
  | case3 _ _ _ _ _ ih | case4 _ _ _ _ _ _ ih | case5 _ _ _ _ _ _ _ ih | case6 _ _ _ _ _ _ _ _ ih | case8 _ _ _ _ _ _ _ _ _ _ _ ih =>
    exact ih

theorem notThrown_setVersion (value : QString) (s : Source) : NotThrown (s.setVersion value) := by
  unfold setVersion
  simp only
  split
  · exact notThrown_refuse _ _
  · split
    · exact notThrown_ok _
    · exact notThrown_refuse _ _
    · rename_i text h
      exact absurd h (setVersionString_ne_error _ _ text)

theorem notThrown_setOthers (line : QString) (s : Source) : NotThrown (s.setOthers line) := by
  unfold setOthers
  split
  · unfold setLayout
    split
    · exact notThrown_ok _
    · exact notThrown_refuse _ _
  split
  · exact notThrown_setVersion _ _
  split
  · unfold setBrowsers
    split
    · exact notThrown_refuse _ _
    · exact notThrown_addBrowsers _ _
  split
  · unfold setDescription
    split
    · exact notThrown_refuse _ _
    · exact notThrown_ok _
  split
  · unfold setDepends
    split
    · exact notThrown_refuse _ _
    · split
      · exact notThrown_addDependencies _ _ _ _ _
      · exact notThrown_ok _
  · exact notThrown_ok _

/-- The fields of a line are kept or refused. -/
theorem notThrown_readLine (s : Source) (line : QString) : NotThrown (s.readLine line) := by
  unfold readLine
  split
  · refine notThrown_bind ?_ fun s => notThrown_setOthers _ s
    unfold setName
    split
    · exact notThrown_ok _
    · exact notThrown_refuse _ _
  · exact notThrown_setOthers _ _

end Source

/-! ### The lines of the data -/

/-- The lines that `get_line()` returns in front of the first empty one. -/
def lines (raw : Bytes) : Bytes → List QString
  | [] => if lineOf raw ≠ [] then [lineOf raw] else []
  | c :: data =>
    if c = 10 ∨ c = 13 then if lineOf raw ≠ [] then lineOf raw :: lines [] data else lines [] data
    else if c = 255 then if lineOf raw ≠ [] then lineOf raw :: lines [] data else []
    else lines (raw ++ [c]) data

theorem lines_eq (raw data : Bytes) :
    lines raw data = if (getLine raw data).1 ≠ [] then (getLine raw data).1 :: lines [] (getLine raw data).2 else [] := by
  fun_induction getLine raw data with
  | case1 raw =>
    rw [lines]
    rfl
  | case2 raw c data hc hline =>
    rw [lines, if_pos hc, if_pos hline]
    exact (if_pos hline).symm
  | case3 raw c data hc hline ih => rw [lines, if_pos hc, if_neg hline, ih]
  | case4 raw data hc => rw [lines, if_neg (by decide), if_pos rfl]
  | case5 raw c data hc heof ih => rw [lines, if_neg hc, if_neg heof, ih]

theorem exists_lineOf (raw data : Bytes) : ∃ raw', (getLine raw data).1 = lineOf raw' := by
  fun_induction getLine raw data with
  | case1 raw => exact ⟨raw, rfl⟩
  | case2 raw => exact ⟨raw, rfl⟩
  | case3 _ _ _ _ _ ih => exact ih
  | case4 raw => exact ⟨raw, rfl⟩
  | case5 _ _ _ _ _ ih => exact ih

theorem isSpace_of_isBlank {c : Char} (h : isBlank c) : isSpace c := by
  rcases Bool.or_eq_true_iff.mp h with h | h
  · rw [of_decide_eq_true h]
    decide
  · simp [isSpace, h]

/-- A line of the data that is not empty has a character behind its blanks. -/
theorem readsPastEnd_lineOf (h : lineOf raw ≠ []) : readsPastEnd (lineOf raw) = false := by
  cases hline : lineOf raw with
  | nil => exact absurd hline h
  | cons c s =>
    have hspace : isSpace c = false := head?_trimmed (s := fromCString raw) (by rw [← lineOf, hline]; rfl)
    have hblank : isBlank c = false := by
      rw [Bool.eq_false_iff]
      intro hc
      rw [isSpace_of_isBlank hc] at hspace
      cases hspace
    simp [readsPastEnd, hblank]

/-! ### The search -/

variable {source : Source} {fuel : Nat} {found : Found}

/-- A character that was read past the end stays read. -/
theorem pastEnd_findLoop (h : findLoop fuel data line source true = some (.ok found)) : found.pastEnd = true := by
  induction fuel generalizing data line source with
  | zero => cases h
  | succ fuel ih =>
    rw [findLoop, Bool.true_or] at h
    simp only at h
    split at h
    · cases h
    · cases h
      rfl
    · split at h
      · cases h
        rfl
      · exact ih h

/-- The search ends without reading past the end of a line. -/
def Ends (x : Nat → Option (Except QString Found)) : Prop := ∃ fuel found, x fuel = some (.ok found) ∧ found.pastEnd = false

/-- An empty line is read past its end. -/
theorem not_ends_nil (data : Bytes) (source : Source) : ¬ Ends fun fuel => findLoop fuel data [] source false := by
  rintro ⟨fuel, found, h, hpast⟩
  cases fuel with
  | zero => cases h
  | succ fuel =>
    have h : findLoop (fuel + 1) data [] source true = some (.ok found) := h
    rw [pastEnd_findLoop h] at hpast
    cases hpast

/-- One line of the search. -/
theorem ends_step (hline : readsPastEnd line = false) (data : Bytes) (source : Source) :
    (Ends fun fuel => findLoop fuel data line source false) ↔ (∃ s, source.readLine line = .error (.refused s)) ∨
      ∃ s, source.readLine line = .ok s ∧
        (contains "*/".toList line ∨ Ends fun fuel => findLoop fuel (getLine [] data).2 (getLine [] data).1 s false) := by
  constructor
  · rintro ⟨fuel, found, h, hpast⟩
    cases fuel with
    | zero => cases h
    | succ fuel =>
      simp only [findLoop, hline, Bool.or_false] at h
      split at h
      · cases h
      · rename_i s hs
        exact .inl ⟨s, hs⟩
      · rename_i s hs
        refine .inr ⟨s, hs, ?_⟩
        split at h
        · rename_i hcontains
          exact .inl hcontains
        · exact .inr ⟨fuel, found, h, hpast⟩
  · rintro (⟨s, hs⟩ | ⟨s, hs, hnext⟩)
    · refine ⟨1, { result := false, source := s, pastEnd := false }, ?_, rfl⟩
      simp only [findLoop, hline, Bool.or_false, hs]
    · by_cases hcontains : contains "*/".toList line = true
      · refine ⟨1, { result := s.finish.1, source := s.finish.2, pastEnd := false }, ?_, rfl⟩
        simp only [findLoop, hline, Bool.or_false, hs, hcontains, if_true]
      · obtain ⟨fuel, found, h, hpast⟩ := hnext.resolve_left hcontains
        refine ⟨fuel + 1, found, ?_, hpast⟩
        simp only [findLoop, hline, Bool.or_false, hs, hcontains]
        exact h

/-- Some line has the end of the comment, or the fields of the lines are not all accepted. -/
def Closed (source : Source) (list : List QString) : Prop :=
  (∃ line ∈ list, contains "*/".toList line) ∨ ∃ s, list.foldlM Source.readLine source = .error (.refused s)

theorem closed_cons {list : List QString} : Closed source (line :: list) ↔
    (∃ s, source.readLine line = .error (.refused s)) ∨
      ∃ s, source.readLine line = .ok s ∧ (contains "*/".toList line ∨ Closed s list) := by
  unfold Closed
  rw [List.foldlM_cons]
  cases hread : source.readLine line with
  | error stop =>
    cases stop with
    | thrown text => exact absurd hread (Source.notThrown_readLine _ _ text)
    | refused s =>
      refine iff_of_true (.inr ⟨s, rfl⟩) (.inl ⟨s, rfl⟩)
  | ok s =>
    have hbind : ∀ f : Source → Except Stop Source, (Except.ok s >>= f) = f s := fun f => rfl
    simp only [hbind, List.mem_cons, exists_eq_or_imp, or_assoc, Except.ok.injEq, reduceCtorEq, exists_false, false_or,
      exists_eq_left']

theorem ends_iff {list : List QString} (hne : lineOf raw ≠ []) (h : lines [] data = list) :
    (Ends fun fuel => findLoop fuel data (lineOf raw) source false) ↔ Closed source (lineOf raw :: list) := by
  induction list generalizing raw data source with
  | nil =>
    have hnext : (getLine [] data).1 = [] := by
      rw [lines_eq] at h
      by_contra hnext
      rw [if_pos hnext] at h
      cases h
    rw [ends_step (readsPastEnd_lineOf hne), closed_cons, hnext]
    have hnil : ∀ s, ¬ Closed s [] := by
      rintro s (⟨line, hline, -⟩ | ⟨t, ht⟩)
      · cases hline
      · cases ht
    simp only [not_ends_nil, hnil, or_false]
  | cons next list ih =>
    rw [lines_eq] at h
    split at h
    · rename_i hnext
      obtain ⟨hline, hlist⟩ := List.cons.inj h
      obtain ⟨raw', hraw⟩ := exists_lineOf [] data
      rw [hraw] at hnext hline
      have hrest : ∀ s, _ := fun s => @ih _ _ s hnext hlist
      rw [hline] at hrest
      rw [ends_step (readsPastEnd_lineOf hne), closed_cons, hraw, hline]
      simp only [hrest]
    · cases h

/-- Where the data ends inside the comment the search never returns. -/
theorem findLoop_nil (fuel : Nat) (source : Source) (pastEnd : Bool) : findLoop fuel [] [] source pastEnd = none := by
  induction fuel generalizing pastEnd with
  | zero => rfl
  | succ fuel ih => exact ih (pastEnd || readsPastEnd [])

end SnapVersion
end Snapwebsites
