import Snapwebsites.Lib.Fallible
import Snapwebsites.SnapVersion.Version

/-! # Dependencies

`dependency::set_dependency()` and `dependency::get_dependency_string()`. The printed text leaves out the namespaces of the
browsers, and a number that is printed with a sign is refused. -/

namespace Snapwebsites
open QString

namespace QString

/-- `isspace()` of the C locale. -/
def isBlank (c : Char) : Bool := c = ' ' || (0x09 ≤ c.toNat && c.toNat ≤ 0x0D)

end QString

namespace SnapVersion

/-! ### Names -/

def nameError (text : String) (name : QString) : QString :=
  text.toList ++ " \"".toList ++ name ++ "\" is not valid.".toList

/-- The loop of `validate_basic_name()`: the character in front and the characters that are left. -/
def validateCharacters (name : QString) : Char → QString → Except QString Unit
  | c, [] =>
    if c = '-' then .error (nameError "a versioned name or browser cannot end with a dash (-) or a colon (:)." name)
    else .ok ()
  | p, c :: s =>
    if c = '-' then
      if p = '-' then
        .error (nameError "a name or browser versioned filename cannot include two dashes (--) one after another." name)
      else validateCharacters name c s
    else if c.isDigit || c.isLower then validateCharacters name c s
    else .error (nameError
      "a name or browser versioned filename can only include letters (a-z), digits (0-9), and dashes (-)." name)

def validateBasicName (name : QString) : Except QString Unit :=
  if units name < 2 then
    .error (nameError "the name or browser in a versioned filename must be at least two characters." name)
  else
    match name with
    | [] => .ok ()
    | c :: s =>
      if c.isLower then validateCharacters name c (c :: s)
      else .error (nameError "the name or browser of a versioned filename must start with a letter [a-z]." name)

/-- The texts in front of and behind the first "::". -/
def splitScope : QString → Option (QString × QString)
  | [] => none
  | c :: s => if "::".toList.isPrefixOf (c :: s) then some ([], s.tail) else (splitScope s).map fun p => (c :: p.1, p.2)

/-- The name and the namespace. -/
def validateName (name : QString) : Except QString (QString × QString) :=
  match splitScope name with
  | some (namespaceString, name) => do
    validateBasicName namespaceString
    validateBasicName name
    return (name, namespaceString)
  | none => do
    validateBasicName name
    return (name, [])

structure Name where
  name : QString := []
  namespaceString : QString := []
  error : QString := []
  deriving DecidableEq

/-- A refused text leaves the name. -/
def Name.setName (nameString : QString) (n : Name) : Bool × Name :=
  match validateName nameString with
  | .ok (name, namespaceString) => (true, { name, namespaceString })
  | .error error => (false, { n with error })

/-! ### Constraints -/

def isVersionCharacter (c : Char) : Bool := c.isDigit || c = '.'

/-- `set_operator_string()`, with the error that `set_dependency()` takes over. -/
def readOperator (s : QString) : Except Failure VersionOperator :=
  match ({} : VersionOperator).setOperatorString (trimmed (fromUtf8 s)) with
  | (true, vo) => .ok vo
  | (false, vo) => .error (.error vo.error)

/-- `set_version_string()` of a new version. -/
def readVersion (s : QString) : Except Failure Version :=
  match ({} : Version).setVersionString (fromUtf8 s) with
  | .ok (true, v) => .ok v
  | .ok (false, v) => .error (.error v.error)
  | .error text => .error (.logic text)

/-- The order of `compare_t`, for `>=` and `<=`. -/
def Compare.toInt : Compare → Int
  | .invalid => -2
  | .smaller => -1
  | .equal => 0
  | .larger => 1

def wrongOrder (vonly : QString) (v rhs : Version) (sign : String) : Failure :=
  .error ("versions are not in the correct order in range \"".toList ++ vonly ++ "\" since ".toList ++ v.getVersionString.1 ++
    sign.toList ++ rhs.getVersionString.1)

/-- The second switch: the two constraints of a range. -/
def rangeVersions (vonly : QString) (vo : VersionOperator) (v rhs : Version) : Except Failure (List Version) :=
  let upward (low high : Operator) :=
    let v := v.setOperator (vo.setOperator low)
    let rhs := rhs.setOperator (vo.setOperator high)
    if 0 ≤ (v.compare rhs).toInt then Except.error (wrongOrder vonly v rhs " >= ") else .ok [v, rhs]
  let downward (low high : Operator) :=
    let rhs := rhs.setOperator (vo.setOperator low)
    let v := v.setOperator (vo.setOperator high)
    if (v.compare rhs).toInt ≤ 0 then Except.error (wrongOrder vonly v rhs " <= ") else .ok [rhs, v]
  match vo.operator with
  | .earlier => upward .later .earlier
  | .earlierOrEqual => upward .laterOrEqual .earlierOrEqual
  | .later => downward .later .earlier
  | .laterOrEqual => downward .laterOrEqual .earlierOrEqual
  | _ => .error (.logic "unexpected operators in this second switch(range_op) statement".toList)

/-- What is behind the first version of a constraint: nothing, or an operator and a second version. -/
def readRange (vonly : QString) (vo : VersionOperator) (v : Version) (s : QString) : Except Failure (List Version) :=
  if s ≠ [] then
    if vo.operator ≠ .unordered then
      .error (.error ("a version specification in a dependency can only include one operator, two found in \"".toList ++ vonly ++
        "\" (missing ',' or ')' maybe?)".toList))
    else do
      let vo ← readOperator (s.takeWhile (!·.isDigit))
      let s := (s.dropWhile (!·.isDigit)).dropWhile isBlank
      if vo.operator = .unordered ∨ vo.operator = .equal ∨ vo.operator = .except then
        .error (.error ("unsupported operator \"".toList ++ operators vo.operator ++ "\" for a range".toList))
      else if s.dropWhile isVersionCharacter ≠ [] then
        .error (.error ("a version range can have two versions separated by an operator, \"".toList ++ vonly ++
          "\" is not valid".toList))
      else do
        let rhs ← readVersion (s.takeWhile isVersionCharacter)
        rangeVersions vonly vo v rhs
  else
    let vo := if vo.operator = .unordered then vo.setOperator .laterOrEqual else vo
    .ok [v.setOperator vo]

/-- One item of the list of versions, read as a C string. -/
def readItem (vonly : QString) : Except Failure (List Version) :=
  let s := constData vonly
  if s.takeWhile isVersionCharacter = [] then do
    let vo ← readOperator (s.takeWhile (!·.isDigit))
    let s := (s.dropWhile (!·.isDigit)).dropWhile isBlank
    let v ← readVersion (s.takeWhile isVersionCharacter)
    readRange vonly vo v ((s.dropWhile isVersionCharacter).dropWhile isBlank)
  else do
    let v ← readVersion (s.takeWhile isVersionCharacter)
    readRange vonly {} v ((s.dropWhile isVersionCharacter).dropWhile isBlank)

/-- The items of a list: what is between commas, without blanks around it, where something is left. -/
def items (list : QString) : List QString := ((splitParts ',' list).map trimmed).filter (· ≠ [])

/-! ### The class -/

structure Dependency where
  error : QString := []
  name : Name := {}
  versions : List Version := []
  browsers : List Name := []
  deriving DecidableEq

namespace Dependency

def skipBlanks (d : QString) (pos : Nat) : Nat := pos + ((d.drop pos).takeWhile isBlank).length

/-- The versions and the place behind them. -/
def readVersions (d : QString) (pos : Nat) : Except Failure (List Version × Nat) :=
  if d[pos]? = some '(' then
    let list := d.drop (pos + 1)
    let length := list.idxOf ')'
    if length = list.length then .error (.error "version dependency syntax error, ')' not found".toList)
    else do
      let versions ← (items (list.take length)).mapM readItem
      return (versions.flatten, skipBlanks d (pos + 1 + length + 1))
  else .ok ([], pos)

def readBrowser (bn : QString) : Except Failure Name :=
  match validateName bn with
  | .ok _ => .ok (({} : Name).setName bn).2
  | .error error => .error (.error error)

/-- The browsers and the place behind them. The "]" is searched from the start of the text, and `mid()` takes all that is left
    where it is in front of the list. -/
def readBrowsers (d : QString) (pos : Nat) : Except Failure (List Name × Nat) :=
  if d[pos]? = some '[' then
    let stop := d.idxOf ']'
    if stop = d.length then
      .error (.error "Invalid browser dependency list, the list of browsers must end with a ']'".toList)
    else do
      let list := d.drop (pos + 1)
      let browsers ← (items (if stop < pos + 1 then list else list.take (stop - (pos + 1)))).mapM readBrowser
      return (browsers, skipBlanks d (stop + 1))
  else .ok ([], pos)

/-- A refused text leaves an object that is not valid; what else it leaves is left out. -/
def setDependency (dependencyString : QString) (dependency : Dependency) : Except Failure Dependency :=
  let d := simplified dependencyString
  let spacePos := d.idxOf ' '
  let parenPos := d.idxOf '('
  let bracketPos := d.idxOf '['
  if parenPos ≠ d.length ∧ parenPos > bracketPos then
    .error (.error "version dependency syntax error, '[' found before '('".toList)
  else
    let pos := min spacePos (min parenPos bracketPos)
    let depName := d.take pos
    match validateName depName with
    | .error error => .error (.error error)
    | .ok _ => do
      let name := (dependency.name.setName depName).2
      let (versions, pos) ← readVersions d (skipBlanks d pos)
      let (browsers, pos) ← readBrowsers d pos
      if pos ≠ d.length then
        .error (.error ("left over data at the end of the dependency string \"".toList ++ dependencyString ++ "\"".toList))
      else
        .ok { error := [], name, versions := dependency.versions ++ versions, browsers := dependency.browsers ++ browsers }

/-- A list in brackets, with a blank in front; nothing for no items. -/
def printList (left : String) (right : String) : List QString → QString
  | [] => []
  | s :: list => left.toList ++ list.foldl (fun text t => text ++ ", ".toList ++ t) s ++ right.toList

def getDependencyString (d : Dependency) : QString :=
  (if d.name.namespaceString ≠ [] then d.name.namespaceString ++ "::".toList else []) ++ d.name.name ++
    printList " (" ")" (d.versions.map Version.getOpversionString) ++ printList " [" "]" (d.browsers.map Name.name)

end Dependency

/-! ### Names that are accepted -/

def isNameCharacter (c : Char) : Bool := c = '-' || c.isDigit || c.isLower

variable {name text : QString} {c : Char}

theorem validateCharacters_ok {p : Char} (h : validateCharacters name p text = .ok ()) : ∀ c ∈ text, isNameCharacter c := by
  fun_induction validateCharacters name p text with
  | case1 => cases h
  | case2 => simp
  | case3 => cases h
  | case4 _ _ _ ih =>
    intro x hx
    rcases List.mem_cons.mp hx with rfl | hx
    · rfl
    · exact ih h x hx
  | case5 _ c _ _ hc ih =>
    intro x hx
    rcases List.mem_cons.mp hx with rfl | hx
    · rw [isNameCharacter, Bool.or_assoc, hc, Bool.or_true]
    · exact ih h x hx
  | case6 => cases h

theorem validateBasicName_ok (h : validateBasicName name = .ok ()) : name ≠ [] ∧ ∀ c ∈ name, isNameCharacter c := by
  unfold validateBasicName at h
  split at h
  · cases h
  · rename_i hlength
    cases name with
    | nil => exact absurd Nat.two_pos hlength
    | cons c s =>
      refine ⟨List.cons_ne_nil _ _, ?_⟩
      simp only at h
      split at h
      · exact validateCharacters_ok h
      · cases h

theorem colon_notMem (h : validateBasicName name = .ok ()) : ':' ∉ name := fun hmem => by
  have := (validateBasicName_ok h).2 ':' hmem
  cases this

theorem splitScope_eq_none (h : ':' ∉ text) : splitScope text = none := by
  induction text with
  | nil => rfl
  | cons c s ih =>
    obtain ⟨hc, hs⟩ := not_or.mp (List.mem_cons.not.mp h)
    have hprefix : "::".toList.isPrefixOf (c :: s) = false := by
      rw [Bool.eq_false_iff]
      intro hp
      obtain ⟨t, ht⟩ := List.isPrefixOf_iff_prefix.mp hp
      exact hc (List.cons.inj ht).1
    rw [splitScope, hprefix, if_neg Bool.false_ne_true, ih hs]
    rfl

theorem splitScope_append (h : ':' ∉ name) (text : QString) : splitScope (name ++ "::".toList ++ text) = some (name, text) := by
  induction name with
  | nil => rfl
  | cons c s ih =>
    obtain ⟨hc, hs⟩ := not_or.mp (List.mem_cons.not.mp h)
    have hprefix : "::".toList.isPrefixOf (c :: (s ++ "::".toList ++ text)) = false := by
      rw [Bool.eq_false_iff]
      intro hp
      obtain ⟨t, ht⟩ := List.isPrefixOf_iff_prefix.mp hp
      exact hc (List.cons.inj ht).1
    rw [List.cons_append, List.cons_append, splitScope, hprefix, if_neg Bool.false_ne_true, ih hs]
    rfl

theorem eq_of_splitScope {a b : QString} (h : splitScope text = some (a, b)) : text = a ++ "::".toList ++ b := by
  induction text generalizing a with
  | nil => cases h
  | cons c s ih =>
    rw [splitScope] at h
    split at h
    · rename_i hp
      cases h
      obtain ⟨t, ht⟩ := List.isPrefixOf_iff_prefix.mp hp
      rw [← ht]
      obtain ⟨-, rfl⟩ := List.cons.inj ht
      rfl
    · cases hs : splitScope s with
      | none =>
        rw [hs] at h
        cases h
      | some p =>
        rw [hs] at h
        cases h
        rw [ih hs]
        rfl

namespace Name

/-- A name that was set. -/
structure Valid (n : Name) : Prop where
  error : n.error = []
  name : validateBasicName n.name = .ok ()
  namespaceString : n.namespaceString = [] ∨ validateBasicName n.namespaceString = .ok ()

/-- The text of a name with its namespace. -/
def fullName (n : Name) : QString :=
  (if n.namespaceString ≠ [] then n.namespaceString ++ "::".toList else []) ++ n.name

theorem validateName_fullName {n : Name} (h : n.Valid) : validateName n.fullName = .ok (n.name, n.namespaceString) := by
  have hname := h.name
  unfold validateName fullName
  rcases h.namespaceString with hnil | hvalid
  · have hnil' : ¬ n.namespaceString ≠ [] := not_not.mpr hnil
    rw [if_neg hnil', List.nil_append, splitScope_eq_none (colon_notMem hname), hname, hnil]
    rfl
  · rw [if_pos (validateBasicName_ok hvalid).1, splitScope_append (colon_notMem hvalid)]
    simp only [hvalid, hname]
    rfl

theorem setName_fullName {n : Name} (h : n.Valid) (m : Name) : m.setName n.fullName = (true, n) := by
  rw [setName, validateName_fullName h]
  obtain ⟨name, namespaceString, error⟩ := n
  have herror : error = [] := h.error
  rw [herror]

/-- The names that are accepted are the texts of valid names. -/
theorem exists_fullName {p : QString × QString} (h : validateName text = .ok p) : ∃ n : Name, n.Valid ∧ text = n.fullName := by
  unfold validateName at h
  split at h
  · rename_i namespaceString name hsplit
    cases hns : validateBasicName namespaceString with
    | error e =>
      rw [hns] at h
      cases h
    | ok _ =>
      cases hname : validateBasicName name with
      | error e =>
        rw [hns, hname] at h
        cases h
      | ok _ =>
        refine ⟨{ name, namespaceString }, ⟨rfl, hname, .inr hns⟩, ?_⟩
        rw [eq_of_splitScope hsplit, fullName, if_pos (validateBasicName_ok hns).1]
  · cases hname : validateBasicName text with
    | error e =>
      rw [hname] at h
      cases h
    | ok _ => exact ⟨{ name := text }, ⟨rfl, hname, .inl rfl⟩, rfl⟩

theorem mem_fullName {n : Name} (h : n.Valid) (hc : c ∈ n.fullName) : isNameCharacter c ∨ c = ':' := by
  rcases List.mem_append.mp hc with hc | hc
  · rcases h.namespaceString with hnil | hvalid
    · simp [hnil] at hc
    · rw [if_pos (validateBasicName_ok hvalid).1] at hc
      rcases List.mem_append.mp hc with hc | hc
      · exact .inl ((validateBasicName_ok hvalid).2 c hc)
      · exact .inr (by simpa using hc)
  · exact .inl ((validateBasicName_ok h.name).2 c hc)

theorem fullName_ne_nil {n : Name} (h : n.Valid) : n.fullName ≠ [] :=
  List.append_ne_nil_of_right_ne_nil _ (validateBasicName_ok h.name).1

/-- A colon stands in the text of a name with a namespace. -/
theorem colon_mem_fullName {n : Name} (h : n.Valid) : ':' ∈ n.fullName ↔ n.namespaceString ≠ [] := by
  constructor
  · intro hmem hnil
    rw [fullName, if_neg (not_not.mpr hnil)] at hmem
    exact colon_notMem h.name hmem
  · intro hne
    rw [fullName, if_pos hne]
    simp

end Name

/-! ### The numbers of a text -/

/-- The numbers that the digits of a text make. -/
def numbersOf (s : QString) : List ℕ := numbers ((s.splitOnP (!·.isDigit)).filter (· ≠ []))

variable {s t : QString} {parts : List QString}

theorem numbersOf_append_cons (s t : QString) (hc : c.isDigit = false) : numbersOf (s ++ c :: t) = numbersOf s ++ numbersOf t := by
  have hsep : (!c.isDigit) = true := by rw [hc, Bool.not_false]
  rw [numbersOf, List.splitOnP_append_cons (p := fun c => !c.isDigit) s t hsep, List.filter_append, numbers, List.map_append]
  rfl

theorem numbersOf_cons (t : QString) (hc : c.isDigit = false) : numbersOf (c :: t) = numbersOf t := numbersOf_append_cons [] t hc

theorem numbersOf_append (s : QString) (h : ∀ c, t.head? = some c → c.isDigit = false) :
    numbersOf (s ++ t) = numbersOf s ++ numbersOf t := by
  cases t with
  | nil =>
    rw [List.append_nil]
    exact (List.append_nil _).symm
  | cons c t => rw [numbersOf_append_cons s t (h c rfl), numbersOf_cons t (h c rfl)]

theorem numbersOf_dropWhile {p : Char → Bool} (h : ∀ c, p c → c.isDigit = false) (s : QString) :
    numbersOf (s.dropWhile p) = numbersOf s := by
  induction s with
  | nil => rfl
  | cons c s ih =>
    rw [List.dropWhile_cons]
    split
    · rename_i hc
      rw [ih, numbersOf_cons s (h c hc)]
    · rfl

theorem numbersOf_digits (hs : s ≠ []) (h : ∀ c ∈ s, c.isDigit) : numbersOf s = [Nat.ofDigitChars 10 s 0] := by
  have hfilter : [s].filter (· ≠ []) = [s] := by simp [hs]
  rw [numbersOf, List.splitOnP_eq_singleton fun c hc => by rw [h c hc, Bool.not_true], hfilter]
  rfl

theorem numbersOf_join (h : IsVersion parts) : numbersOf (join '.' parts) = numbers parts := by
  induction parts with
  | nil => exact absurd rfl h.ne_nil
  | cons s parts ih =>
    obtain ⟨hs, hdigits⟩ := h.digits s List.mem_cons_self
    cases parts with
    | nil =>
      rw [join, List.intercalate_singleton]
      exact numbersOf_digits hs hdigits
    | cons t parts =>
      rw [join_cons_cons, numbersOf_append_cons _ _ (by decide), ih h.tail, numbersOf_digits hs hdigits]
      rfl

/-! ### Constraints that are accepted -/

/-- A version that `set_dependency()` keeps. -/
structure IsConstraint (v : Version) (op : Operator) (parts : List QString) : Prop where
  isVersion : IsVersion parts
  operator : op ≠ .unordered
  eq : v = { version := stored parts, operator := { operator := op } }

theorem validateOperator_ok {op : Operator} (h : validateOperator s = .ok op) :
    op ≠ .unordered ∧ ∀ c ∈ s, c ∈ ['=', '!', '<', '>'] := by
  revert h
  unfold validateOperator
  split_ifs with h₁ h₂ h₃ h₄ h₅ h₆ <;> intro h <;> cases h
  · exact ⟨by decide, by rcases h₁ with rfl | rfl <;> decide⟩
  · exact ⟨by decide, by rcases h₂ with rfl | rfl <;> decide⟩
  · exact ⟨by decide, by rw [h₃]; decide⟩
  · exact ⟨by decide, by rw [h₄]; decide⟩
  · exact ⟨by decide, by rw [h₅]; decide⟩
  · exact ⟨by decide, by rw [h₆]; decide⟩

theorem readOperator_eq {op : Operator} (h : validateOperator (trimmed (fromUtf8 s)) = .ok op) :
    readOperator s = .ok { operator := op } := by
  rw [readOperator, VersionOperator.setOperatorString, h]

theorem readOperator_ok {vo : VersionOperator} (h : readOperator s = .ok vo) :
    ∃ op, validateOperator (trimmed (fromUtf8 s)) = .ok op ∧ vo = { operator := op } := by
  cases hop : validateOperator (trimmed (fromUtf8 s)) with
  | error e => simp [readOperator, VersionOperator.setOperatorString, hop] at h
  | ok op =>
    rw [readOperator_eq hop] at h
    cases h
    exact ⟨op, rfl, rfl⟩

theorem readVersion_join (h : IsVersion parts) (hs : fromUtf8 s = join '.' parts) : readVersion s = .ok (Version.ofParts parts) := by
  rw [readVersion, hs, setVersionString_join h]
  rfl

theorem fromUtf8_takeWhile (s : QString) : fromUtf8 (s.takeWhile isVersionCharacter) = s.takeWhile isVersionCharacter := by
  refine fromUtf8_eq_self fun h => ?_
  have hmem := List.mem_takeWhile_imp (List.mem_of_head? h)
  cases hmem

theorem readVersion_ok {v : Version} (h : readVersion (s.takeWhile isVersionCharacter) = .ok v) :
    ∃ parts, IsVersion parts ∧ s.takeWhile isVersionCharacter = join '.' parts ∧ v = Version.ofParts parts := by
  unfold readVersion at h
  rw [fromUtf8_takeWhile] at h
  split at h
  · rename_i w hw
    obtain ⟨parts, hparts, hs, rfl⟩ := setVersionString_ok hw
    cases h
    exact ⟨parts, hparts, hs, rfl⟩
  · cases h
  · cases h

theorem digit_of_blank (hc : isBlank c) : c.isDigit = false := by
  rw [Bool.eq_false_iff]
  intro hdigit
  have hnat : 48 ≤ c.toNat ∧ c.toNat ≤ 57 := Char.isDigit_iff_toNat.mp hdigit
  have hne : c ≠ ' ' := by
    rintro rfl
    cases hdigit
  simp [isBlank, hne] at hc
  omega

/-- The version that is read has the numbers of the text in front of what is left. -/
theorem numbersOf_version (s : QString) : numbersOf s =
    numbersOf (s.takeWhile isVersionCharacter) ++ numbersOf ((s.dropWhile isVersionCharacter).dropWhile isBlank) := by
  have hhead : ∀ c, (s.dropWhile isVersionCharacter).head? = some c → c.isDigit = false := by
    intro c hc
    have hnot := List.head?_dropWhile_not isVersionCharacter s
    rw [hc] at hnot
    simp [isVersionCharacter] at hnot
    exact hnot.1
  conv_lhs => rw [← List.takeWhile_append_dropWhile (p := isVersionCharacter) (l := s)]
  rw [numbersOf_append _ hhead, numbersOf_dropWhile fun c => digit_of_blank]

/-- Versions that are kept, and the numbers that they come from. -/
structure Kept (versions : List Version) (l : List ℕ) : Prop where
  constraints : ∀ v ∈ versions, ∃ op parts, IsConstraint v op parts
  nonneg : (∀ v ∈ versions, ∀ n ∈ v.version, 0 ≤ n.toInt) ↔ ∀ n ∈ l, 0 ≤ int n

namespace Kept
variable {v w : Version} {versions rest : List Version} {l m : List ℕ}

theorem nil : Kept [] [] := ⟨by simp, by simp⟩

theorem append (h : Kept versions l) (h' : Kept rest m) : Kept (versions ++ rest) (l ++ m) := by
  refine ⟨fun v hv => (List.mem_append.mp hv).elim (h.constraints v) (h'.constraints v), ?_⟩
  rw [List.forall_mem_append, List.forall_mem_append, h.nonneg, h'.nonneg]

theorem single {op : Operator} (hop : op ≠ .unordered) (h : IsVersion parts) {vo : VersionOperator} (hvo : vo = { operator := op }) :
    Kept [(Version.ofParts parts).setOperator vo] (numbers parts) := by
  subst hvo
  refine ⟨fun v hv => ⟨op, parts, h, hop, List.mem_singleton.mp hv⟩, ?_⟩
  rw [List.forall_mem_singleton]
  exact nonneg_stored parts

theorem swap (h : Kept [v, w] l) : Kept [w, v] l := by
  refine ⟨fun x hx => h.constraints x (by simpa [or_comm] using hx), ?_⟩
  rw [← h.nonneg]
  simp [and_comm]

end Kept

theorem mem_dropWhile {p : Char → Bool} (hc : c ∈ s) (hp : p c = false) : c ∈ s.dropWhile p := by
  rw [← List.takeWhile_append_dropWhile (p := p) (l := s)] at hc
  rcases List.mem_append.mp hc with hc | hc
  · rw [List.mem_takeWhile_imp hc] at hp
    cases hp
  · exact hc

theorem mem_trimmed (hc : c ∈ s) (hp : isSpace c = false) : c ∈ trimmed s := by
  rw [trimmed, List.rdropWhile, List.mem_reverse]
  exact mem_dropWhile (List.mem_reverse.mpr (mem_dropWhile hc hp)) hp

/-- An operator has no dash. -/
theorem dash_notMem_operator {op : Operator} (h : validateOperator (trimmed (fromUtf8 s)) = .ok op) : '-' ∉ s := by
  intro hmem
  have hmem' : '-' ∈ fromUtf8 s := by
    cases s with
    | nil => exact hmem
    | cons c s =>
      rw [fromUtf8]
      split
      · rename_i hc
        refine (List.mem_cons.mp hmem).resolve_left fun h => ?_
        rw [← h] at hc
        cases hc
      · exact hmem
  have hop := (validateOperator_ok h).2 '-' (mem_trimmed hmem' (by decide))
  revert hop
  decide

theorem dash_notMem_join (h : IsVersion parts) : '-' ∉ join '.' parts := by
  intro hmem
  rcases mem_join hmem with hdot | ⟨s, hs, hmem⟩
  · cases hdot
  · have hdigit := (h.digits s hs).2 '-' hmem
    cases hdigit

theorem eq_of_guard {α : Type} {p : Prop} [Decidable p] {e : Failure} {a b : α}
    (h : (if p then Except.error e else .ok a) = .ok b) : a = b := by
  split at h
  · cases h
  · exact Except.ok.inj h

theorem rangeVersions_ok {op : Operator} {vonly : QString} {p q : List QString} {versions : List Version} (hp : IsVersion p)
    (hq : IsVersion q) (h : rangeVersions vonly { operator := op } (Version.ofParts p) (Version.ofParts q) = .ok versions) :
    Kept versions (numbers p ++ numbers q) := by
  have hboth : ∀ {low high : Operator}, low ≠ .unordered → high ≠ .unordered →
      Kept [(Version.ofParts p).setOperator { operator := low }, (Version.ofParts q).setOperator { operator := high }]
        (numbers p ++ numbers q) := fun hlow hhigh =>
    (Kept.single hlow hp rfl).append (Kept.single hhigh hq rfl)
  revert h
  unfold rangeVersions
  cases op <;> simp only [VersionOperator.setOperator] <;> intro h
  case earlier | earlierOrEqual =>
    rw [← eq_of_guard h]
    exact hboth (by decide) (by decide)
  case later | laterOrEqual =>
    rw [← eq_of_guard h]
    exact (hboth (by decide) (by decide)).swap
  all_goals cases h

theorem numbersOf_operator (s : QString) : numbersOf ((s.dropWhile (!·.isDigit)).dropWhile isBlank) = numbersOf s := by
  rw [numbersOf_dropWhile fun c => digit_of_blank, numbersOf_dropWhile fun c hc => by simpa using hc]

theorem dash_mem_operator (hs : '-' ∈ s) (h : '-' ∉ s.takeWhile (!·.isDigit)) :
    '-' ∈ (s.dropWhile (!·.isDigit)).dropWhile isBlank := by
  rw [← List.takeWhile_append_dropWhile (p := (!·.isDigit)) (l := s)] at hs
  exact mem_dropWhile ((List.mem_append.mp hs).resolve_left h) (by decide)

/-- What is behind the first version of a constraint. -/
theorem readRange_ok {op : Operator} {vonly : QString} {versions : List Version} (h : IsVersion parts)
    (hread : readRange vonly { operator := op } (Version.ofParts parts) s = .ok versions) :
    Kept versions (numbers parts ++ numbersOf s) ∧ '-' ∉ s := by
  unfold readRange at hread
  split at hread
  · split at hread
    · cases hread
    · obtain ⟨vo, hvo, hread⟩ := Fallible.bind_eq_ok.mp hread
      obtain ⟨op', hop, rfl⟩ := readOperator_ok hvo
      simp only at hread
      split at hread
      · cases hread
      · split at hread
        · cases hread
        · rename_i hrest
          obtain ⟨rhs, hrhs, hread⟩ := Fallible.bind_eq_ok.mp hread
          obtain ⟨q, hq, htext, rfl⟩ := readVersion_ok hrhs
          have hall := List.takeWhile_append_dropWhile (p := isVersionCharacter)
            (l := (s.dropWhile (!·.isDigit)).dropWhile isBlank)
          rw [not_not.mp hrest, List.append_nil, htext] at hall
          refine ⟨?_, fun hdash => ?_⟩
          · rw [← numbersOf_operator s, ← hall, numbersOf_join hq]
            exact rangeVersions_ok h hq hread
          · have hmem := dash_mem_operator hdash (dash_notMem_operator hop)
            rw [← hall] at hmem
            exact dash_notMem_join hq hmem
  · rename_i hs
    rw [not_not.mp hs]
    cases hread
    refine ⟨?_, by simp⟩
    have hnone : numbersOf [] = [] := rfl
    rw [hnone, List.append_nil]
    by_cases hop : op = .unordered
    · rw [if_pos hop]
      exact Kept.single (show Operator.laterOrEqual ≠ .unordered by decide) h rfl
    · rw [if_neg hop]
      exact Kept.single hop h rfl

/-- One item of the list of versions. -/
theorem readItem_ok {vonly : QString} {versions : List Version} (h : readItem vonly = .ok versions) :
    Kept versions (numbersOf (constData vonly)) ∧ '-' ∉ constData vonly := by
  -- the version at the start of a text and what is behind it
  have hversion : ∀ {op : Operator} {s : QString} {v : Version}, readVersion (s.takeWhile isVersionCharacter) = .ok v →
      readRange vonly { operator := op } v ((s.dropWhile isVersionCharacter).dropWhile isBlank) = .ok versions →
      Kept versions (numbersOf s) ∧ '-' ∉ s := by
    intro op s v hv hrange
    obtain ⟨parts, hparts, htext, rfl⟩ := readVersion_ok hv
    obtain ⟨hkept, hdash⟩ := readRange_ok hparts hrange
    rw [numbersOf_version, htext, numbersOf_join hparts]
    refine ⟨hkept, fun hmem => ?_⟩
    rw [← List.takeWhile_append_dropWhile (p := isVersionCharacter) (l := s), htext] at hmem
    rcases List.mem_append.mp hmem with hmem | hmem
    · exact dash_notMem_join hparts hmem
    · exact hdash (mem_dropWhile hmem (by decide))
  unfold readItem at h
  simp only at h
  split at h
  · obtain ⟨vo, hvo, h⟩ := Fallible.bind_eq_ok.mp h
    obtain ⟨op, hop, rfl⟩ := readOperator_ok hvo
    obtain ⟨v, hv, h⟩ := Fallible.bind_eq_ok.mp h
    obtain ⟨hkept, hdash⟩ := hversion hv h
    rw [numbersOf_operator] at hkept
    exact ⟨hkept, fun hmem => hdash (dash_mem_operator hmem (dash_notMem_operator hop))⟩
  · obtain ⟨v, hv, h⟩ := Fallible.bind_eq_ok.mp h
    exact hversion hv h

end SnapVersion
end Snapwebsites
