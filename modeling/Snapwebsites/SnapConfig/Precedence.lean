import Snapwebsites.Lib.Trace
import Snapwebsites.SnapConfig.RoundTrip

/-! # Which value of a parameter wins

The main file, the override file and the calls that set parameters afterwards are merged into one map. Reading a
file and `set_parameter()` replace a value; `set_parameters()` is `std::map::insert()`, which keeps the one that
is there. The last call wins in all states just when no `set_parameters()` finds another value
(`precedence_iff`). -/

namespace Snapwebsites
namespace SnapConfig
open QString Trace

/-! ### Occurrences in a file -/

/-- The parameters that the lines set, with their sections, first to last. -/
def occurrencesFrom : Bytes → List Line → List (Bytes × Bytes)
  | _, [] => []
  | scope, .blank :: l => occurrencesFrom scope l
  | _, .sectionOf name :: l => occurrencesFrom (name ++ [0x3A, 0x3A]) l
  | scope, .parameter name value :: l => (scope ++ name, value) :: occurrencesFrom scope l

def occurrences (file : Bytes) : List (Bytes × Bytes) := occurrencesFrom [] ((pieces file).map lineOf)

theorem readPieces_parameters : ∀ (ps : List Bytes) (r : Reading),
    (readPieces r ps).parameters = r.parameters.insertAll (occurrencesFrom r.scope (ps.map lineOf))
  | [], _ => rfl
  | p :: ps, r => by
    have ih := readPieces_parameters ps (r.line (lineOf p))
    rw [List.map_cons]
    show (readPieces (r.line (lineOf p)) ps).parameters = _
    rw [ih]
    cases lineOf p <;> rfl

/-- What a file that is read adds to the parameters. -/
theorem actualReadConfigFile_ok {filename : QString} {file : Option Bytes} {m m' : Parameters} {found : Bool}
    (h : actualReadConfigFile filename file m = .ok (found, m')) :
    found = file.isSome ∧ m' = m.insertAll (file.elim [] occurrences) := by
  cases file with
  | none =>
    cases h
    exact ⟨rfl, rfl⟩
  | some b =>
    have haccepted : ∀ p ∈ pieces b, ¬ Refused p := by
      intro p hp hrefused
      obtain ⟨e, he⟩ := readLines_error filename 1 { parameters := m } ⟨p, hp, hrefused⟩
      rw [actualReadConfigFile, he] at h
      cases h
    rw [actualReadConfigFile, readLines_ok filename 1 _ haccepted, readPieces_parameters] at h
    cases h
    exact ⟨rfl, rfl⟩

/-! ### Reading both files -/

section
variable (files : QString → Option Bytes) (path configurationFilename overrideFilename : QString)

def isFullName : Bool := configurationFilename.any fun c => c = '.' || c = '/'

def mainFile : QString :=
  if isFullName configurationFilename then configurationFilename else path ++ '/' :: configurationFilename ++ ".conf".toList

/-- The file that is read second, if there is one. -/
def overrideFile : Option QString :=
  if isFullName configurationFilename then (if overrideFilename.isEmpty then none else some overrideFilename)
  else some (path ++ "/snapwebsites.d/".toList ++ configurationFilename ++ ".conf".toList)

/-- `read_config_file()` of a new object: whether the main file exists, and the parameters. The override file is only read when it
    does. -/
def readConfigFile : Except QString (Bool × Parameters) :=
  let main := mainFile path configurationFilename
  match actualReadConfigFile main (files main) ∅ with
  | .error e => .error e
  | .ok (false, m) => .ok (false, m)
  | .ok (true, m) =>
    match overrideFile path configurationFilename overrideFilename with
    | none => .ok (true, m)
    | some second =>
      match actualReadConfigFile second (files second) m with
      | .error e => .error e
      | .ok (_, m) => .ok (true, m)

/-- What the file of that name sets. -/
def fileOccurrences (name : Option QString) : List (Bytes × Bytes) := (name.bind files).elim [] occurrences

/-- The parameters of both files: the last occurrence in the override file, or else in the main file. -/
structure FromFiles (m : Parameters) : Prop where
  value : ∀ n, m.find? n = (SortedMap.lastIn n (fileOccurrences files (overrideFile path configurationFilename overrideFilename))).or
    (SortedMap.lastIn n (fileOccurrences files (some (mainFile path configurationFilename))))

variable {files path configurationFilename overrideFilename}

theorem readConfigFile_ok {m : Parameters} (h : readConfigFile files path configurationFilename overrideFilename = .ok (true, m)) :
    FromFiles files path configurationFilename overrideFilename m := by
  have hinsert : m = ((∅ : Parameters).insertAll (fileOccurrences files (some (mainFile path configurationFilename)))).insertAll
      (fileOccurrences files (overrideFile path configurationFilename overrideFilename)) := by
    dsimp only [readConfigFile] at h
    rcases hmain : actualReadConfigFile (mainFile path configurationFilename) (files (mainFile path configurationFilename)) ∅
      with e | ⟨found, m₁⟩
    · rw [hmain] at h
      cases h
    · obtain ⟨-, rfl⟩ := actualReadConfigFile_ok hmain
      rw [hmain] at h
      cases found with
      | false => cases h
      | true =>
        rcases hover : overrideFile path configurationFilename overrideFilename with _ | second
        · rw [hover] at h
          cases h
          rfl
        · rw [hover] at h
          dsimp only at h
          rcases hsecond : actualReadConfigFile second (files second)
            ((∅ : Parameters).insertAll ((files (mainFile path configurationFilename)).elim [] occurrences)) with e | ⟨found, m₂⟩
          · rw [hsecond] at h
            cases h
          · obtain ⟨-, rfl⟩ := actualReadConfigFile_ok hsecond
            rw [hsecond] at h
            cases h
            rfl
  constructor
  intro n
  rw [hinsert, SortedMap.find?_insertAll, SortedMap.find?_insertAll, SortedMap.find?_empty, Option.or_none]

end

/-! ### Calls -/

/-- A call after the files have been read. -/
inductive Call
  | setParameter (name value : Bytes)
  | setParameters (params : Parameters)

def call (m : Parameters) : Call → Parameters
  | .setParameter name value => m.insert name value
  | .setParameters params => m.insertMissing params.entries

def getParameter (m : Parameters) (name : Bytes) : Bytes := (m.find? name).getD []

/-- The value that a call gives to a name that it mentions. -/
def Call.value? (n : Bytes) : Call → Option Bytes
  | setParameter name value => if n = name then some value else none
  | setParameters params => params.find? n

def lastMention (n : Bytes) : List Call → Option Bytes
  | [] => none
  | c :: calls => (lastMention n calls).or (c.value? n)

/-- `set_parameters()` does not find another value of one of its names. -/
def Overrides (m : Parameters) : Call → Prop
  | .setParameter _ _ => True
  | .setParameters params => ∀ n v, params.find? n = some v → m.find? n = none ∨ m.find? n = some v

/-- The last call that mentions a name wins over what was there. -/
def LastWins (m : Parameters) (calls : List Call) : Prop :=
  ∀ n, getParameter (after call m calls) n = ((lastMention n calls).or (m.find? n)).getD []

theorem find?_call {m : Parameters} {c : Call} (h : Overrides m c) (n : Bytes) : (call m c).find? n = (c.value? n).or (m.find? n) := by
  cases c with
  | setParameter name value =>
    rw [call, SortedMap.find?_insert, Call.value?]
    split_ifs <;> rfl
  | setParameters params =>
    have hparams : SortedMap.lookupIn n params.entries = params.find? n := rfl
    rw [call, SortedMap.find?_insertMissing, hparams, Call.value?]
    cases hp : params.find? n with
    | none => exact Option.or_none
    | some v =>
      rcases h n v hp with hm | hm
      · rw [hm]
        rfl
      · rw [hm, Option.some_or]

/-- One call. -/
theorem overrides_of_lastWins {m : Parameters} {c : Call} (h : LastWins m [c]) : Overrides m c := by
  cases c with
  | setParameter name value => trivial
  | setParameters params =>
    intro n v hp
    have hn := h n
    have hparams : SortedMap.lookupIn n params.entries = params.find? n := rfl
    rw [after_cons, after_nil, call, getParameter, SortedMap.find?_insertMissing, hparams, lastMention, lastMention, Call.value?, hp] at hn
    cases hm : m.find? n with
    | none => exact .inl rfl
    | some w =>
      rw [hm] at hn
      exact .inr (congrArg some hn)

theorem lastWins_cons {m : Parameters} {c : Call} (h : Overrides m c) (calls : List Call) :
    LastWins m (c :: calls) ↔ LastWins (call m c) calls := by
  refine forall_congr' fun n => ?_
  rw [after_cons, lastMention, Option.or_assoc, find?_call h]

theorem lastWins_iff : ∀ (calls : List Call) (m : Parameters),
    (∀ pre post, calls = pre ++ post → LastWins m pre) ↔ Along call Overrides m calls
  | [], m => by
    refine ⟨fun _ => trivial, fun _ pre post heq n => ?_⟩
    rw [(List.append_eq_nil_iff.mp heq.symm).1]
    rfl
  | c :: calls, m => by
    constructor
    · intro h
      have hc := overrides_of_lastWins (h [c] calls rfl)
      refine ⟨hc, (lastWins_iff calls (call m c)).mp fun pre post heq => ?_⟩
      exact (lastWins_cons hc pre).mp (h (c :: pre) post (by rw [heq, List.cons_append]))
    · rintro ⟨hc, hrest⟩ pre post heq
      rcases List.cons_eq_append_iff.mp heq with ⟨rfl, -⟩ | ⟨pre', rfl, hpre⟩
      · exact fun n => rfl
      · exact (lastWins_cons hc pre').mpr ((lastWins_iff calls (call m c)).mpr hrest pre' post hpre)

/-- What `get_parameter()` gives after the calls, by the law: the last call, the override file, the main file, or nothing. -/
def expected (files : QString → Option Bytes) (path configurationFilename overrideFilename : QString) (calls : List Call) (n : Bytes) : Bytes :=
  (((lastMention n calls).or (SortedMap.lastIn n (fileOccurrences files (overrideFile path configurationFilename overrideFilename)))).or
    (SortedMap.lastIn n (fileOccurrences files (some (mainFile path configurationFilename))))).getD []

/-- After both files have been read, all states of a run of calls have the expected parameters just when no `set_parameters()` finds
    another value of one of its names. -/
theorem precedence_iff {files : QString → Option Bytes} {path configurationFilename overrideFilename : QString} {m : Parameters}
    (h : readConfigFile files path configurationFilename overrideFilename = .ok (true, m)) (calls : List Call) :
    (∀ pre post, calls = pre ++ post → ∀ n, getParameter (after call m pre) n =
        expected files path configurationFilename overrideFilename pre n) ↔
      Along call Overrides m calls := by
  rw [← lastWins_iff]
  have hlaw : ∀ pre n, expected files path configurationFilename overrideFilename pre n = ((lastMention n pre).or (m.find? n)).getD [] := by
    intro pre n
    rw [expected, Option.or_assoc, (readConfigFile_ok h).value]
  simp only [hlaw]
  rfl

/-- The file `a.conf` with the line `a=b`, and no other file. -/
def oneFile (name : QString) : Option Bytes := if name = "a.conf".toList then some [0x61, 0x3D, 0x62, 0x0A] else none

theorem readConfigFile_oneFile : readConfigFile oneFile [] "a.conf".toList [] = .ok (true, (∅ : Parameters).insert [0x61] [0x62]) := by
  have hline : readLine bufSize [0x61, 0x3D, 0x62, 0x0A] = ([0x61, 0x3D, 0x62, 0x0A], []) := by decide
  have hpieces : pieces [0x61, 0x3D, 0x62, 0x0A] = [[0x61, 0x3D, 0x62, 0x0A]] := by rw [pieces, hline, pieces]
  have hread : actualReadConfigFile "a.conf".toList (some [0x61, 0x3D, 0x62, 0x0A]) ∅ = .ok (true, (∅ : Parameters).insert [0x61] [0x62]) := by
    rw [actualReadConfigFile, hpieces]
    rfl
  have hmain : mainFile [] "a.conf".toList = "a.conf".toList := if_pos rfl
  have hfile : oneFile "a.conf".toList = some [0x61, 0x3D, 0x62, 0x0A] := if_pos rfl
  have hover : overrideFile [] "a.conf".toList [] = none := rfl
  dsimp only [readConfigFile]
  rw [hmain, hfile, hread, hover]

theorem precedence_iff_oneFile : (∀ pre post, [Call.setParameter [0x61] [0x63]] = pre ++ post → ∀ n,
      getParameter (after call ((∅ : Parameters).insert [0x61] [0x62]) pre) n = expected oneFile [] "a.conf".toList [] pre n) ↔
    Along call Overrides ((∅ : Parameters).insert [0x61] [0x62]) [Call.setParameter [0x61] [0x63]] :=
  precedence_iff readConfigFile_oneFile _

/-- The value of the file wins over the one that is given to `set_parameters()`. -/
theorem setParameters_keeps : ∃ m, readConfigFile oneFile [] "a.conf".toList [] = .ok (true, m) ∧
    getParameter (after call m [.setParameters ((∅ : Parameters).insert [0x61] [0x63])]) [0x61] ≠
      expected oneFile [] "a.conf".toList [] [.setParameters ((∅ : Parameters).insert [0x61] [0x63])] [0x61] := by
  refine ⟨_, readConfigFile_oneFile, ?_⟩
  have hexpected : expected oneFile [] "a.conf".toList [] [.setParameters ((∅ : Parameters).insert [0x61] [0x63])] [0x61] = [0x63] := by
    rw [expected, lastMention, lastMention, Option.none_or, Call.value?, SortedMap.find?_insert_self, Option.some_or, Option.some_or,
      Option.getD_some]
  rw [hexpected]
  decide

end SnapConfig
end Snapwebsites
