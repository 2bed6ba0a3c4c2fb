import Snapwebsites.Lib.SortedMap
import Snapwebsites.SnapUri.Codec

/-! # Weighted HTTP strings

`WeightedHttpString` parses lists such as `fr; q=0.8, en; q=0.5` and prints them. The parser goes over the UTF-8 of the text; the
scanner is written for any units of a text, as over its characters it gives the same. -/

namespace Snapwebsites

namespace HttpStrings
open QString

/-! ### Qt -/

/-- What Qt does for the class: `QString::toFloat()`, with the comparison of a level and 0.0 and the level 1.0, and
    `QChar::digitValue()`. -/
structure Qt (L : Type) where
  toFloat : QString → Option L
  nonNegative : L → Bool
  one : L
  digitValue : Char → Option Nat
  digitValue_digit : ∀ n < 10, digitValue (Char.ofNat (0x30 + n)) = some n
  digitValue_ascii : ∀ c : Char, c.toNat < 0x80 → c.isDigit = false → digitValue c = none

variable {L : Type} (qt : Qt L)

/-- The number of a place marker behind `%` and an optional `L`, and the length of the marker. -/
def markerNumber (start : Nat) : QString → Option (Nat × Nat)
  | [] => none
  | c :: s =>
    match qt.digitValue c with
    | none => none
    | some d =>
      match s with
      | [] => some (d, start + 1)
      | c :: _ =>
        match qt.digitValue c with
        | none => some (d, start + 1)
        | some d' => some (d * 10 + d', start + 2)

/-- The place marker that a text starts with. -/
def marker : QString → Option (Nat × Nat)
  | [] => none
  | c :: s =>
    if c = '%' then (if s.head? = some 'L' then markerNumber qt 2 s.tail else markerNumber qt 1 s)
    else none

def lowestMarker : QString → Option Nat
  | [] => none
  | c :: s =>
    match marker qt (c :: s) with
    | none => lowestMarker s
    | some (n, _) => some ((lowestMarker s).elim n (min n))

/-- The text with its markers of one number replaced; the counter is what is left of a marker. -/
def replaceMarker (n : Nat) (a : QString) : Nat → QString → QString
  | _, [] => []
  | k + 1, _ :: s => replaceMarker n a k s
  | 0, c :: s =>
    match marker qt (c :: s) with
    | none => c :: replaceMarker n a 0 s
    | some (m, length) => if m = n then a ++ replaceMarker n a (length - 1) s else c :: replaceMarker n a 0 s

/-- `QString::arg()`: the lowest place marker is replaced wherever it stands. -/
def arg (s a : QString) : QString :=
  match lowestMarker qt s with
  | none => s
  | some n => replaceMarker qt n a 0 s

/-! ### Parts -/

/-- `part_t`. -/
@[ext] structure Part (L : Type) where
  name : QString
  value : QString := []
  level : L
  param : SortedMap QString QString := ∅
  deriving DecidableEq

def addParameter (part : Part L) (name value : QString) : Part L := { part with param := part.param.insert name value }

def parameterToString (e : QString × QString) : QString :=
  if e.2 ≠ [] then arg qt (arg qt "%1=%2".toList e.1) e.2 else e.1

def partToString (part : Part L) : QString :=
  part.param.entries.foldl (fun result e => arg qt (arg qt "%1; %2".toList result) (parameterToString qt e)) part.name

def toString (parts : List (Part L)) : QString :=
  parts.foldl (fun result part => (if result ≠ [] then result ++ ", ".toList else result) ++ partToString qt part) []

/-! ### The scanner -/

/-- The units of a text: their codes, and what a run of them stands for. -/
structure Units (α : Type) where
  code : α → Nat
  text : List α → QString
  text_nil : text [] = []

/-- The bytes that the source goes over. -/
def bytes : Units UInt8 where
  code := UInt8.toNat
  text := fun b => fromUtf8 (decodeUtf8 0 b)
  text_nil := rfl

section
variable {α : Type} (u : Units α)

/-- `*s`, which is NUL at the end. -/
def peek (s : List α) : Nat := (s.head?.map u.code).getD 0

def skip (l : List Char) (s : List α) : List α := s.dropWhile fun x => l.any fun c => c.toNat = u.code x

/-- The units in front of the first one of these characters. -/
def before (l : List Char) (s : List α) : List α := s.takeWhile fun x => u.code x ≠ 0 && l.all fun c => c.toNat ≠ u.code x

def behind (l : List Char) (s : List α) : List α := s.dropWhile fun x => u.code x ≠ 0 && l.all fun c => c.toNat ≠ u.code x

def blanks : List Char := [' ', '\t']

/-- `std::isspace()` or a comma. -/
def separators : List Char := [' ', '\t', '\n', '\x0b', '\x0c', '\r', ',']

/-- A value behind its opening quote and what stands behind it; the closing quote can be missing. -/
def readQuoted (quote : Char) (quoted : QString → QString) (s : List α) : QString × List α :=
  let rest := behind u [quote] s
  (quoted (u.text (before u [quote] s)), skip u blanks (if peek u rest = quote.toNat then rest.tail else rest))

/-- A value behind its equal sign and what stands behind it; what is quoted is taken as `quoted` says. -/
def readValue (quoted : QString → QString) (s : List α) : QString × List α :=
  let s := skip u blanks s
  if peek u s = '"'.toNat then readQuoted u '"' quoted s.tail
  else if peek u s = '\''.toNat then readQuoted u '\'' quoted s.tail
  else (simplified (u.text (before u [';', ','] s)), behind u [';', ','] s)

/-- The parameter "q". -/
def setLevel (part : Part L) (value : QString) : Part L × QString :=
  match qt.toFloat value with
  | some level =>
    if qt.nonNegative level then ({ part with level }, [])
    else (part, "the quality value (q=...) cannot be a negative number.\n".toList)
  | none => (part, "the quality value (q=...) is not a valid floating point.\n".toList)

/-- A parameter behind its name. -/
def readNamed (part : Part L) (name : QString) (s : List α) : Part L × QString × List α :=
  let value := if peek u s = '='.toNat then readValue u trimmed s.tail else ([], s)
  let part := addParameter part name value.1
  if name = ['q'] then ((setLevel qt part value.1).1, (setLevel qt part value.1).2, value.2)
  else (part, [], value.2)

/-- The entry of a character that cannot stand behind a parameter is left out. -/
def skipSpurious (r : Part L × QString × List α) : Part L × QString × List α :=
  if peek u r.2.2 ≠ 0 ∧ peek u r.2.2 ≠ ';'.toNat ∧ peek u r.2.2 ≠ ','.toNat then
    (r.1, r.2.1 ++ "found a spurious character in a weighted string.\n".toList, behind u [',', ';'] r.2.2.tail)
  else r

/-- A parameter behind the semicolon in front of it. -/
def readParameter (part : Part L) (s : List α) : Part L × QString × List α :=
  let s := skip u [';', ' ', '\t'] s
  let name := simplified (u.text (before u [',', ';', '='] s))
  let s := behind u [',', ';', '='] s
  skipSpurious u (if name = [] then (part, [], s) else readNamed qt u part name s)

variable {u} {s : List α}

theorem length_skip (l : List Char) (s : List α) : (skip u l s).length ≤ s.length := (List.dropWhile_sublist _).length_le

theorem length_behind (l : List Char) (s : List α) : (behind u l s).length ≤ s.length := (List.dropWhile_sublist _).length_le

theorem length_tail_le (s : List α) : s.tail.length ≤ s.length := by
  rw [List.length_tail]
  exact Nat.sub_le _ _

theorem length_readQuoted (quote : Char) (quoted : QString → QString) (s : List α) :
    (readQuoted u quote quoted s).2.length ≤ s.length := by
  refine (length_skip _ _).trans ?_
  split
  · exact (length_tail_le _).trans (length_behind _ _)
  · exact length_behind _ _

theorem length_readValue (quoted : QString → QString) (s : List α) : (readValue u quoted s).2.length ≤ s.length := by
  have hskip : (skip u blanks s).length ≤ s.length := length_skip blanks s
  rw [readValue]
  split
  · exact (length_readQuoted _ _ _).trans ((length_tail_le _).trans hskip)
  · split
    · exact (length_readQuoted _ _ _).trans ((length_tail_le _).trans hskip)
    · exact (length_behind _ _).trans hskip

theorem length_readNamed (part : Part L) (name : QString) (s : List α) : (readNamed qt u part name s).2.2.length ≤ s.length := by
  have hvalue : (if peek u s = '='.toNat then readValue u trimmed s.tail else ([], s)).2.length ≤ s.length := by
    split
    · exact (length_readValue _ _).trans (length_tail_le s)
    · exact le_refl _
  rw [readNamed]
  split
  · exact hvalue
  · exact hvalue

theorem length_skipSpurious (r : Part L × QString × List α) : (skipSpurious u r).2.2.length ≤ r.2.2.length := by
  rw [skipSpurious]
  split
  · exact (length_behind _ _).trans (length_tail_le _)
  · exact le_refl _

theorem length_readParameter (part : Part L) (s : List α) : (readParameter qt u part s).2.2.length ≤ s.length := by
  have hname : (behind u [',', ';', '='] (skip u [';', ' ', '\t'] s)).length ≤ s.length :=
    (length_behind _ _).trans (length_skip _ _)
  refine (length_skipSpurious _).trans ?_
  split
  · exact hname
  · exact (length_readNamed qt part _ _).trans hname

theorem length_tail_lt {n : Nat} (hn : n ≠ 0) (h : peek u s = n) : s.tail.length < s.length := by
  cases s with
  | nil => exact absurd h.symm hn
  | cons x s => exact Nat.lt_succ_self _

variable (u)

/-- The loop over the parameters of a part, with the errors found. -/
def readParameters (part : Part L) (s : List α) : Part L × QString × List α :=
  if h : peek u s = ';'.toNat then
    have : (readParameter qt u part s.tail).2.2.length < s.length :=
      (length_readParameter qt part s.tail).trans_lt (length_tail_lt (by decide) h)
    let r := readParameter qt u part s.tail
    let r' := readParameters r.1 r.2.2
    (r'.1, r.2.1 ++ r'.2.1, r'.2.2)
  else (part, [], s)
  termination_by s.length

/-- A part, with the errors in its parameters; nothing where its name is missing or too long. -/
def readPart (s : List α) : Option (Part L × QString × List α) :=
  let name := simplified (u.text (before u [',', ';', '=', ' ', '\t'] s))
  if name = [] ∨ units name > 17 then none
  else
    let s := skip u blanks (behind u [',', ';', '=', ' ', '\t'] s)
    let value := if peek u s = '='.toNat then readValue u id s.tail else ([], s)
    some (readParameters qt u { name, value := value.1, level := qt.one } value.2)

theorem readParameters_eq (part : Part L) (s : List α) : readParameters qt u part s =
    if peek u s = ';'.toNat then
      let r := readParameter qt u part s.tail
      let r' := readParameters qt u r.1 r.2.2
      (r'.1, r.2.1 ++ r'.2.1, r'.2.2)
    else (part, [], s) := by
  rw [readParameters]
  split
  · rfl
  · rfl

theorem length_readParameters (part : Part L) (s : List α) : (readParameters qt u part s).2.2.length ≤ s.length := by
  induction h : s.length using Nat.strong_induction_on generalizing part s with
  | _ n ih =>
    rw [readParameters_eq]
    split
    · have htail : s.tail.length < s.length := length_tail_lt (n := ';'.toNat) (by decide) ‹_›
      have hlt := (length_readParameter qt (u := u) part s.tail).trans_lt htail
      rw [h] at hlt
      exact (ih _ hlt _ _ rfl).trans hlt.le
    · exact h.le

theorem length_readPart {r : Part L × QString × List α} (h : readPart qt u s = some r) : r.2.2.length < s.length := by
  rw [readPart] at h
  simp only at h
  split at h
  · cases h
  · have hname := ‹¬ (simplified (u.text (before u [',', ';', '=', ' ', '\t'] s)) = [] ∨ _)›
    have hne : before u [',', ';', '=', ' ', '\t'] s ≠ [] := by
      intro hnil
      rw [hnil, u.text_nil] at hname
      exact hname (.inl rfl)
    have hbehind : (behind u [',', ';', '=', ' ', '\t'] s).length < s.length := by
      have happend := congrArg List.length
        (List.takeWhile_append_dropWhile (p := fun x => u.code x ≠ 0 && [',', ';', '=', ' ', '\t'].all fun c => c.toNat ≠ u.code x)
          (l := s))
      have hpos := List.length_pos_iff.mpr hne
      rw [List.length_append] at happend
      rw [before] at hpos
      rw [behind]
      omega
    have hskip := (length_skip (u := u) blanks (behind u [',', ';', '=', ' ', '\t'] s)).trans_lt hbehind
    rw [← Option.some.inj h]
    refine (length_readParameters qt u _ _).trans_lt ?_
    split
    · exact ((length_readValue _ _).trans (length_tail_le _)).trans_lt hskip
    · exact hskip

/-- The loop over the parts, from one that is not yet reached, with the errors found. -/
def readParts (s : List α) : List (Part L) × QString :=
  let s' := skip u separators s
  if peek u s' = 0 then ([], [])
  else
    match h : readPart qt u s' with
    | none => ([], "part name is empty or too long (limit is 17 characters.)\n".toList)
    | some r =>
      have : r.2.2.length < s.length := (length_readPart qt u h).trans_le (length_skip separators s)
      let r' := readParts r.2.2
      let error := if peek u r.2.2 ≠ ','.toNat ∧ peek u r.2.2 ≠ 0 then "part not ended by a comma or end of string.\n".toList else []
      (r.1 :: r'.1, r.2.1 ++ error ++ r'.2)
  termination_by s.length

theorem readParts_eq (s : List α) : readParts qt u s =
    if peek u (skip u separators s) = 0 then ([], [])
    else
      match readPart qt u (skip u separators s) with
      | none => ([], "part name is empty or too long (limit is 17 characters.)\n".toList)
      | some r =>
        let error := if peek u r.2.2 ≠ ','.toNat ∧ peek u r.2.2 ≠ 0 then "part not ended by a comma or end of string.\n".toList else []
        (r.1 :: (readParts qt u r.2.2).1, r.2.1 ++ error ++ (readParts qt u r.2.2).2) := by
  rw [readParts]
  split
  · rfl
  · split
    · rename_i h
      simp only [h]
    · rename_i h
      simp only [h]

theorem readParts_nil : readParts qt u [] = ([], []) := by
  rw [readParts_eq]
  rfl

theorem readParameters_end {s : List α} (h : peek u s ≠ ';'.toNat) (part : Part L) :
    readParameters qt u part s = (part, [], s) := by
  rw [readParameters_eq, if_neg h]

end

/-! ### The class -/

/-- `f_str`, `f_parts` and `f_error_messages`. -/
structure WeightedHttpString (L : Type) where
  str : QString := []
  parts : List (Part L) := []
  errorMessages : QString := []

/-- The object afterwards and the result; `f_str.length()` is taken as an offset into the UTF-8 of the text. -/
def parse (w : WeightedHttpString L) (str : QString) (reset : Bool) : WeightedHttpString L × Bool :=
  let cleared := w.str = [] ∨ reset
  let full := if cleared then str else w.str ++ [','] ++ str
  let pos := if cleared then 0 else units (w.str ++ [','])
  let r := readParts qt bytes ((utf8 full).drop pos)
  ({ str := full, parts := (if cleared then [] else w.parts) ++ r.1, errorMessages := r.2 }, r.2 = [])

end HttpStrings
end Snapwebsites
