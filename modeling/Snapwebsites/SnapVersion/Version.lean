import Mathlib.Algebra.GroupWithZero.Nat
import Mathlib.Algebra.Ring.Int.Defs
import Snapwebsites.Communicator.QString
import Snapwebsites.Lib.PaddedOrder

/-! # Versions

`validate_version()`, `validate_operator()` and the class `version` of `snap_version.cpp`. A number is read into an `int`,
kept in 32 bits and compared and printed as an `int` again, so numbers from 2^31 on are not in the order of the text and are
printed with a sign that is refused when the text is read again (`version_iff`). -/

namespace Snapwebsites
open QString

namespace SnapVersion

/-- Why a text is refused, and the exception of a branch that cannot be reached. -/
inductive Failure
  | error (text : QString)
  | logic (text : QString)
  deriving DecidableEq

/-- `compare_t`. -/
inductive Compare
  | invalid | smaller | equal | larger
  deriving DecidableEq

/-- `basic_version_number_t`, 32 bits; `BitVec.toInt` is the cast to `int`. -/
abbrev VersionNumber := BitVec 32

def unit (c : Char) : VersionNumber := BitVec.ofNat 32 c.toNat

def notValid (text : String) (versionString : QString) : QString :=
  text.toList ++ " \"".toList ++ versionString ++ "\" is not valid.".toList

/-- The loops of `validate_version()`: the number that is being read, if any, and the text that is left. The arithmetic of
    the `int` wraps. -/
def readNumbers (versionString : QString) : Option VersionNumber → QString → Except Failure (List VersionNumber)
  | none, [] => .ok []
  | none, c :: s =>
    if c.isDigit then readNumbers versionString (some (unit c - unit '0')) s
    else .error (.error (notValid
      "The version of a versioned filename is expected to have a number at the start and after each period." versionString))
  | some value, [] => .ok [value]
  | some value, c :: s =>
    if c.isDigit then readNumbers versionString (some (value * 10 + unit c - unit '0')) s
    else if c ≠ '.' then .error (.error (notValid
      "The version of a versioned filename is expected to be composed of numbers and periods (.) only." versionString))
    else if s = [] then .error (.logic
      "The version_string was already checked for an ending '.' and yet we reached that case later in the function.".toList)
    else (readNumbers versionString none s).map (value :: ·)

/-- The loop that pops zeroes as long as there are two numbers. -/
def canonicalize : List VersionNumber → List VersionNumber
  | [] => []
  | n :: version => n :: version.rdropWhile (· = 0)

def validateVersion (versionString : QString) : Except Failure (List VersionNumber) :=
  if versionString = [] then .error (.error (notValid
    "The version in a versioned filename is required after the name." versionString))
  else if versionString.getLast? = some '.' then .error (.error (notValid
    "The version in a versioned filename cannot end with a period." versionString))
  else (readNumbers versionString none versionString).map canonicalize

/-! ### Operators -/

/-- `operator_t`. -/
inductive Operator
  | unordered | equal | except | earlier | later | earlierOrEqual | laterOrEqual
  deriving DecidableEq

/-- `g_operators`. -/
def operators : Operator → QString
  | .unordered => []
  | .equal => "=".toList
  | .except => "!=".toList
  | .earlier => "<".toList
  | .later => ">".toList
  | .earlierOrEqual => "<=".toList
  | .laterOrEqual => ">=".toList

def validateOperator (operatorString : QString) : Except QString Operator :=
  if operatorString = "=".toList ∨ operatorString = "==".toList then .ok .equal
  else if operatorString = "!=".toList ∨ operatorString = "<>".toList then .ok .except
  else if operatorString = "<".toList then .ok .earlier
  else if operatorString = ">".toList then .ok .later
  else if operatorString = "<=".toList then .ok .earlierOrEqual
  else if operatorString = ">=".toList then .ok .laterOrEqual
  else .error ("Operator ".toList ++ operatorString ++ " is not recognized as a valid operator.".toList)

structure VersionOperator where
  operator : Operator := .unordered
  error : QString := []
  deriving DecidableEq

namespace VersionOperator

/-- A refused text leaves the operator. -/
def setOperatorString (operatorString : QString) (vo : VersionOperator) : Bool × VersionOperator :=
  match validateOperator operatorString with
  | .ok op => (true, { operator := op })
  | .error error => (false, { vo with error })

def setOperator (op : Operator) (vo : VersionOperator) : VersionOperator := { vo with operator := op }

def isValid (vo : VersionOperator) : Bool := vo.error = []

end VersionOperator

/-! ### The class -/

structure Version where
  /-- The text that `get_version_string()` keeps. -/
  versionString : QString := []
  version : List VersionNumber := []
  error : QString := []
  operator : VersionOperator := {}
  deriving DecidableEq

namespace Version

def setVersion (version : List VersionNumber) (v : Version) : Version :=
  { v with error := [], version := canonicalize version, versionString := [] }

/-- A refused text leaves the version. -/
def setVersionString (versionString : QString) (v : Version) : Except QString (Bool × Version) :=
  match validateVersion versionString with
  | .ok version => .ok (true, v.setVersion version)
  | .error (.error error) => .ok (false, { v with error })
  | .error (.logic text) => .error text

def setOperator (op : VersionOperator) (v : Version) : Version := { v with operator := op }

/-- The text of numbers, which are cast to `int`. -/
def print : List VersionNumber → QString
  | [] => []
  | n :: version => version.foldl (fun s n => s ++ '.' :: number n.toInt) (number n.toInt)

/-- The text and the object with the text that it keeps. -/
def getVersionString (v : Version) : QString × Version :=
  if v.versionString = [] ∧ v.version ≠ [] then (print v.version, { v with versionString := print v.version })
  else (v.versionString, v)

def getOpversionString (v : Version) : QString :=
  if v.operator.operator ≠ .unordered then operators v.operator.operator ++ ' ' :: v.getVersionString.1
  else v.getVersionString.1

def isValid (v : Version) : Bool := decide (v.error = []) && v.operator.isValid

/-- The loop of `compare()` from a place on, for a number of places. -/
def compareFrom (v rhs : List VersionNumber) (i : Nat) : Nat → Compare
  | 0 => .equal
  | n + 1 =>
    let l := if v.length ≤ i then 0 else (v.getD i 0).toInt
    let r := if rhs.length ≤ i then 0 else (rhs.getD i 0).toInt
    if l < r then .smaller
    else if l > r then .larger
    else compareFrom v rhs (i + 1) n

def compare (v rhs : Version) : Compare :=
  if !v.isValid || !rhs.isValid then .invalid
  else compareFrom v.version rhs.version 0 (max v.version.length rhs.version.length)

end Version

/-! ### Texts -/

/-- The parts of a text that matches `[0-9]+(\.[0-9]+)*`. -/
structure IsVersion (parts : List QString) : Prop where
  ne_nil : parts ≠ []
  digits : ∀ s ∈ parts, s ≠ [] ∧ ∀ c ∈ s, c.isDigit

def numbers (parts : List QString) : List ℕ := parts.map (Nat.ofDigitChars 10 · 0)

variable {s versionString : QString} {parts : List QString} {version : List VersionNumber} {c : Char}

theorem unit_sub (h : c.isDigit) (n : Nat) :
    BitVec.ofNat 32 n * 10 + unit c - unit '0' = BitVec.ofNat 32 (10 * n + (c.toNat - '0'.toNat)) := by
  have hle : '0'.toNat ≤ c.toNat := (Char.isDigit_iff_toNat.mp h).1
  have hunit : unit c = BitVec.ofNat 32 (c.toNat - '0'.toNat) + unit '0' := by
    rw [unit, unit, ← BitVec.ofNat_add, Nat.sub_add_cancel hle]
  rw [hunit, ← BitVec.add_assoc, BitVec.add_sub_cancel, BitVec.ofNat_add, Nat.mul_comm, BitVec.ofNat_mul]
  rfl

/-- Digits go on with the number. -/
theorem readNumbers_digits (h : ∀ c ∈ s, c.isDigit) (n : Nat) (rest : QString) :
    readNumbers versionString (some (BitVec.ofNat 32 n)) (s ++ rest) =
      readNumbers versionString (some (BitVec.ofNat 32 (Nat.ofDigitChars 10 s n))) rest := by
  induction s generalizing n with
  | nil => rfl
  | cons c s ih =>
    have hc := h c List.mem_cons_self
    rw [List.cons_append, readNumbers, if_pos hc, unit_sub hc, Nat.ofDigitChars_cons]
    exact ih (fun d hd => h d (List.mem_cons_of_mem _ hd)) _

variable (versionString) in
theorem readNumbers_number (hs : s ≠ []) (h : ∀ c ∈ s, c.isDigit) (rest : QString) :
    readNumbers versionString none (s ++ rest) =
      readNumbers versionString (some (BitVec.ofNat 32 (Nat.ofDigitChars 10 s 0))) rest := by
  cases s with
  | nil => exact absurd rfl hs
  | cons c s =>
    have hc := h c List.mem_cons_self
    have hunit := unit_sub hc 0
    rw [BitVec.zero_mul, BitVec.zero_add] at hunit
    rw [List.cons_append, readNumbers, if_pos hc, hunit, Nat.ofDigitChars_cons]
    exact readNumbers_digits (fun d hd => h d (List.mem_cons_of_mem _ hd)) _ rest

theorem join_ne_nil (h : IsVersion parts) : join '.' parts ≠ [] := by
  rcases parts with _ | ⟨s, _ | ⟨t, parts⟩⟩
  · exact absurd rfl h.ne_nil
  · rw [join, List.intercalate_singleton]
    exact (h.digits s List.mem_cons_self).1
  · rw [join_cons_cons]
    exact List.append_ne_nil_of_right_ne_nil _ (List.cons_ne_nil _ _)

theorem IsVersion.tail {t : QString} (h : IsVersion (s :: t :: parts)) : IsVersion (t :: parts) :=
  ⟨List.cons_ne_nil _ _, fun u hu => h.digits u (List.mem_cons_of_mem _ hu)⟩

theorem readNumbers_join (h : IsVersion parts) :
    readNumbers versionString none (join '.' parts) = .ok ((numbers parts).map (BitVec.ofNat 32)) := by
  induction parts with
  | nil => exact absurd rfl h.ne_nil
  | cons s parts ih =>
    obtain ⟨hs, hdigits⟩ := h.digits s List.mem_cons_self
    cases parts with
    | nil =>
      have hnumber := readNumbers_number versionString hs hdigits []
      rw [List.append_nil] at hnumber
      rw [join, List.intercalate_singleton, hnumber]
      rfl
    | cons t parts =>
      have hrest := join_ne_nil h.tail
      rw [join_cons_cons, readNumbers_number _ hs hdigits, readNumbers, if_neg (by decide), if_neg (by simp), if_neg hrest,
        ih h.tail]
      rfl

theorem getLast?_join (h : IsVersion parts) : (join '.' parts).getLast? ≠ some '.' := by
  induction parts with
  | nil => exact absurd rfl h.ne_nil
  | cons s parts ih =>
    cases parts with
    | nil =>
      rw [join, List.intercalate_singleton]
      intro hlast
      have hdigit := (h.digits s List.mem_cons_self).2 '.' (List.mem_of_getLast? hlast)
      cases hdigit
    | cons t parts =>
      have hne : '.' :: join '.' (t :: parts) ≠ [] := List.cons_ne_nil _ _
      rw [join_cons_cons, List.getLast?_append_of_ne_nil _ hne, List.getLast?_cons_of_ne_nil (join_ne_nil h.tail)]
      exact ih h.tail

theorem validateVersion_join (h : IsVersion parts) :
    validateVersion (join '.' parts) = .ok (canonicalize ((numbers parts).map (BitVec.ofNat 32))) := by
  rw [validateVersion, if_neg (join_ne_nil h), if_neg (getLast?_join h), readNumbers_join h]
  rfl

/-- Digits in front of parts are a part of their own. -/
theorem exists_parts {d : QString} (hd : d ≠ []) (hdigits : ∀ c ∈ d, c.isDigit)
    (h : s = d ∨ ∃ parts, IsVersion parts ∧ s = d ++ '.' :: join '.' parts) : ∃ parts, IsVersion parts ∧ s = join '.' parts := by
  rcases h with rfl | ⟨parts, hparts, rfl⟩
  · refine ⟨[s], ⟨List.cons_ne_nil _ _, by simpa using ⟨hd, hdigits⟩⟩, ?_⟩
    rw [join, List.intercalate_singleton]
  · refine ⟨d :: parts, ⟨List.cons_ne_nil _ _, fun t ht => ?_⟩, ?_⟩
    · rcases List.mem_cons.mp ht with rfl | ht
      · exact ⟨hd, hdigits⟩
      · exact hparts.digits t ht
    · cases parts with
      | nil => exact absurd rfl hparts.ne_nil
      | cons t parts => rw [join_cons_cons]

/-- What the loops accept: the digits of the number that is read, and parts behind them. -/
theorem readNumbers_ok {value : Option VersionNumber} (h : readNumbers versionString value s = .ok version) :
    ∃ d : QString, (∀ c ∈ d, c.isDigit) ∧ (value = none → s ≠ [] → d ≠ []) ∧
      (s = d ∨ ∃ parts, IsVersion parts ∧ s = d ++ '.' :: join '.' parts) := by
  have hcons : ∀ {c : Char} {d s : QString}, c.isDigit → (∀ c ∈ d, c.isDigit) →
      (s = d ∨ ∃ parts, IsVersion parts ∧ s = d ++ '.' :: join '.' parts) → ∃ d : QString, (∀ c ∈ d, c.isDigit) ∧ d ≠ [] ∧
        (c :: s = d ∨ ∃ parts, IsVersion parts ∧ c :: s = d ++ '.' :: join '.' parts) := by
    intro c d s hc hd h
    refine ⟨c :: d, fun x hx => ?_, List.cons_ne_nil _ _, h.imp (congrArg (c :: ·)) fun ⟨parts, hparts, hs⟩ => ⟨parts, hparts, ?_⟩⟩
    · rcases List.mem_cons.mp hx with rfl | hx
      · exact hc
      · exact hd x hx
    · rw [hs, List.cons_append]
  fun_induction readNumbers versionString value s generalizing version with
  | case1 => exact ⟨[], by simp, fun _ hs => absurd rfl hs, .inl rfl⟩
  | case2 c s hc ih =>
    obtain ⟨d, hd, -, hs⟩ := ih h
    obtain ⟨d, hd, hne, hs⟩ := hcons hc hd hs
    exact ⟨d, hd, fun _ _ => hne, hs⟩
  | case3 => cases h
  | case4 => exact ⟨[], by simp, fun h => by simp at h, .inl rfl⟩
  | case5 value c s hc ih =>
    obtain ⟨d, hd, -, hs⟩ := ih h
    obtain ⟨d, hd, -, hs⟩ := hcons hc hd hs
    exact ⟨d, hd, fun h => by simp at h, hs⟩
  | case6 => cases h
  | case7 => cases h
  | case8 value c s _ hc hs ih =>
    cases hrest : readNumbers versionString none s with
    | error e =>
      rw [hrest] at h
      cases h
    | ok rest =>
      obtain ⟨d, hd, hne, hparts⟩ := ih hrest
      obtain ⟨parts, hversion, rfl⟩ := exists_parts (hne rfl hs) hd hparts
      refine ⟨[], by simp, fun h => by simp at h, .inr ⟨parts, hversion, ?_⟩⟩
      rw [not_not.mp hc, List.nil_append]

/-- The texts that `validate_version()` accepts are those of the pattern. -/
theorem validateVersion_ok (h : validateVersion s = .ok version) : ∃ parts, IsVersion parts ∧ s = join '.' parts := by
  unfold validateVersion at h
  split at h
  · cases h
  · rename_i hs
    split at h
    · cases h
    · cases hread : readNumbers s none s with
      | error e =>
        rw [hread] at h
        cases h
      | ok l =>
        obtain ⟨d, hd, hne, hparts⟩ := readNumbers_ok hread
        exact exists_parts (hne rfl hs) hd hparts

/-! ### Objects -/

theorem canonicalize_canonicalize (version : List VersionNumber) : canonicalize (canonicalize version) = canonicalize version := by
  cases version with
  | nil => rfl
  | cons n version => rw [canonicalize, canonicalize, List.rdropWhile_idempotent]

theorem canonicalize_eq_nil : canonicalize version = [] ↔ version = [] := by
  cases version <;> simp [canonicalize]

/-- The numbers that are left of a text. -/
def stored (parts : List QString) : List VersionNumber := canonicalize ((numbers parts).map (BitVec.ofNat 32))

theorem stored_ne_nil (h : IsVersion parts) : stored parts ≠ [] := by
  rw [stored, ne_eq, canonicalize_eq_nil]
  simpa [numbers] using h.ne_nil

theorem setVersionString_join (h : IsVersion parts) (v : Version) : v.setVersionString (join '.' parts) =
    .ok (true, { v with error := [], version := stored parts, versionString := [] }) := by
  rw [Version.setVersionString, validateVersion_join h, ← stored]
  simp only [Version.setVersion]
  rw [stored, canonicalize_canonicalize]

theorem setVersionString_ok {v w : Version} (h : v.setVersionString s = .ok (true, w)) :
    ∃ parts, IsVersion parts ∧ s = join '.' parts ∧
      w = { v with error := [], version := stored parts, versionString := [] } := by
  cases hs : validateVersion s with
  | error e => cases e <;> simp [Version.setVersionString, hs] at h
  | ok version =>
    obtain ⟨parts, hparts, rfl⟩ := validateVersion_ok hs
    rw [setVersionString_join hparts] at h
    cases h
    exact ⟨parts, hparts, rfl, rfl⟩

theorem print_eq (version : List VersionNumber) : Version.print version = join '.' (version.map fun n => number n.toInt) := by
  cases version with
  | nil => rfl
  | cons n version => exact foldl_append_join '.' _ version _

theorem number_toInt {n : VersionNumber} (h : 0 ≤ n.toInt) : number n.toInt = Nat.toDigits 10 n.toNat := by
  have htoInt : n.toInt = n.toNat := by
    rw [BitVec.toInt_eq_toNat_cond] at h ⊢
    have := n.isLt
    split at h <;> omega
  rw [number, if_neg (by omega), htoInt, Int.natAbs_natCast]

/-- Numbers that are not negative are printed as a text of the pattern, which is read as these numbers. -/
theorem isVersion_print (hne : version ≠ []) (h : ∀ n ∈ version, 0 ≤ n.toInt) :
    IsVersion (version.map fun n => number n.toInt) := by
  refine ⟨by simpa using hne, fun s hs => ?_⟩
  obtain ⟨n, hn, rfl⟩ := List.mem_map.mp hs
  rw [number_toInt (h n hn)]
  exact ⟨Nat.toDigits_ne_nil, fun c hc => Nat.isDigit_of_mem_toDigits (by decide) (by decide) hc⟩

theorem numbers_print (h : ∀ n ∈ version, 0 ≤ n.toInt) :
    (numbers (version.map fun n => number n.toInt)).map (BitVec.ofNat 32) = version := by
  rw [numbers, List.map_map, List.map_map]
  refine List.map_congr_left (fun n hn => ?_) |>.trans (List.map_id version)
  show BitVec.ofNat 32 (Nat.ofDigitChars 10 (number n.toInt) 0) = n
  rw [number_toInt (h n hn), Nat.ofDigitChars_ten_toDigits, BitVec.ofNat_toNat, BitVec.setWidth_eq]

/-- A negative number is printed with a sign, which no text of the pattern has. -/
theorem nonneg_of_print (hparts : IsVersion parts) (h : Version.print version = join '.' parts) : ∀ n ∈ version, 0 ≤ n.toInt := by
  intro n hn
  by_contra hneg
  have hsign : '-' ∈ Version.print version := by
    rw [print_eq]
    refine mem_join_of_mem ?_ (List.mem_map.mpr ⟨n, hn, rfl⟩)
    rw [number, if_pos (by omega)]
    exact List.mem_cons_self
  rw [h] at hsign
  rcases mem_join hsign with hdot | ⟨s, hs, hmem⟩
  · cases hdot
  · have hdigit := (hparts.digits s hs).2 '-' hmem
    cases hdigit

/-! ### The order -/

namespace Compare

def ofOrdering : Ordering → Compare
  | .lt => .smaller
  | .eq => .equal
  | .gt => .larger

theorem ofOrdering_injective : Function.Injective ofOrdering := by
  intro a b h
  cases a <;> cases b <;> first | rfl | cases h

end Compare

/-- The `int`s of numbers that are read. -/
def ints (version : List VersionNumber) : List ℤ := version.map BitVec.toInt

open PaddedOrder

theorem compareFrom_eq (v rhs : List VersionNumber) (n i : Nat) (hn : max v.length rhs.length ≤ i + n) :
    Version.compareFrom v rhs i n = Compare.ofOrdering (cmp (drop i (padded (ints v))) (drop i (padded (ints rhs)))) := by
  have hpad : ∀ (i : Nat) (l : List VersionNumber),
      (if l.length ≤ i then 0 else (l.getD i 0).toInt) = ofLex (drop i (padded (ints l))) 0 := by
    intro i l
    show _ = (l.map BitVec.toInt).getD (i + 0) 0
    rw [Nat.add_zero]
    split
    · rw [List.getD_eq_default _ _ (by rwa [List.length_map])]
    · exact (List.getD_map l 0 BitVec.toInt).symm
  induction n generalizing i with
  | zero =>
    have hlength : ∀ l : List VersionNumber, l.length ≤ i → (ints l).length ≤ i := fun l h => (List.length_map _).trans_le h
    rw [drop_padded_of_length_le (hlength v (by omega)), drop_padded_of_length_le (hlength rhs (by omega)), cmp_self]
    rfl
  | succ n ih =>
    rw [cmp_eq_then, drop_one_drop, drop_one_drop, Version.compareFrom, hpad, hpad]
    rcases lt_trichotomy (ofLex (drop i (padded (ints v))) 0) (ofLex (drop i (padded (ints rhs))) 0) with hlt | heq | hgt
    · rw [if_pos hlt, (cmp_eq_lt_iff _ _).mpr hlt]
      rfl
    · rw [if_neg heq.not_lt, if_neg heq.not_gt, (cmp_eq_eq_iff _ _).mpr heq, Ordering.eq_then]
      exact ih (i + 1) (by omega)
    · rw [if_neg hgt.not_gt, if_pos hgt, (cmp_eq_gt_iff _ _).mpr hgt]
      rfl

theorem exists_zeroes (version : List VersionNumber) : ∃ zeroes, (∀ n ∈ zeroes, n = 0) ∧ canonicalize version ++ zeroes = version := by
  cases version with
  | nil => exact ⟨[], by simp, rfl⟩
  | cons n version =>
    refine ⟨version.rtakeWhile (· = 0), fun m hm => ?_, ?_⟩
    · simpa using List.mem_rtakeWhile_imp hm
    · rw [canonicalize, List.cons_append, List.rdropWhile_append_rtakeWhile]

theorem nonneg_canonicalize (version : List VersionNumber) :
    (∀ n ∈ canonicalize version, 0 ≤ n.toInt) ↔ ∀ n ∈ version, 0 ≤ n.toInt := by
  obtain ⟨zeroes, hzeroes, h⟩ := exists_zeroes version
  constructor
  · intro hn n hmem
    rw [← h] at hmem
    rcases List.mem_append.mp hmem with hmem | hmem
    · exact hn n hmem
    · rw [hzeroes n hmem]
      rfl
  · intro hn n hmem
    refine hn n ?_
    rw [← h]
    exact List.mem_append_left _ hmem

/-- What the `int` holds when a number is read. -/
def int (n : ℕ) : ℤ := (n : ℤ).bmod (2 ^ 32)

theorem padded_stored (parts : List QString) : padded (ints (stored parts)) = padded ((numbers parts).map int) := by
  obtain ⟨zeroes, hzeroes, h⟩ := exists_zeroes ((numbers parts).map (BitVec.ofNat 32))
  have hints : (numbers parts).map int = ints (stored parts) ++ ints zeroes := by
    rw [ints, ints, stored, ← List.map_append, h, List.map_map]
    exact List.map_congr_left fun n _ => (BitVec.toInt_ofNat n).symm
  rw [hints, padded_append]
  intro a ha
  obtain ⟨n, hn, rfl⟩ := List.mem_map.mp ha
  rw [hzeroes n hn]
  rfl

theorem nonneg_stored (parts : List QString) : (∀ n ∈ stored parts, 0 ≤ n.toInt) ↔ ∀ n ∈ numbers parts, 0 ≤ int n := by
  rw [stored, nonneg_canonicalize, List.forall_mem_map]
  have hint : ∀ n : ℕ, (BitVec.ofNat 32 n).toInt = int n := fun n => BitVec.toInt_ofNat n
  simp only [hint]

/-- Where the first sequence is smaller at a place in front of which they agree, the first `int`s from there on that are not
    the same are in that order. -/
def InOrder (p q : List ℕ) : Prop :=
  ∀ i, (∀ j < i, p.getD j 0 = q.getD j 0) → p.getD i 0 < q.getD i 0 →
    ∃ k ≥ i, (∀ j < k, i ≤ j → int (p.getD j 0) = int (q.getD j 0)) ∧ int (p.getD k 0) < int (q.getD k 0)

theorem inOrder_iff {p q : List ℕ} : InOrder p q ↔ (padded p < padded q → padded (p.map int) < padded (q.map int)) := by
  have hint : ∀ (l : List ℕ) i, (l.map int).getD i 0 = int (l.getD i 0) := fun l i => List.getD_map l 0 int
  constructor
  · rintro h ⟨i, hi, hlt⟩
    obtain ⟨k, hk, hsame, hlt⟩ := h i hi hlt
    refine ⟨k, fun j hj => ?_, ?_⟩
    · show (p.map int).getD j 0 = (q.map int).getD j 0
      rw [hint, hint]
      rcases lt_or_ge j i with hji | hij
      · have hj : p.getD j 0 = q.getD j 0 := hi j hji
        rw [hj]
      · exact hsame j hj hij
    · show (p.map int).getD k 0 < (q.map int).getD k 0
      rwa [hint, hint]
  · intro h i hi hlt
    obtain ⟨k, hk, hlt'⟩ := h ⟨i, hi, hlt⟩
    have hk : ∀ j < k, int (p.getD j 0) = int (q.getD j 0) := fun j hj => by
      rw [← hint, ← hint]
      exact hk j hj
    have hlt' : int (p.getD k 0) < int (q.getD k 0) := by
      rw [← hint, ← hint]
      exact hlt'
    refine ⟨k, ?_, fun j hj _ => hk j hj, hlt'⟩
    by_contra hki
    have hsame : p.getD k 0 = q.getD k 0 := hi k (not_le.mp hki)
    rw [hsame] at hlt'
    exact lt_irrefl _ hlt'

/-- The object that a text of the pattern makes of a new one. -/
def Version.ofParts (parts : List QString) : Version := { version := stored parts }

theorem compare_ofParts (p q : List QString) : (Version.ofParts p).compare (Version.ofParts q) =
    .ofOrdering (cmp (padded ((numbers p).map int)) (padded ((numbers q).map int))) := by
  have hvalid : ∀ parts, (Version.ofParts parts).isValid = true := fun _ => rfl
  rw [Version.compare, hvalid, hvalid, Bool.not_true, Bool.or_false, if_neg Bool.false_ne_true,
    compareFrom_eq _ _ _ _ (Nat.le_add_left _ 0), drop_zero, drop_zero]
  exact congrArg₂ (fun a b => Compare.ofOrdering (cmp a b)) (padded_stored p) (padded_stored q)

/-- The `int`s are in the order of the numbers where the smaller sequence has the smaller `int`s. -/
theorem cmp_ints_iff (p q : List ℕ) :
    cmp (padded (p.map int)) (padded (q.map int)) = cmp (padded p) (padded q) ↔ InOrder p q ∧ InOrder q p := by
  rw [inOrder_iff, inOrder_iff]
  constructor
  · intro h
    constructor
    · intro hlt
      rw [cmp_eq_lt.mpr hlt] at h
      exact cmp_eq_lt.mp h
    · intro hlt
      rw [cmp_eq_gt.mpr hlt] at h
      exact cmp_eq_gt.mp h
  · rintro ⟨hpq, hqp⟩
    rcases lt_trichotomy (padded p) (padded q) with hlt | heq | hgt
    · exact (cmp_eq_lt.mpr (hpq hlt)).trans (cmp_eq_lt.mpr hlt).symm
    · have hmap : padded (p.map int) = padded (q.map int) := by
        funext i
        show (p.map int).getD i 0 = (q.map int).getD i 0
        have hi : p.getD i 0 = q.getD i 0 := congrFun heq i
        exact (List.getD_map p 0 int).trans ((congrArg int hi).trans (List.getD_map q 0 int).symm)
      rw [hmap, heq, cmp_self, cmp_self]
    · exact (cmp_eq_gt.mpr (hqp hgt)).trans (cmp_eq_gt.mpr hgt).symm

/-- The text of an object is read as an equal one when no `int` is negative. -/
theorem getVersionString_iff {parts : List QString} (h : IsVersion parts) :
    (∃ w, ({} : Version).setVersionString (Version.ofParts parts).getVersionString.1 = .ok (true, w) ∧
      w.compare (Version.ofParts parts) = .equal) ↔ ∀ n ∈ numbers parts, 0 ≤ int n := by
  have htext : (Version.ofParts parts).getVersionString.1 = Version.print (stored parts) := by
    rw [Version.getVersionString, if_pos ⟨rfl, stored_ne_nil h⟩]
    rfl
  rw [htext, ← nonneg_stored]
  constructor
  · rintro ⟨w, hw, -⟩
    obtain ⟨p, hp, hprint, -⟩ := setVersionString_ok hw
    exact nonneg_of_print hp hprint
  · intro hn
    have hp := isVersion_print (stored_ne_nil h) hn
    have hstored : stored ((stored parts).map fun n => number n.toInt) = stored parts := by
      rw [stored, numbers_print hn, stored, canonicalize_canonicalize]
    rw [print_eq, setVersionString_join hp, hstored]
    refine ⟨Version.ofParts parts, rfl, ?_⟩
    rw [compare_ofParts, cmp_self]
    rfl

/-- The order of versions is that of their texts where the `int`s are in the order of the numbers, and the text of a version
    is read as an equal version where no `int` is negative; and only there. -/
theorem version_iff (p q : List QString) (s : QString) (v : Version) :
    (IsVersion p → IsVersion q → ∃ u v, ({} : Version).setVersionString (join '.' p) = .ok (true, u) ∧
      ({} : Version).setVersionString (join '.' q) = .ok (true, v) ∧
      (u.compare v = .ofOrdering (cmp (padded (numbers p)) (padded (numbers q))) ↔
        InOrder (numbers p) (numbers q) ∧ InOrder (numbers q) (numbers p))) ∧
    (({} : Version).setVersionString s = .ok (true, v) → ∃ parts, IsVersion parts ∧ s = join '.' parts ∧
      ((∃ w, ({} : Version).setVersionString v.getVersionString.1 = .ok (true, w) ∧ w.compare v = .equal) ↔
        ∀ n ∈ numbers parts, 0 ≤ int n)) := by
  constructor
  · intro hp hq
    refine ⟨Version.ofParts p, Version.ofParts q, setVersionString_join hp _, setVersionString_join hq _, ?_⟩
    rw [compare_ofParts, Compare.ofOrdering_injective.eq_iff, cmp_ints_iff]
  · intro hs
    obtain ⟨parts, hparts, rfl, rfl⟩ := setVersionString_ok hs
    exact ⟨parts, hparts, rfl, getVersionString_iff hparts⟩

theorem version_iff_ten :
    (∃ u v, ({} : Version).setVersionString "1.10".toList = .ok (true, u) ∧
      ({} : Version).setVersionString "1.9".toList = .ok (true, v) ∧
      (u.compare v = .ofOrdering (cmp (padded (numbers ["1".toList, "10".toList])) (padded (numbers ["1".toList, "9".toList]))) ↔
        InOrder (numbers ["1".toList, "10".toList]) (numbers ["1".toList, "9".toList]) ∧
          InOrder (numbers ["1".toList, "9".toList]) (numbers ["1".toList, "10".toList]))) ∧
    ∃ parts, IsVersion parts ∧ "1.10".toList = join '.' parts ∧
      ((∃ w, ({} : Version).setVersionString ({ version := [1, 10] } : Version).getVersionString.1 = .ok (true, w) ∧
        w.compare { version := [1, 10] } = .equal) ↔ ∀ n ∈ numbers parts, 0 ≤ int n) := by
  obtain ⟨horder, hround⟩ :=
    version_iff ["1".toList, "10".toList] ["1".toList, "9".toList] "1.10".toList { version := [1, 10] }
  exact ⟨horder ⟨by decide, by decide⟩ ⟨by decide, by decide⟩, hround (by decide)⟩

/-- 2147483648 is read as the `int` that is smaller than all others, and its text has a sign. -/
theorem not_version :
    (¬ ∀ p q u v, IsVersion p → IsVersion q → ({} : Version).setVersionString (join '.' p) = .ok (true, u) →
      ({} : Version).setVersionString (join '.' q) = .ok (true, v) →
      u.compare v = .ofOrdering (cmp (padded (numbers p)) (padded (numbers q)))) ∧
    ¬ ∀ s v, ({} : Version).setVersionString s = .ok (true, v) →
      ∃ w, ({} : Version).setVersionString v.getVersionString.1 = .ok (true, w) ∧ w.compare v = .equal := by
  constructor
  · intro h
    have hcompare := h ["2147483648".toList] ["1".toList] { version := [2147483648] } { version := [1] }
      ⟨by decide, by decide⟩ ⟨by decide, by decide⟩ (by decide) (by decide)
    have hgt : cmp (padded (numbers ["2147483648".toList])) (padded (numbers ["1".toList])) = .gt :=
      cmp_eq_gt.mpr ⟨0, fun j hj => absurd hj j.not_lt_zero, by decide⟩
    rw [hgt] at hcompare
    revert hcompare
    decide
  · intro h
    obtain ⟨w, hw, -⟩ := h "2147483648".toList { version := [2147483648] } (by decide)
    have hrefused : ∃ v, ({} : Version).setVersionString ({ version := [2147483648] } : Version).getVersionString.1 =
        .ok (false, v) := ⟨_, rfl⟩
    obtain ⟨v, hv⟩ := hrefused
    rw [hv] at hw
    cases hw

end SnapVersion
end Snapwebsites
