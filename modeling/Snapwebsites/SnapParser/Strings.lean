import Mathlib.Data.List.TakeWhile
import Mathlib.Tactic.Common

/-! # Strings of the lexer

The strings of `lexer::next_token()`, on UTF-16 units. An end of line ends a string as its closing quote does, but for one that
is escaped, with which the string goes on; and the digits behind `\u` and `\U` are searched past the end of the input. -/

namespace Snapwebsites
namespace SnapParser

abbrev QChar := UInt16

def unit (c : Char) : QChar := UInt16.ofNat c.toNat

def isLineEnd (c : QChar) : Bool := c = unit '\n' || c = unit '\r'

/-- The lambda `xdigit`; nothing for its -1. -/
def xdigit (c : QChar) : Option Nat :=
  if unit '0' ≤ c ∧ c ≤ unit '9' then some (c.toNat - '0'.toNat)
  else if unit 'a' ≤ c ∧ c ≤ unit 'f' then some (c.toNat - 'a'.toNat + 10)
  else if unit 'A' ≤ c ∧ c ≤ unit 'F' then some (c.toNat - 'A'.toNat + 10)
  else none

/-- `std::isxdigit()`. -/
def isxdigit (c : QChar) : Bool := (xdigit c).isSome

def isOctal (c : QChar) : Bool := unit '0' ≤ c ∧ c ≤ unit '7'

/-! ### Escapes -/

/-- What an escape adds to the string, the units behind its letter that it uses, and whether a unit past the end of the input
    was read. -/
structure Escape where
  text : List QChar
  length : Nat
  pastEnd : Bool
  deriving DecidableEq

/-- The loop of `\u` and `\U`: the value, the number of digits, and whether the search for another one went past the end. -/
def readDigits (v : Nat) : Nat → List QChar → Nat × Nat × Bool
  | 0, _ => (v, 0, false)
  | _ + 1, [] => (v, 0, true)
  | n + 1, c :: s =>
    match xdigit c with
    | some d =>
      let (v, length, pastEnd) := readDigits (v * 16 + d) n s
      (v, length + 1, pastEnd)
    | none => (v, 0, false)

/-- At most two more octal digits. -/
def readOctal (v : Nat) (s : List QChar) : Nat × Nat :=
  match s with
  | c :: s =>
    if isOctal c then
      let v := v * 8 + (c.toNat - '0'.toNat)
      match s with
      | c :: _ => if isOctal c then (v * 8 + (c.toNat - '0'.toNat), 2) else (v, 1)
      | [] => (v, 1)
    else (v, 0)
  | [] => (v, 0)

/-- At most two digits; nothing where there is none. -/
def readHex (s : List QChar) : Option (Nat × Nat) :=
  match s with
  | c :: s =>
    match xdigit c with
    | some v =>
      match s with
      | c :: _ =>
        match xdigit c with
        | some d => some (v * 16 + d, 2)
        | none => some (v, 1)
      | [] => some (v, 1)
    | none => none
  | [] => none

/-- `\a`, `\b`, `\f`, `\n`, `\r`, `\t` and `\v`. -/
def control (e : QChar) : Option QChar :=
  if e = unit 'a' then some 7
  else if e = unit 'b' then some 8
  else if e = unit 'f' then some 12
  else if e = unit 'n' then some 10
  else if e = unit 'r' then some 13
  else if e = unit 't' then some 9
  else if e = unit 'v' then some 11
  else none

section
variable (fromUcs4 : Nat → List QChar)

/-- The switch on the unit behind a backslash, with what stands behind it. `QString::fromUcs4()` is a parameter. -/
def readEscape (e : QChar) (s : List QChar) : Escape :=
  match control e with
  | some c => { text := [c], length := 0, pastEnd := false }
  | none =>
    if isOctal e then
      let (v, length) := readOctal (e.toNat - '0'.toNat) s
      { text := [UInt16.ofNat v], length, pastEnd := false }
    else if e = unit 'x' ∨ e = unit 'X' then
      match readHex s with
      | some (v, length) => { text := [UInt16.ofNat v], length, pastEnd := false }
      | none => { text := [], length := 0, pastEnd := false }
    else if e = unit 'u' then
      let (v, length, pastEnd) := readDigits 0 4 s
      { text := [UInt16.ofNat v], length, pastEnd }
    else if e = unit 'U' then
      let (v, length, pastEnd) := readDigits 0 8 s
      { text := fromUcs4 v, length, pastEnd }
    else { text := [e], length := 0, pastEnd := false }

/-- Where the loop over the units of a string stops: the string, the input from there on, and whether a unit past its end was
    read. -/
structure Stop where
  str : List QChar
  rest : List QChar
  pastEnd : Bool
  deriving DecidableEq

/-- The loop over the units of a string; the counter is the number of units that an escape has used already. -/
def readString : Nat → List QChar → Bool → List QChar → Stop
  | _, str, pastEnd, [] => { str, rest := [], pastEnd }
  | skip + 1, str, pastEnd, _ :: s => readString skip str pastEnd s
  | 0, str, pastEnd, c :: s =>
    if c = unit '"' then { str, rest := c :: s, pastEnd }
    else if isLineEnd c then { str, rest := c :: s, pastEnd }
    else if c = unit '\\' then
      match s with
      | [] => { str, rest := [], pastEnd }
      | e :: t =>
        let x := readEscape fromUcs4 e t
        readString (1 + x.length) (str ++ x.text) (pastEnd || x.pastEnd) s
    else readString 0 (str ++ [c]) pastEnd s

/-! ### The lexer -/

/-- The tokens that a double quote gives. -/
inductive Token
  | string (value : List QChar)
  | error
  deriving DecidableEq

/-- `lexer_error_t`. -/
inductive LexerError
  | none | invalidString | invalidCComment | invalidNumber
  deriving DecidableEq

/-- The input from `f_pos` on, the line, and the last error with its message and its line. -/
structure Lexer where
  input : List QChar
  line : Nat := 1
  errorCode : LexerError := .none
  errorMessage : String := ""
  errorLine : Nat := 0
  deriving DecidableEq

/-- `next_token()` at a double quote: the token, the lexer, and whether a unit past the end of the input was read. -/
def nextToken (l : Lexer) : Token × Lexer × Bool :=
  let stop := readString fromUcs4 0 [] false l.input.tail
  if stop.rest = [] then
    (.error, { l with input := [], errorCode := .invalidString, errorMessage := "invalid string", errorLine := l.line }, stop.pastEnd)
  else (.string stop.str, { l with input := stop.rest.tail }, stop.pastEnd)

/-! ### What a string stands for -/

/-- The number of digits that can stand behind the letter of an escape. -/
def maxDigits (e : QChar) : Nat :=
  if (control e).isSome then 0
  else if isOctal e then 2
  else if e = unit 'x' ∨ e = unit 'X' then 2
  else if e = unit 'u' then 4
  else if e = unit 'U' then 8
  else 0

def isDigitOf (e c : QChar) : Bool := if isOctal e then isOctal c else isxdigit c

def number (base v : Nat) (d : List QChar) : Nat := d.foldl (fun v c => v * base + (xdigit c).getD 0) v

/-- What an escape with its digits stands for. -/
def escaped (e : QChar) (d : List QChar) : List QChar :=
  match control e with
  | some c => [c]
  | none =>
    if isOctal e then [UInt16.ofNat (number 8 0 (e :: d))]
    else if e = unit 'x' ∨ e = unit 'X' then if d = [] then [] else [UInt16.ofNat (number 16 0 d)]
    else if e = unit 'u' then [UInt16.ofNat (number 16 0 d)]
    else if e = unit 'U' then fromUcs4 (number 16 0 d)
    else [e]

/-- A unit that stands for itself. -/
structure Plain (c : QChar) : Prop where
  quote : c ≠ unit '"'
  lineEnd : isLineEnd c = false
  backslash : c ≠ unit '\\'

/-- The text between the quotes and its value: each escape has as many digits as it can have. -/
inductive Value : List QChar → List QChar → Prop
  | nil : Value [] []
  | plain {c : QChar} {s v : List QChar} (hc : Plain c) (h : Value s v) : Value (c :: s) (c :: v)
  | escape {e : QChar} {d s v : List QChar} (hd : ∀ c ∈ d, isDigitOf e c) (hle : d.length ≤ maxDigits e)
      (hmax : d.length = maxDigits e ∨ ∀ c, s.head? = some c → isDigitOf e c = false) (h : Value s v) :
      Value (unit '\\' :: e :: (d ++ s)) (escaped fromUcs4 e d ++ v)

end

/-! ### Escapes with their digits -/

variable {fromUcs4 : Nat → List QChar} {e c : QChar} {s t d a v str rest : List QChar} {p : Bool}

theorem xdigit_of_isxdigit (h : isxdigit c) : xdigit c = some ((xdigit c).getD 0) := by
  obtain ⟨n, hn⟩ := Option.isSome_iff_exists.mp h
  rw [hn]
  rfl

theorem xdigit_of_not (h : isxdigit c = false) : xdigit c = none := by
  rw [isxdigit] at h
  exact Option.isNone_iff_eq_none.mp (by simpa using h)

theorem readDigits_append {n : Nat} (hd : ∀ c ∈ d, isxdigit c) (hle : d.length ≤ n)
    (hmax : d.length = n ∨ ∀ c, s.head? = some c → isxdigit c = false) (v : Nat) :
    readDigits v n (d ++ s) = (number 16 v d, d.length, decide (s = [] ∧ d.length < n)) := by
  induction d generalizing n v with
  | nil =>
    cases n with
    | zero => simp [readDigits, number]
    | succ n =>
      cases s with
      | nil => simp [readDigits, number]
      | cons c s =>
        have hc := hmax.resolve_left (by simp) c rfl
        simp [readDigits, number, xdigit_of_not hc]
  | cons c d ih =>
    cases n with
    | zero => simp at hle
    | succ n =>
      have hc := xdigit_of_isxdigit (hd c List.mem_cons_self)
      rw [List.cons_append, readDigits, hc]
      simp only
      rw [ih (fun x hx => hd x (List.mem_cons_of_mem _ hx)) (by simpa using hle) (by simpa using hmax)]
      simp [number]

theorem xdigit_of_isOctal (h : isOctal c) : (xdigit c).getD 0 = c.toNat - '0'.toNat := by
  have hc : unit '0' ≤ c ∧ c ≤ unit '7' := by simpa [isOctal] using h
  have hle : unit '0' ≤ c ∧ c ≤ unit '9' := ⟨hc.1, UInt16.le_trans hc.2 (by decide)⟩
  rw [xdigit, if_pos hle]
  rfl

theorem readOctal_append (hd : ∀ c ∈ d, isOctal c) (hle : d.length ≤ 2)
    (hmax : d.length = 2 ∨ ∀ c, s.head? = some c → isOctal c = false) (v : Nat) :
    readOctal v (d ++ s) = (number 8 v d, d.length) := by
  have hnone : d.length < 2 → s = [] ∨ ∃ c t, s = c :: t ∧ isOctal c = false := fun hlt => by
    cases s with
    | nil => exact .inl rfl
    | cons c t => exact .inr ⟨c, t, rfl, hmax.resolve_left hlt.ne c rfl⟩
  rcases d with _ | ⟨x, _ | ⟨y, _ | ⟨z, d⟩⟩⟩
  · rcases hnone (by simp) with rfl | ⟨c, t, rfl, hc⟩
    · rfl
    · simp [readOctal, number, hc]
  · have hx := hd x List.mem_cons_self
    rcases hnone (by simp) with rfl | ⟨c, t, rfl, hc⟩
    · simp [readOctal, number, hx, xdigit_of_isOctal hx]
    · simp [readOctal, number, hx, hc, xdigit_of_isOctal hx]
  · have hx := hd x List.mem_cons_self
    have hy := hd y (by simp)
    simp [readOctal, number, hx, hy, xdigit_of_isOctal hx, xdigit_of_isOctal hy]
  · simp at hle

theorem readHex_append (hd : ∀ c ∈ d, isxdigit c) (hle : d.length ≤ 2)
    (hmax : d.length = 2 ∨ ∀ c, s.head? = some c → isxdigit c = false) :
    readHex (d ++ s) = if d = [] then none else some (number 16 0 d, d.length) := by
  have hnone : d.length < 2 → s = [] ∨ ∃ c t, s = c :: t ∧ xdigit c = none := fun hlt => by
    cases s with
    | nil => exact .inl rfl
    | cons c t => exact .inr ⟨c, t, rfl, xdigit_of_not (hmax.resolve_left hlt.ne c rfl)⟩
  rcases d with _ | ⟨x, _ | ⟨y, _ | ⟨z, d⟩⟩⟩
  · rcases hnone (by simp) with rfl | ⟨c, t, rfl, hc⟩
    · rfl
    · simp [readHex, hc]
  · have hx := xdigit_of_isxdigit (hd x List.mem_cons_self)
    rcases hnone (by simp) with rfl | ⟨c, t, rfl, hc⟩
    · simp only [readHex, List.cons_append, List.nil_append]
      rw [hx]
      simp [number]
    · simp only [readHex, List.cons_append, List.nil_append, hc]
      rw [hx]
      simp [number]
  · have hx := xdigit_of_isxdigit (hd x List.mem_cons_self)
    have hy := xdigit_of_isxdigit (hd y (by simp))
    simp only [readHex, List.cons_append, List.nil_append]
    rw [hx, hy]
    simp [number]
  · simp at hle

/-- The letter of an escape whose digits can be searched past the end of the input. -/
def isUnicode (e : QChar) : Bool := e = unit 'u' || e = unit 'U'

/-- An escape uses all digits that it can have, and `\u` and `\U` search for more where the input ends. -/
theorem readEscape_append (hd : ∀ c ∈ d, isDigitOf e c) (hle : d.length ≤ maxDigits e)
    (hmax : d.length = maxDigits e ∨ ∀ c, s.head? = some c → isDigitOf e c = false) :
    readEscape fromUcs4 e (d ++ s) = {
      text := escaped fromUcs4 e d, length := d.length
      pastEnd := isUnicode e && decide (s = [] ∧ d.length < maxDigits e) } := by
  have hnone : maxDigits e = 0 → d = [] := fun h => by
    rw [h] at hle
    exact List.length_eq_zero_iff.mp (Nat.le_zero.mp hle)
  unfold readEscape escaped
  cases hcontrol : control e with
  | some c =>
    have hzero : maxDigits e = 0 := by rw [maxDigits, hcontrol, Option.isSome_some, if_pos rfl]
    rw [hnone hzero, hzero]
    simp
  | none =>
    have hdigits : maxDigits e = if isOctal e then 2 else if e = unit 'x' ∨ e = unit 'X' then 2
        else if e = unit 'u' then 4 else if e = unit 'U' then 8 else 0 := by
      rw [maxDigits, hcontrol]
      rfl
    simp only
    by_cases hoctal : isOctal e = true
    · have hnot : isUnicode e = false := by
        rw [Bool.eq_false_iff]
        intro h
        rcases Bool.or_eq_true_iff.mp h with h | h
        · rw [of_decide_eq_true h] at hoctal
          cases hoctal
        · rw [of_decide_eq_true h] at hoctal
          cases hoctal
      rw [if_pos hoctal] at hdigits
      rw [hdigits] at hle hmax
      simp only [isDigitOf, hoctal, if_true] at hd hmax
      rw [if_pos hoctal, if_pos hoctal, readOctal_append hd hle hmax, hnot]
      simp [number, xdigit_of_isOctal hoctal]
    · have hoctal : isOctal e = false := by simpa using hoctal
      simp only [isDigitOf, hoctal, Bool.false_eq_true, if_false] at hd hmax hdigits ⊢
      by_cases hx : e = unit 'x' ∨ e = unit 'X'
      · have hnot : isUnicode e = false := by rcases hx with rfl | rfl <;> decide
        rw [if_pos hx] at hdigits
        rw [hdigits] at hle hmax
        rw [if_pos hx, if_pos hx, readHex_append hd hle hmax, hnot]
        split <;> simp_all
      · rw [if_neg hx] at hdigits ⊢
        rw [if_neg hx]
        by_cases hu : e = unit 'u'
        · rw [if_pos hu] at hdigits
          rw [hdigits] at hle hmax ⊢
          rw [if_pos hu, if_pos hu, readDigits_append hd hle hmax]
          simp [isUnicode, hu]
        · rw [if_neg hu] at hdigits ⊢
          rw [if_neg hu]
          by_cases hU : e = unit 'U'
          · rw [if_pos hU] at hdigits
            rw [hdigits] at hle hmax ⊢
            rw [if_pos hU, if_pos hU, readDigits_append hd hle hmax]
            simp [isUnicode, hU]
          · rw [if_neg hU] at hdigits ⊢
            rw [if_neg hU, hnone hdigits]
            simp [isUnicode, hu, hU]

/-! ### The loop -/

theorem readString_skip (l : List QChar) : readString fromUcs4 l.length str p (l ++ s) = readString fromUcs4 0 str p s := by
  induction l with
  | nil => rfl
  | cons c l ih =>
    rw [List.length_cons, List.cons_append, readString]
    exact ih

theorem readString_escape (e : QChar) (t : List QChar) :
    readString fromUcs4 0 str p (unit '\\' :: e :: t) =
      readString fromUcs4 (1 + (readEscape fromUcs4 e t).length) (str ++ (readEscape fromUcs4 e t).text)
        (p || (readEscape fromUcs4 e t).pastEnd) (e :: t) := by
  rw [readString.eq_def]
  rfl

theorem readString_plain (hc : Plain c) : readString fromUcs4 0 str p (c :: s) = readString fromUcs4 0 (str ++ [c]) p s := by
  rw [readString.eq_def]
  simp only
  rw [if_neg hc.quote, hc.lineEnd, if_neg Bool.false_ne_true, if_neg hc.backslash]

/-- An escape with its digits is one step of the loop. -/
theorem readString_append (hd : ∀ c ∈ d, isDigitOf e c) (hle : d.length ≤ maxDigits e)
    (hmax : d.length = maxDigits e ∨ ∀ c, s.head? = some c → isDigitOf e c = false) :
    readString fromUcs4 0 str p (unit '\\' :: e :: (d ++ s)) = readString fromUcs4 0 (str ++ escaped fromUcs4 e d)
      (p || (isUnicode e && decide (s = [] ∧ d.length < maxDigits e))) s := by
  have hskip : 1 + d.length = (e :: d).length := by rw [List.length_cons, Nat.add_comm]
  rw [readString_escape, readEscape_append hd hle hmax, ← List.cons_append]
  simp only
  rw [hskip, readString_skip]

/-- A unit that is no digit of an escape. -/
def Ends (t : List QChar) : Prop := ∃ c rest, t = c :: rest ∧ (c = unit '"' ∨ isLineEnd c ∨ c = unit '\\')

theorem Ends.not_digit (h : Ends t) (hc : t.head? = some c) : isDigitOf e c = false := by
  obtain ⟨c', rest, rfl, h⟩ := h
  cases hc
  have hnot : isOctal c = false ∧ isxdigit c = false := by
    rcases h with rfl | h | rfl
    · decide
    · rcases Bool.or_eq_true_iff.mp h with h | h
      · rw [of_decide_eq_true h]
        decide
      · rw [of_decide_eq_true h]
        decide
    · decide
  rw [isDigitOf]
  split
  · exact hnot.1
  · exact hnot.2

/-- What stands between the quotes is put on the string, up to a unit that is no digit. -/
theorem readString_value (h : Value fromUcs4 a v) (ht : Ends t) :
    readString fromUcs4 0 str p (a ++ t) = readString fromUcs4 0 (str ++ v) p t := by
  induction h generalizing str with
  | nil => rw [List.append_nil, List.nil_append]
  | plain hc h ih => rw [List.cons_append, readString_plain hc, ih, List.append_assoc, List.singleton_append]
  | @escape e d s v hd hle hmax h ih =>
    have hne : s ++ t ≠ [] := by
      obtain ⟨c, rest, rfl, -⟩ := ht
      simp
    have hmax' : d.length = maxDigits e ∨ ∀ c, (s ++ t).head? = some c → isDigitOf e c = false := by
      refine hmax.imp_right fun hmax c hc => ?_
      cases s with
      | nil => exact ht.not_digit hc
      | cons x s => exact hmax c hc
    have hnot : decide (s ++ t = [] ∧ d.length < maxDigits e) = false := decide_eq_false fun h => hne h.1
    rw [List.cons_append, List.cons_append, List.append_assoc, readString_append hd hle hmax', hnot, Bool.and_false, Bool.or_false,
      ih, List.append_assoc]

/-- The digits behind `\u` or `\U` that are missing where the input ends. -/
def EndsInside (fromUcs4 : Nat → List QChar) (s : List QChar) : Prop :=
  ∃ a v e d, Value fromUcs4 a v ∧ s = a ++ unit '\\' :: e :: d ∧ isUnicode e ∧ (∀ c ∈ d, isxdigit c) ∧ d.length < maxDigits e

theorem isDigitOf_unicode (h : isUnicode e) : isDigitOf e c = isxdigit c := by
  have hnot : isOctal e = false := by
    rcases Bool.or_eq_true_iff.mp h with h | h
    · rw [of_decide_eq_true h]
      decide
    · rw [of_decide_eq_true h]
      decide
  rw [isDigitOf, hnot, if_neg Bool.false_ne_true]

variable (str p) in
theorem readString_endsInside (h : EndsInside fromUcs4 s) : (readString fromUcs4 0 str p s).pastEnd = true := by
  obtain ⟨a, v, e, d, ha, rfl, he, hd, hlt⟩ := h
  have hd' : ∀ c ∈ d, isDigitOf e c := fun c hc => by rw [isDigitOf_unicode he, hd c hc]
  have hstep : readString fromUcs4 0 (str ++ v) p (unit '\\' :: e :: (d ++ [])) = _ := readString_append hd' hlt.le (.inr (by simp))
  rw [List.append_nil] at hstep
  rw [readString_value ha ⟨_, _, rfl, .inr (.inr rfl)⟩, hstep, he]
  simp [hlt, readString]

variable (str p) in
/-- A text between quotes with nothing behind it. -/
theorem readString_nil (h : Value fromUcs4 a v) : ∃ q, readString fromUcs4 0 str p a = ⟨str ++ v, [], p || q⟩ ∧
    (q = true → EndsInside fromUcs4 a) := by
  induction h generalizing str p with
  | nil => exact ⟨false, by rw [List.append_nil, Bool.or_false]; rfl, by simp⟩
  | plain hc h ih =>
    obtain ⟨q, hread, hq⟩ := ih _ _
    rw [readString_plain hc, hread, List.append_assoc]
    refine ⟨q, rfl, fun htrue => ?_⟩
    obtain ⟨b, w, e, d, hb, rfl, hrest⟩ := hq htrue
    exact ⟨_, _, e, d, hb.plain hc, rfl, hrest⟩
  | @escape e d s v hd hle hmax h ih =>
    obtain ⟨q, hread, hq⟩ := ih _ _
    rw [readString_append hd hle hmax, hread, List.append_assoc, Bool.or_assoc]
    refine ⟨_, rfl, fun htrue => ?_⟩
    rcases Bool.or_eq_true_iff.mp htrue with hend | htrue
    · obtain ⟨he, hshort⟩ := Bool.and_eq_true_iff.mp hend
      obtain ⟨rfl, hlt⟩ := of_decide_eq_true hshort
      refine ⟨[], [], e, d, .nil, by rw [List.append_nil]; rfl, he, fun c hc => ?_, hlt⟩
      rw [← isDigitOf_unicode he]
      exact hd c hc
    · obtain ⟨b, w, e', d', hb, rfl, hrest⟩ := hq htrue
      refine ⟨_, _, e', d', .escape hd hle ?_ hb, by simp, hrest⟩
      refine hmax.imp_right fun hmax c hc => hmax c ?_
      rw [List.head?_append, hc]
      rfl

/-! ### Where a string ends -/

theorem exists_digits (p : QChar → Bool) (n : Nat) (s : List QChar) : ∃ d t, s = d ++ t ∧ (∀ c ∈ d, p c) ∧ d.length ≤ n ∧
    (d.length = n ∨ ∀ c, t.head? = some c → p c = false) := by
  induction n generalizing s with
  | zero => exact ⟨[], s, rfl, by simp, le_refl _, .inl rfl⟩
  | succ n ih =>
    cases s with
    | nil => exact ⟨[], [], rfl, by simp, Nat.zero_le _, .inr (by simp)⟩
    | cons c s =>
      by_cases hc : p c = true
      · obtain ⟨d, t, rfl, hd, hle, hmax⟩ := ih s
        exact ⟨c :: d, t, rfl, List.forall_mem_cons.mpr ⟨hc, hd⟩, Nat.succ_le_succ hle, hmax.imp_left (congrArg (· + 1))⟩
      · exact ⟨[], c :: s, rfl, by simp, Nat.zero_le _, .inr fun x hx => by
          rw [← Option.some.inj hx]
          simpa using hc⟩

/-- A text is what can stand between quotes and what ends it: nothing, a single backslash, a quote or an end of line. -/
theorem exists_value (fromUcs4 : Nat → List QChar) (s : List QChar) : ∃ a v t, s = a ++ t ∧ Value fromUcs4 a v ∧
    (t = [] ∨ t = [unit '\\'] ∨ (∃ rest, t = unit '"' :: rest) ∨ ∃ c rest, t = c :: rest ∧ isLineEnd c) := by
  induction h : s.length using Nat.strong_induction_on generalizing s with
  | _ n ih =>
    cases s with
    | nil => exact ⟨[], [], [], rfl, .nil, .inl rfl⟩
    | cons c s =>
      by_cases hquote : c = unit '"'
      · exact ⟨[], [], c :: s, rfl, .nil, .inr (.inr (.inl ⟨s, by rw [hquote]⟩))⟩
      by_cases hline : isLineEnd c = true
      · exact ⟨[], [], c :: s, rfl, .nil, .inr (.inr (.inr ⟨c, s, rfl, hline⟩))⟩
      by_cases hbackslash : c = unit '\\'
      · subst hbackslash
        cases s with
        | nil => exact ⟨[], [], _, rfl, .nil, .inr (.inl rfl)⟩
        | cons e r =>
          obtain ⟨d, r, rfl, hd, hle, hmax⟩ := exists_digits (isDigitOf e) (maxDigits e) r
          have hlt : r.length < n := by
            rw [← h, List.length_cons, List.length_cons, List.length_append]
            omega
          obtain ⟨a, v, t, rfl, ha, ht⟩ := ih r.length hlt r rfl
          refine ⟨unit '\\' :: e :: (d ++ a), _, t, by simp, .escape hd hle (hmax.imp_right fun hmax c hc => hmax c ?_) ha, ht⟩
          rw [List.head?_append, hc]
          rfl
      · obtain ⟨a, v, t, rfl, ha, ht⟩ := ih s.length (by rw [← h, List.length_cons]; exact Nat.lt_succ_self _) s rfl
        exact ⟨c :: a, c :: v, t, rfl, ha.plain ⟨hquote, by simpa using hline, hbackslash⟩, ht⟩

/-! ### The token -/

/-- The string is closed on its line, with a value and what stands behind the closing quote. -/
def Closed (fromUcs4 : Nat → List QChar) (s v rest : List QChar) : Prop :=
  ∃ a, Value fromUcs4 a v ∧ s = a ++ unit '"' :: rest ∧ ∀ c ∈ a, isLineEnd c = false

/-- The token that `next_token()` is for, with nothing read past the end of the input. -/
def Meets (fromUcs4 : Nat → List QChar) (l : Lexer) : Prop :=
  (nextToken fromUcs4 l).2.2 = false ∧
    ((∃ v rest, Closed fromUcs4 l.input.tail v rest ∧ (nextToken fromUcs4 l).1 = .string v ∧
        (nextToken fromUcs4 l).2.1.input = rest) ∨
      (¬ ∃ v rest, Closed fromUcs4 l.input.tail v rest) ∧ (nextToken fromUcs4 l).1 = .error)

/-- The text behind a quote is closed without an end of line in front of the closing quote, or it ends without one and not
    inside `\u` or `\U`. -/
def Proper (fromUcs4 : Nat → List QChar) (s : List QChar) : Prop :=
  (∃ v rest, Closed fromUcs4 s v rest) ∨
    (∃ a v, Value fromUcs4 a v ∧ (s = a ∨ s = a ++ [unit '\\'])) ∧ ¬ EndsInside fromUcs4 s

theorem readString_quote (h : Value fromUcs4 a v) (rest : List QChar) :
    readString fromUcs4 0 [] false (a ++ unit '"' :: rest) = ⟨v, unit '"' :: rest, false⟩ := by
  rw [readString_value h ⟨_, _, rfl, .inl rfl⟩]
  rfl

theorem readString_lineEnd (h : Value fromUcs4 a v) (hc : isLineEnd c) (rest : List QChar) :
    readString fromUcs4 0 [] false (a ++ c :: rest) = ⟨v, c :: rest, false⟩ := by
  have hquote : c ≠ unit '"' := by
    rintro rfl
    cases hc
  rw [readString_value h ⟨_, _, rfl, .inr (.inl hc)⟩, readString.eq_def]
  simp only
  rw [if_neg hquote, if_pos hc, List.nil_append]

theorem readString_backslash (h : Value fromUcs4 a v) :
    readString fromUcs4 0 [] false (a ++ [unit '\\']) = ⟨v, [], false⟩ := by
  rw [readString_value h ⟨_, _, rfl, .inr (.inr rfl)⟩]
  rfl

/-- A closed string is read as such. -/
theorem Closed.readString {s : List QChar} (h : Closed fromUcs4 s v rest) :
    readString fromUcs4 0 [] false s = ⟨v, unit '"' :: rest, false⟩ := by
  obtain ⟨a, ha, rfl, -⟩ := h
  exact readString_quote ha rest

theorem not_open {s : List QChar} (hs : (readString fromUcs4 0 [] false s).rest ≠ []) :
    ¬ ∃ a v, Value fromUcs4 a v ∧ (s = a ∨ s = a ++ [unit '\\']) := by
  rintro ⟨a, v, ha, rfl | rfl⟩
  · obtain ⟨q, hread, -⟩ := readString_nil [] false ha
    rw [hread] at hs
    exact hs rfl
  · rw [readString_backslash ha] at hs
    exact hs rfl

theorem nextToken_string {l : Lexer} (hs : readString fromUcs4 0 [] false s = ⟨v, c :: rest, p⟩) :
    nextToken fromUcs4 { l with input := unit '"' :: s } = (.string v, { l with input := rest }, p) := by
  rw [nextToken, List.tail_cons, hs]
  rfl

theorem nextToken_error {l : Lexer} (hs : readString fromUcs4 0 [] false s = ⟨v, [], p⟩) :
    (nextToken fromUcs4 { l with input := unit '"' :: s }).1 = .error ∧
      (nextToken fromUcs4 { l with input := unit '"' :: s }).2.2 = p := by
  rw [nextToken, List.tail_cons, hs]
  exact ⟨rfl, rfl⟩

/-- Where the loop stops at the end of the input, the string is not closed, and all that can be wrong is the digit searched
    there. -/
theorem meets_of_error {l : Lexer} (hs : readString fromUcs4 0 [] false s = ⟨v, [], p⟩) :
    Meets fromUcs4 { l with input := unit '"' :: s } ↔ p = false := by
  have hnot : ¬ ∃ v rest, Closed fromUcs4 s v rest := by
    rintro ⟨v', rest, h⟩
    have hread := h.readString
    rw [hs] at hread
    cases hread
  obtain ⟨herror, hpast⟩ := nextToken_error (l := l) hs
  refine ⟨fun h => hpast ▸ h.1, fun h => ⟨hpast.trans h, .inr ⟨hnot, herror⟩⟩⟩

/-- Where it stops in front of the end of the input, the string has to be closed. -/
theorem meets_of_string {l : Lexer} (hs : readString fromUcs4 0 [] false s = ⟨v, c :: rest, false⟩) :
    Meets fromUcs4 { l with input := unit '"' :: s } ↔ Closed fromUcs4 s v rest := by
  have hnext := nextToken_string (l := l) hs
  constructor
  · rintro ⟨-, ⟨v', rest', hclosed, htoken, hinput⟩ | ⟨-, herror⟩⟩
    · rw [hnext] at htoken hinput
      cases htoken
      subst hinput
      exact hclosed
    · rw [hnext] at herror
      cases herror
  · intro h
    refine ⟨by rw [hnext], .inl ⟨v, rest, h, ?_, ?_⟩⟩
    · rw [hnext]
    · rw [hnext]

theorem proper_of_string (hs : readString fromUcs4 0 [] false s = ⟨v, c :: rest, false⟩) :
    Proper fromUcs4 s ↔ Closed fromUcs4 s v rest := by
  constructor
  · rintro (⟨v', rest', h⟩ | ⟨hopen, -⟩)
    · have hread := h.readString
      rw [hs] at hread
      cases hread
      exact h
    · refine absurd hopen (not_open ?_)
      rw [hs]
      exact List.cons_ne_nil _ _
  · exact fun h => .inl ⟨v, rest, h⟩

theorem proper_of_error (hs : readString fromUcs4 0 [] false s = ⟨v, [], p⟩)
    (hopen : ∃ a v, Value fromUcs4 a v ∧ (s = a ∨ s = a ++ [unit '\\'])) : Proper fromUcs4 s ↔ ¬ EndsInside fromUcs4 s := by
  constructor
  · rintro (⟨v', rest, h⟩ | ⟨-, h⟩)
    · have hread := h.readString
      rw [hs] at hread
      cases hread
    · exact h
  · exact fun h => .inr ⟨hopen, h⟩

end SnapParser
end Snapwebsites
