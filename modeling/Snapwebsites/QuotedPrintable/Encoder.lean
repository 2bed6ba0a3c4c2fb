import Mathlib.Data.List.TakeWhile
import Mathlib.Tactic.Common

/-! # The quoted printable encoder

`quoted_printable::encode()` holds back one blank, as a blank cannot end a line, and what it appends to its result is laid out on
lines: single characters, characters in hex and line ends. -/

namespace Snapwebsites
namespace QuotedPrintable

abbrev Byte := UInt8

def byte (c : Char) : Byte := UInt8.ofNat c.toNat

/-! ### The flags -/

def binary : BitVec 32 := 0x0001
def edbic : BitVec 32 := 0x0002
def lfOnly : BitVec 32 := 0x0004
def noLonePeriod : BitVec 32 := 0x0008

def hasFlag (flags flag : BitVec 32) : Bool := flags &&& flag ≠ 0

/-! ### The encoder -/

/-- The class `result` of `encode()`. -/
structure Encoder where
  flags : BitVec 32
  buffer : Byte := 0
  result : List Byte := []
  line : Nat := 0
  cr : Bool := false
  deriving DecidableEq

def toHex (c : Byte) : Byte :=
  let c := c &&& 15
  if c ≤ 9 then c + byte '0' else c + byte 'A' - 10

def isLineEnd (c : Byte) : Bool := c = byte '\n' || c = byte '\r'

def isBlank (c : Byte) : Bool := c = byte ' ' || c = byte '\t'

/-- The line end that goes on with the line. -/
def softBreak (flags : BitVec 32) : List Byte :=
  if hasFlag flags lfOnly then [byte '=', byte '\n'] else [byte '=', byte '\r', byte '\n']

def breakLine (e : Encoder) : Encoder := { e with result := e.result ++ softBreak e.flags, line := 0 }

def addByte (e : Encoder) (c : Byte) : Encoder :=
  if isLineEnd c then
    if c ≠ byte '\r' ∨ !hasFlag e.flags lfOnly then { e with result := e.result ++ [c], line := 0 }
    else { e with line := 0 }
  else
    let e := if e.line ≥ 75 then breakLine e else e
    { e with result := e.result ++ [c], line := e.line + 1 }

def addHex (e : Encoder) (c : Byte) : Encoder :=
  let e := if e.line ≥ 73 then breakLine e else e
  addByte (addByte (addByte e (byte '=')) (toHex (c >>> 4))) (toHex c)

def addData (e : Encoder) (c : Byte) : Encoder :=
  if isBlank c then
    let e := if e.buffer ≠ 0 then addByte e e.buffer else e
    { e with buffer := c }
  else if c = byte '\n' ∧ e.cr then { e with cr := false }
  else
    let e := { e with cr := decide (c = byte '\r') }
    if isLineEnd c then
      let e := if e.buffer ≠ 0 then { addHex e e.buffer with buffer := 0 } else e
      addByte (addByte e (byte '\r')) (byte '\n')
    else
      let e := if e.buffer ≠ 0 then { addByte e e.buffer with buffer := 0 } else e
      addByte e c

/-- The characters that `QUOTED_PRINTABLE_FLAG_EDBIC` has encoded. -/
def isEdbic (c : Byte) : Bool :=
  c ∈ [byte '!', byte '"', byte '#', byte '$', byte '@', byte '[', byte '\\', byte ']', byte '^', byte '`', byte '\x7b', byte '|',
    byte '\x7d', byte '~']

def encodeChar (flags : BitVec 32) (c : Byte) : Bool :=
  if isLineEnd c || isBlank c then hasFlag flags binary
  else if c = byte '=' then true
  else if isEdbic c then hasFlag flags edbic
  else !(byte ' ' ≤ c && c ≤ byte '~')

def addChar (e : Encoder) (c : Byte) : Encoder := if encodeChar e.flags c then addHex e c else addData e c

/-- A period in front of a line end or of the end, alone on its line as far as the column says. -/
def isLonePeriod (e : Encoder) (c next : Byte) : Bool :=
  hasFlag e.flags noLonePeriod && c = byte '.' && (isLineEnd next || next = 0) && (e.line = 0 || e.line ≥ 75)

/-- The body of the loop of `add_string()`. -/
def addNext (e : Encoder) (c next : Byte) : Encoder := if isLonePeriod e c next then addHex e (byte '.') else addChar e c

/-- The loop of `add_string()`, over characters in front of the NUL. -/
def addLoop (e : Encoder) : List Byte → Encoder
  | [] => if e.buffer ≠ 0 then { addHex e e.buffer with buffer := 0 } else e
  | c :: s => addLoop (addNext e c (s.headD 0)) s

def addString (e : Encoder) (s : List Byte) : Encoder := addLoop { e with buffer := 0 } s

/-- The text of `c_str()`, in front of the first NUL. -/
def cString (s : List Byte) : List Byte := s.takeWhile (· ≠ 0)

def encode (flags : BitVec 32) (input : List Byte) : List Byte := (addString { flags } (cString input)).result

/-! ### Pieces -/

/-- What the encoder puts on its lines. -/
inductive Piece
  | plain (c : Byte)
  | hex (c : Byte)
  | lineEnd
  deriving DecidableEq

def put (e : Encoder) : Piece → Encoder
  | .plain c => addByte e c
  | .hex c => addHex e c
  | .lineEnd => addByte (addByte e (byte '\r')) (byte '\n')

/-- The character is encoded as hex digits. -/
def hexed (e : Encoder) (c next : Byte) : Bool := isLonePeriod e c next || encodeChar e.flags c

def held (f : Byte → Piece) (e : Encoder) : List Piece := if e.buffer ≠ 0 then [f e.buffer] else []

/-- What a character adds, with the blank that was held back. -/
def pieces (e : Encoder) (c next : Byte) : List Piece :=
  if hexed e c next then [.hex c]
  else if isBlank c then held .plain e
  else if c = byte '\n' ∧ e.cr then []
  else if isLineEnd c then held .hex e ++ [.lineEnd]
  else held .plain e ++ [.plain c]

def buffered (e : Encoder) (c next : Byte) : Byte :=
  if hexed e c next then e.buffer
  else if isBlank c then c
  else if c = byte '\n' ∧ e.cr then e.buffer
  else 0

def crAfter (e : Encoder) (c next : Byte) : Bool :=
  if hexed e c next then e.cr
  else if isBlank c then e.cr
  else decide (c = byte '\r')

/-! ### What a piece does -/

variable {e : Encoder} {c next : Byte} {p : Piece} {ps : List Piece} {s : List Byte}

theorem addByte_plain (hc : isLineEnd c = false) : addByte e c = if e.line ≥ 75
    then { e with result := e.result ++ softBreak e.flags ++ [c], line := 1 }
    else { e with result := e.result ++ [c], line := e.line + 1 } := by
  rw [addByte, hc, if_neg Bool.false_ne_true]
  split
  · rfl
  · rfl

/-- The line end of the text. -/
def lineEnd (flags : BitVec 32) : List Byte := if hasFlag flags lfOnly then [byte '\n'] else [byte '\r', byte '\n']

theorem put_lineEnd : put e .lineEnd = { e with result := e.result ++ lineEnd e.flags, line := 0 } := by
  cases h : hasFlag e.flags lfOnly
  · simp [put, addByte, isLineEnd, h, lineEnd]
  · have hnot : byte '\n' ≠ byte '\r' := by decide
    simp [put, addByte, isLineEnd, h, lineEnd, hnot]

theorem forall_byte {q : Byte → Prop} (h : ∀ n : Fin 256, q (UInt8.ofNat n)) (c : Byte) : q c := by
  have hc := h ⟨c.toNat, c.toNat_lt⟩
  rwa [UInt8.ofNat_toNat] at hc

theorem forall_digit {q : Byte → Byte → Prop} (h : ∀ n : Fin 16, q (UInt8.ofNat n) (toHex (UInt8.ofNat n))) (c : Byte) :
    q (c &&& 15) (toHex c) := by
  have hlt : (c &&& 15).toNat < 16 := by
    rw [UInt8.toNat_and]
    exact Nat.lt_succ_of_le Nat.and_le_right
  have hc := h ⟨(c &&& 15).toNat, hlt⟩
  rw [UInt8.ofNat_toNat] at hc
  have heq : toHex (c &&& 15) = toHex c := by simp only [toHex, UInt8.and_assoc, UInt8.and_self]
  rwa [heq] at hc

theorem toHex_lineEnd (c : Byte) : isLineEnd (toHex c) = false :=
  forall_digit (q := fun _ d => isLineEnd d = false) (by decide) c

/-- The three characters of a hex code. -/
def hexCode (c : Byte) : List Byte := [byte '=', toHex (c >>> 4), toHex c]

theorem put_hex : put e (.hex c) = if e.line ≥ 73
    then { e with result := e.result ++ softBreak e.flags ++ hexCode c, line := 3 }
    else { e with result := e.result ++ hexCode c, line := e.line + 3 } := by
  have hequal : isLineEnd (byte '=') = false := by decide
  have hthree : ∀ e : Encoder, e.line < 73 → addByte (addByte (addByte e (byte '=')) (toHex (c >>> 4))) (toHex c) =
      { e with result := e.result ++ hexCode c, line := e.line + 3 } := by
    intro e he
    have h0 : ¬ e.line ≥ 75 := by omega
    have h1 : ¬ e.line + 1 ≥ 75 := by omega
    have h2 : ¬ e.line + 1 + 1 ≥ 75 := by omega
    rw [addByte_plain hequal, if_neg h0, addByte_plain (toHex_lineEnd (c >>> 4))]
    simp only
    rw [if_neg h1, addByte_plain (toHex_lineEnd c)]
    simp only
    rw [if_neg h2]
    simp [hexCode]
  rw [put, addHex]
  split
  · rw [hthree _ (by rw [breakLine]; exact Nat.zero_lt_succ _)]
    rfl
  · exact hthree e (by omega)

/-- The encoder with another blank held back, and another answer to whether a carriage return came. -/
def holding (e : Encoder) (b : Byte) (r : Bool) : Encoder := { e with buffer := b, cr := r }

theorem addByte_holding (b : Byte) (r : Bool) (c : Byte) : addByte (holding e b r) c = holding (addByte e c) b r := by
  by_cases hc : isLineEnd c = true
  · rw [addByte, addByte, if_pos hc, if_pos hc]
    by_cases hlf : c ≠ byte '\r' ∨ (!hasFlag e.flags lfOnly) = true
    · rw [if_pos hlf]
      exact if_pos hlf
    · rw [if_neg hlf]
      exact if_neg hlf
  · have hc : isLineEnd c = false := by simpa using hc
    rw [addByte_plain hc, addByte_plain hc]
    by_cases hline : e.line ≥ 75
    · rw [if_pos hline]
      exact if_pos hline
    · rw [if_neg hline]
      exact if_neg hline

/-- A piece reads and changes the text and the column only. -/
theorem put_holding (b : Byte) (r : Bool) (p : Piece) : put (holding e b r) p = holding (put e p) b r := by
  cases p with
  | plain c => exact addByte_holding b r c
  | hex c =>
    rw [put_hex, put_hex]
    by_cases hline : e.line ≥ 73
    · rw [if_pos hline]
      exact if_pos hline
    · rw [if_neg hline]
      exact if_neg hline
  | lineEnd =>
    rw [put_lineEnd, put_lineEnd]
    rfl

theorem foldl_put_holding (b : Byte) (r : Bool) (ps : List Piece) :
    ps.foldl put (holding e b r) = holding (ps.foldl put e) b r := by
  induction ps generalizing e with
  | nil => rfl
  | cons p ps ih => rw [List.foldl_cons, List.foldl_cons, put_holding, ih]

theorem foldl_put_eq (ps : List Piece) : ps.foldl put e = holding (ps.foldl put e) e.buffer e.cr :=
  foldl_put_holding e.buffer e.cr ps

theorem put_cr (p : Piece) : (put e p).cr = e.cr := by
  have h : put e p = holding (put e p) e.buffer e.cr := put_holding e.buffer e.cr p
  rw [h]
  rfl

/-! ### What a character does -/

theorem foldl_held (f : Byte → Piece) : (held f e).foldl put e = if e.buffer ≠ 0 then put e (f e.buffer) else e := by
  rw [held]
  split
  · rfl
  · rfl

theorem addData_blank (hc : isBlank c = true) : addData e c = holding ((held .plain e).foldl put e) c e.cr := by
  rw [addData, if_pos hc, foldl_held]
  split
  · rw [← put_cr (.plain e.buffer)]
    rfl
  · rfl

/-- What is held back is put, and nothing is held back any more. -/
theorem release (f : Byte → Piece) (r : Bool) : (if e.buffer ≠ 0
    then { put (holding e e.buffer r) (f e.buffer) with buffer := 0 } else holding e e.buffer r) =
      holding ((held f e).foldl put e) 0 r := by
  rw [foldl_held]
  split
  · rw [put_holding]
    rfl
  · have hzero : e.buffer = 0 := by simpa using ‹¬ e.buffer ≠ 0›
    rw [hzero]

theorem addData_eq (hblank : isBlank c = false) (hcr : ¬ (c = byte '\n' ∧ e.cr)) : addData e c =
    holding ((if isLineEnd c then held .hex e ++ [.lineEnd] else held .plain e ++ [Piece.plain c]).foldl put e)
      0 (decide (c = byte '\r')) := by
  have hput : ∀ (f : Byte → Piece) (q : Piece), holding ((held f e ++ [q]).foldl put e) 0 (decide (c = byte '\r')) =
      put (holding ((held f e).foldl put e) 0 (decide (c = byte '\r'))) q := by
    intro f q
    rw [List.foldl_append, put_holding]
    rfl
  rw [addData, hblank, if_neg Bool.false_ne_true, if_neg hcr]
  by_cases hline : isLineEnd c = true
  · rw [if_pos hline, if_pos hline, hput, ← release]
    rfl
  · rw [if_neg hline, if_neg hline, hput, ← release]
    rfl

/-- A character puts its pieces, and sets what is held back and whether it was a carriage return. -/
theorem addNext_eq (e : Encoder) (c next : Byte) :
    addNext e c next = holding ((pieces e c next).foldl put e) (buffered e c next) (crAfter e c next) := by
  rw [pieces, buffered, crAfter]
  by_cases hhex : hexed e c next = true
  · have hadd : addNext e c next = addHex e c := by
      rw [addNext, addChar]
      split
      · have hlone := ‹isLonePeriod e c next = true›
        simp only [isLonePeriod, Bool.and_eq_true, decide_eq_true_eq] at hlone
        rw [hlone.1.1.2]
      · rw [hexed, (by simpa using ‹¬ isLonePeriod e c next = true› : isLonePeriod e c next = false), Bool.false_or] at hhex
        rw [if_pos hhex]
    rw [if_pos hhex, if_pos hhex, if_pos hhex, hadd]
    exact foldl_put_eq [.hex c]
  · have hnot := hhex
    simp only [hexed, Bool.or_eq_true, not_or] at hnot
    rw [addNext, if_neg hnot.1, addChar, if_neg hnot.2, if_neg hhex, if_neg hhex, if_neg hhex]
    by_cases hblank : isBlank c = true
    · rw [if_pos hblank, if_pos hblank, if_pos hblank]
      exact addData_blank hblank
    · rw [if_neg hblank, if_neg hblank, if_neg hblank]
      have hblank : isBlank c = false := by simpa using hblank
      by_cases hcr : c = byte '\n' ∧ e.cr
      · rw [addData, hblank, if_neg Bool.false_ne_true, if_pos hcr, if_pos hcr, if_pos hcr, hcr.1]
        rfl
      · rw [if_neg hcr, if_neg hcr, addData_eq hblank hcr]

/-- What a character can do: the pieces that it puts, what it holds back, and whether it counts as a carriage return. -/
inductive Adds (e : Encoder) (c next : Byte) : List Piece → Byte → Bool → Prop
  | hex (hhex : hexed e c next) : Adds e c next [.hex c] e.buffer e.cr
  | blank (hhex : hexed e c next = false) (hblank : isBlank c) : Adds e c next (held .plain e) c e.cr
  | merged (hhex : hexed e c next = false) (hc : c = byte '\n') (hcr : e.cr) : Adds e c next [] e.buffer false
  | lineEnd (hhex : hexed e c next = false) (hline : isLineEnd c) (hcr : ¬ (c = byte '\n' ∧ e.cr)) :
      Adds e c next (held .hex e ++ [.lineEnd]) 0 (decide (c = byte '\r'))
  | plain (hhex : hexed e c next = false) (hblank : isBlank c = false) (hline : isLineEnd c = false) :
      Adds e c next (held .plain e ++ [.plain c]) 0 false

theorem exists_adds (e : Encoder) (c next : Byte) : ∃ ps b r, Adds e c next ps b r ∧ pieces e c next = ps ∧
    addNext e c next = holding (ps.foldl put e) b r := by
  refine ⟨_, _, _, ?_, rfl, addNext_eq e c next⟩
  rw [pieces, buffered, crAfter]
  split
  · exact .hex ‹_›
  have hhex : hexed e c next = false := by simpa using ‹¬ hexed e c next = true›
  split
  · exact .blank hhex ‹_›
  have hblank : isBlank c = false := by simpa using ‹¬ isBlank c = true›
  split
  · obtain ⟨hc, hcr⟩ := ‹c = byte '\n' ∧ e.cr = true›
    have hnot : decide (c = byte '\r') = false := by
      rw [hc]
      rfl
    rw [hnot]
    exact .merged hhex hc hcr
  split
  · exact .lineEnd hhex ‹_› ‹_›
  · have hline : isLineEnd c = false := by simpa using ‹¬ isLineEnd c = true›
    have hnot : decide (c = byte '\r') = false := (Bool.or_eq_false_iff.mp hline).2
    rw [hnot]
    exact .plain hhex hblank hline

theorem addByte_flags (e : Encoder) (c : Byte) : (addByte e c).flags = e.flags := by
  rw [addByte]
  split
  · split
    · rfl
    · rfl
  · simp only
    split
    · rfl
    · rfl

theorem put_flags (e : Encoder) (p : Piece) : (put e p).flags = e.flags := by
  cases p with
  | plain c => exact addByte_flags e c
  | hex c =>
    rw [put_hex]
    split
    · rfl
    · rfl
  | lineEnd => rw [put_lineEnd]

theorem foldl_put_flags (e : Encoder) (ps : List Piece) : (ps.foldl put e).flags = e.flags := by
  induction ps generalizing e with
  | nil => rfl
  | cons p ps ih => rw [List.foldl_cons, ih, put_flags]

theorem addNext_flags (e : Encoder) (c next : Byte) : (addNext e c next).flags = e.flags := by
  rw [addNext_eq]
  exact foldl_put_flags e _

/-! ### What a text adds -/

def allPieces : Encoder → List Byte → List Piece
  | e, [] => held .hex e
  | e, c :: s => pieces e c (s.headD 0) ++ allPieces (addNext e c (s.headD 0)) s

/-- The result is the pieces of the text, one after the other. -/
theorem addLoop_result (e : Encoder) (s : List Byte) : (addLoop e s).result = ((allPieces e s).foldl put e).result := by
  induction s generalizing e with
  | nil =>
    have h : addLoop e [] = holding ((held .hex e).foldl put e) 0 e.cr := release .hex e.cr
    rw [h]
    rfl
  | cons c s ih =>
    rw [addLoop, ih, allPieces, List.foldl_append, addNext_eq, foldl_put_holding]
    rfl

/-- What stands for itself is a tab or a printable character other than `=`, and no NUL is encoded. -/
def Piece.Valid : Piece → Prop
  | .plain c => (c = byte '\t' ∨ byte ' ' ≤ c ∧ c ≤ byte '~') ∧ c ≠ byte '='
  | .hex c => c ≠ 0
  | .lineEnd => True

theorem Piece.Valid.not_special (h : (Piece.plain c).Valid) : c ≠ 0 ∧ isLineEnd c = false := by
  refine ⟨?_, ?_⟩
  · rintro rfl
    exact absurd h.1 (by decide)
  · rw [Bool.eq_false_iff]
    intro hline
    rcases Bool.or_eq_true_iff.mp hline with hc | hc
    · rw [of_decide_eq_true hc] at h
      exact absurd h.1 (by decide)
    · rw [of_decide_eq_true hc] at h
      exact absurd h.1 (by decide)

theorem blank_not_lineEnd (hblank : isBlank c = true) : isLineEnd c = false := by
  rcases Bool.or_eq_true_iff.mp hblank with hc | hc
  · rw [of_decide_eq_true hc]
    decide
  · rw [of_decide_eq_true hc]
    decide

/-- What is held back is a blank. -/
def Holds (e : Encoder) : Prop := e.buffer = 0 ∨ isBlank e.buffer

theorem valid_blank (hc : isBlank c = true) : (Piece.plain c).Valid ∧ (Piece.hex c).Valid := by
  rcases Bool.or_eq_true_iff.mp hc with hc | hc
  · rw [of_decide_eq_true hc, Piece.Valid, Piece.Valid]
    decide
  · rw [of_decide_eq_true hc, Piece.Valid, Piece.Valid]
    decide

theorem Holds.held (h : Holds e) {f : Byte → Piece} (hf : f = .plain ∨ f = .hex) (hp : p ∈ held f e) : p.Valid := by
  rw [QuotedPrintable.held] at hp
  split at hp
  · have hblank := h.resolve_left ‹e.buffer ≠ 0›
    rw [List.mem_singleton] at hp
    subst hp
    rcases hf with rfl | rfl
    · exact (valid_blank hblank).1
    · exact (valid_blank hblank).2
  · cases hp

theorem Holds.addNext (h : Holds e) (c next : Byte) : Holds (addNext e c next) := by
  obtain ⟨ps, b, r, hadds, -, heq⟩ := exists_adds e c next
  rw [heq]
  show b = 0 ∨ isBlank b
  cases hadds with
  | hex => exact h
  | blank _ hblank => exact .inr hblank
  | merged => exact h
  | lineEnd => exact .inl rfl
  | plain => exact .inl rfl

theorem valid_of_not_encodeChar (hhex : encodeChar e.flags c = false) (hblank : isBlank c = false) (hline : isLineEnd c = false) :
    (Piece.plain c).Valid := by
  rw [encodeChar, hblank, hline, Bool.or_false, if_neg Bool.false_ne_true] at hhex
  by_cases hequal : c = byte '='
  · rw [if_pos hequal] at hhex
    cases hhex
  · rw [if_neg hequal] at hhex
    refine ⟨.inr ?_, hequal⟩
    by_cases hedbic : isEdbic c = true
    · have hall : ∀ l : List Byte, (l.all fun c => byte ' ' ≤ c ∧ c ≤ byte '~') = true → c ∈ l → byte ' ' ≤ c ∧ c ≤ byte '~' :=
        fun l hl hmem => of_decide_eq_true (List.all_eq_true.mp hl c hmem)
      exact hall _ (by decide) (of_decide_eq_true hedbic)
    · rw [if_neg hedbic] at hhex
      simpa using hhex

theorem pieces_valid (h : Holds e) (hc : c ≠ 0) (hp : p ∈ pieces e c next) : p.Valid := by
  obtain ⟨ps, b, r, hadds, hpieces, -⟩ := exists_adds e c next
  rw [hpieces] at hp
  cases hadds with
  | hex =>
    rw [List.mem_singleton] at hp
    subst hp
    exact hc
  | blank => exact h.held (.inl rfl) hp
  | merged => cases hp
  | lineEnd =>
    rcases List.mem_append.mp hp with hp | hp
    · exact h.held (.inr rfl) hp
    · rw [List.mem_singleton] at hp
      subst hp
      trivial
  | plain hhex hblank hline =>
    rcases List.mem_append.mp hp with hp | hp
    · exact h.held (.inl rfl) hp
    · rw [List.mem_singleton] at hp
      subst hp
      exact valid_of_not_encodeChar (Bool.or_eq_false_iff.mp hhex).2 hblank hline

theorem allPieces_valid (h : Holds e) (hs : 0 ∉ s) (hp : p ∈ allPieces e s) : p.Valid := by
  induction s generalizing e with
  | nil => exact h.held (.inr rfl) hp
  | cons c s ih =>
    rw [List.mem_cons, not_or] at hs
    rcases List.mem_append.mp hp with hp | hp
    · exact pieces_valid h (Ne.symm hs.1) hp
    · exact ih (h.addNext _ _) hs.2 hp

/-- A text without NUL is encoded whole. -/
theorem encode_eq (flags : BitVec 32) (hs : 0 ∉ s) :
    encode flags s = ((allPieces { flags } s).foldl put { flags }).result := by
  have hall : cString s = s := by
    rw [cString, List.takeWhile_eq_self_iff]
    intro c hc
    exact decide_eq_true fun h => hs (h ▸ hc)
  rw [encode, addString, hall, addLoop_result]

end QuotedPrintable
end Snapwebsites
