import Snapwebsites.Communicator.QString
import Snapwebsites.Lib.SortedMap

/-! # Configuration files

`snap_config_file`: how a file is read, line by line, and how it is written. A line is read into a buffer of
1024 bytes, so a longer one comes in pieces, each of which is taken for a line (`pieces`). What a piece says does
not depend on the others (`parseLine`); it names a section, which stays until the next one, or a parameter. -/

namespace Snapwebsites

namespace SnapConfig
open QString

/-- The order of `char` in `std::string::compare()`. -/
scoped instance byteOrder : LinearOrder UInt8 where
  le_refl := UInt8.le_refl
  le_trans _ _ _ := UInt8.le_trans
  lt_iff_le_not_ge _ _ := by
    rw [UInt8.le_iff_toNat_le, UInt8.le_iff_toNat_le, UInt8.lt_iff_toNat_lt]
    omega
  le_antisymm _ _ := UInt8.le_antisymm
  le_total := UInt8.le_total
  toDecidableLE := inferInstance
  toDecidableLT := inferInstance

/-- A `parameter_map_t`. -/
abbrev Parameters := SortedMap Bytes Bytes

def newline : UInt8 := 0x0A

def isEndOfLine (b : UInt8) : Bool := b = 0x0A || b = 0x0D

def isSpace (b : UInt8) : Bool := b = 0x20 || (0x09 ≤ b && b ≤ 0x0D)

/-- What `strlen()` sees of a buffer. -/
def cString (b : Bytes) : Bytes := b.takeWhile (· ≠ 0)

/-! ### Lines -/

/-- The bytes of `buf`, without the terminator. -/
def bufSize : Nat := 1023

/-- `QIODevice::readLine()`: up to `n` bytes, the newline included. -/
def readLine : Nat → Bytes → Bytes × Bytes
  | 0, b => ([], b)
  | _ + 1, [] => ([], [])
  | n + 1, c :: b => if c = newline then ([c], b) else (c :: (readLine n b).1, (readLine n b).2)

theorem readLine_append : ∀ n b, (readLine n b).1 ++ (readLine n b).2 = b
  | 0, b => rfl
  | n + 1, [] => rfl
  | n + 1, c :: b => by
    rw [readLine]
    split_ifs
    · rfl
    · rw [List.cons_append, readLine_append n b]

theorem readLine_ne_nil (n : Nat) (c : UInt8) (b : Bytes) : (readLine (n + 1) (c :: b)).1 ≠ [] := by
  rw [readLine]
  split_ifs <;> exact List.cons_ne_nil _ _

theorem readLine_length (c : UInt8) (b : Bytes) : (readLine bufSize (c :: b)).2.length < (c :: b).length := by
  have happend := congrArg List.length (readLine_append bufSize (c :: b))
  have hpos := List.length_pos_iff.mpr (readLine_ne_nil 1022 c b)
  rw [List.length_append] at happend
  change 0 < (readLine bufSize (c :: b)).1.length at hpos
  omega

/-- What the loop over `readLine()` gets. -/
def pieces : Bytes → List Bytes
  | [] => []
  | c :: b => (readLine bufSize (c :: b)).1 :: pieces (readLine bufSize (c :: b)).2
termination_by b => b.length
decreasing_by exact readLine_length c b

/-- What a line says. -/
inductive Line
  | blank
  | sectionOf (name : Bytes)
  | parameter (name value : Bytes)
  deriving DecidableEq, Repr

/-- Why a line is refused. -/
inductive Refusal
  | tooLong | noSection | noEqualSign
  deriving DecidableEq, Repr

/-- The text of `snap_configurations_exception_config_error`. -/
def Refusal.message (filename : QString) (line : Nat) : Refusal → QString
  | tooLong => "line ".toList ++ number line ++ " in \"".toList ++ filename ++ "\" is too long".toList
  | noSection => "invalid section on line ".toList ++ number line ++ " in \"".toList ++ filename ++ "\", no equal sign found".toList
  | noEqualSign => "invalid variable on line ".toList ++ number line ++ " in \"".toList ++ filename ++ "\", no equal sign found".toList

/-- `replace_all(value, "\\n", "\n")`. -/
def unescape : Bytes → Bytes
  | [] => []
  | [c] => [c]
  | c :: d :: s => if c = 0x5C ∧ d = 0x6E then newline :: unescape s else c :: unescape (d :: s)

def trim (s : Bytes) : Bytes := (s.dropWhile isSpace).rdropWhile isSpace

/-- Single or double quotes are removed; one that is alone counts as two. -/
def unquote (s : Bytes) : Bytes :=
  if (s.head? = some 0x27 ∧ s.getLast? = some 0x27) ∨ (s.head? = some 0x22 ∧ s.getLast? = some 0x22) then s.tail.dropLast else s

/-- A line behind its `[`. -/
def parseSection (s : Bytes) : Except Refusal Line :=
  let n := s.dropWhile isSpace
  let inName := fun b : UInt8 => !(b = 0x5D) && !isSpace b && !(b = 0x3A)
  if ((n.dropWhile inName).dropWhile isSpace).head? ≠ some 0x5D ∨ n.takeWhile inName = [] then .error .noSection
  else .ok (.sectionOf (n.takeWhile inName))

def parseVariable (n : Bytes) : Except Refusal Line :=
  match n.dropWhile (· ≠ 0x3D) with
  | [] => .error .noEqualSign
  | _ :: v => .ok (.parameter ((n.takeWhile (· ≠ 0x3D)).rdropWhile isSpace) (unescape (unquote (trim v))))

/-- A line without the spaces in front and what ends it. -/
def parseText : Bytes → Except Refusal Line
  | [] => .ok .blank
  | c :: s =>
    if c = 0x23 ∨ c = 0x3B then .ok .blank
    else if c = 0x5B then parseSection s
    else parseVariable (c :: s)

/-- The body of the loop, for what is in `buf`. -/
def parseLine (buf : Bytes) : Except Refusal Line :=
  if (cString buf).getLast?.any isEndOfLine then
    parseText (((cString buf).dropLast.rdropWhile isEndOfLine).dropWhile isSpace)
  else .error .tooLong

/-! ### Reading -/

/-- The variable `prefix` of the loop and `f_parameters`. -/
structure Reading where
  scope : Bytes := []
  parameters : Parameters := ∅

def Reading.line (r : Reading) : Line → Reading
  | .blank => r
  | .sectionOf name => { r with scope := name ++ [0x3A, 0x3A] }
  | .parameter name value => { r with parameters := r.parameters.insert (r.scope ++ name) value }

/-- The loop of `actual_read_config_file()`; the result is the text of the exception or the parameters. -/
def readLines (filename : QString) : Nat → Reading → List Bytes → Except QString Parameters
  | _, r, [] => .ok r.parameters
  | n, r, p :: ps =>
    match parseLine p with
    | .error e => .error (e.message filename n)
    | .ok l => readLines filename (n + 1) (r.line l) ps

/-- `actual_read_config_file()` into the parameters that are there; `none` is a file that cannot be opened. -/
def actualReadConfigFile (filename : QString) (file : Option Bytes) (parameters : Parameters) : Except QString (Bool × Parameters) :=
  match file with
  | none => .ok (false, parameters)
  | some b =>
    match readLines filename 1 { parameters } (pieces b) with
    | .error e => .error e
    | .ok parameters => .ok (true, parameters)

/-! ### Writing -/

/-- A date as it is written with "yyyy/MM/dd" or with "HH:mm:ss". -/
structure Stamp where
  text : Bytes
  short : text.length ≤ 64
  printed : ∀ b ∈ text, 0x20 ≤ b

def escape (s : Bytes) : Bytes := s.flatMap fun b => if b = newline then [0x5C, 0x6E] else [b]

/-- The comments in front, each without its newline. -/
def comments (date time : Stamp) : List Bytes :=
  [0x23 :: utf8 " This file was auto-generated by snap_config.cpp on ".toList ++ date.text ++ utf8 " at ".toList ++ time.text ++ utf8 ".".toList,
   0x23 :: utf8 " Making modifications here is likely safe unless the tool handling this".toList,
   0x23 :: utf8 " configuration file is actively working on it while you do the edits.".toList]

/-- The line of a parameter, without its newline. -/
def bodyOf (e : Bytes × Bytes) : Bytes := cString e.1 ++ 0x3D :: escape (cString e.2)

/-- `actual_write_config_file()`, when the file can be opened. -/
def actualWriteConfigFile (date time : Stamp) (parameters : Parameters) : Bytes :=
  (comments date time).flatMap (· ++ [newline]) ++
    (parameters.entries.filter fun e => !(e.1.contains 0x2E || e.1.contains 0x2F)).flatMap fun e => bodyOf e ++ [newline]

end SnapConfig
end Snapwebsites
