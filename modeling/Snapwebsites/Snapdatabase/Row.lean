import Mathlib.Order.Fin.Basic
import Snapwebsites.Lib.Format
import Snapwebsites.Lib.SortedMap

/-! # Rows in binary

`row::to_binary()` writes the version of the schema and then each cell: its column identifier and its value, big-endian.
`row::from_binary()` reads cells until a column identifier is zero or less than two bytes are left, and throws for a column that
the schema does not have. Where it reads behind the end of the buffer, the reader fails. A floating point value is kept as the bytes
that stand for it. -/

namespace Snapwebsites.Snapdatabase

/-- `struct_type_t`. -/
inductive StructType
  | typeEnd | void
  | bits8 | bits16 | bits32 | bits64 | bits128 | bits256 | bits512
  | int8 | uint8 | int16 | uint16 | int32 | uint32 | int64 | uint64 | int128 | uint128 | int256 | uint256 | int512 | uint512
  | float32 | float64 | float128
  | version | time | mstime | ustime
  | p8string | p16string | p32string
  | typeStructure | array8 | array16 | array32 | buffer8 | buffer16 | buffer32
  | reference | oid | renamed
deriving DecidableEq

/-- `column_id_t`. -/
abbrev ColumnId := Fin 65536

instance ColumnId.neZero : NeZero 65536 := ⟨by decide⟩

/-- The identifier that `assign_column_ids()` gives first. -/
def firstColumnId : ColumnId := 1

/-- The columns by identifier. Identifiers are given from 1 on. -/
structure RowSchema where
  version : Nat
  version_lt : version < 256 ^ 4
  column : ColumnId → Option StructType
  column_zero : column 0 = none

/-- `assign_column_ids()` for a new table, with the columns in the order of their names. -/
def RowSchema.assign (version : Nat) (version_lt : version < 256 ^ 4) (columns : List StructType) : RowSchema where
  version := version
  version_lt := version_lt
  column k := if k = 0 then none else columns[k.val - firstColumnId.val]?
  column_zero := if_pos rfl

/-- The values of a cell; its type is with its column. -/
structure RowCell where
  integer : BitVec 512 := 0
  float : Bytes := []
  string : Bytes := []
deriving DecidableEq

/-- `f_cells`. -/
abbrev Row := SortedMap ColumnId RowCell

namespace RowCell

/-- `set_uinteger()`, and the same for more than one word. -/
def setUinteger (w n : Nat) (c : RowCell) : RowCell := { c with integer := (BitVec.ofNat (8 * w) n).setWidth 512 }

/-- `set_integer()`, and the same for more than one word: the sign is extended. -/
def setInteger (w n : Nat) (c : RowCell) : RowCell := { c with integer := (BitVec.ofNat (8 * w) n).signExtend 512 }

/-- The string behind its size, which takes `w` bytes. -/
def stringToBinary (w : Nat) (c : RowCell) : Option Bytes :=
  if 256 ^ w ≤ c.string.length then none else some (bigEndian w c.string.length ++ c.string)

/-- `value_to_binary()`; nothing when it throws. -/
def valueToBinary (type : StructType) (c : RowCell) : Option Bytes :=
  match type with
  | .void => some []
  | .bits8 | .uint8 | .int8 => some (bigEndian 1 c.integer.toNat)
  | .bits16 | .uint16 | .int16 => some (bigEndian 2 c.integer.toNat)
  | .bits32 | .uint32 | .version | .int32 => some (bigEndian 4 c.integer.toNat)
  | .bits64 | .uint64 | .reference | .oid | .time | .mstime | .ustime | .int64 => some (bigEndian 8 c.integer.toNat)
  | .bits128 | .uint128 | .int128 => some (bigEndian 16 c.integer.toNat)
  | .bits256 | .uint256 | .int256 => some (bigEndian 32 c.integer.toNat)
  | .bits512 | .uint512 | .int512 => some (bigEndian 64 c.integer.toNat)
  | .float32 | .float64 | .float128 => some c.float
  | .p8string => c.stringToBinary 1
  | .p16string => c.stringToBinary 2
  | .p32string => c.stringToBinary 4
  | .typeStructure | .array8 | .array16 | .array32 | .buffer8 | .buffer16 | .buffer32 | .typeEnd | .renamed => none

def readUinteger (w : Nat) (c : RowCell) : Reader RowCell := do
  let n ← Reader.bigEndian w
  pure (c.setUinteger w n)

def readInteger (w : Nat) (c : RowCell) : Reader RowCell := do
  let n ← Reader.bigEndian w
  pure (c.setInteger w n)

def readFloat (w : Nat) (c : RowCell) : Reader RowCell := do
  let b ← Reader.bytes w
  pure { c with float := b }

def readString (w : Nat) (c : RowCell) : Reader RowCell := do
  let n ← Reader.bigEndian w
  let b ← Reader.bytes n
  pure { c with string := b }

/-- `value_from_binary()`. -/
def valueFromBinary (type : StructType) (c : RowCell) : Reader RowCell :=
  match type with
  | .void => pure c
  | .bits8 | .uint8 => c.readUinteger 1
  | .int8 => c.readInteger 1
  | .bits16 | .uint16 => c.readUinteger 2
  | .int16 => c.readInteger 2
  | .bits32 | .uint32 | .version => c.readUinteger 4
  | .int32 => c.readInteger 4
  | .bits64 | .uint64 | .reference | .oid => c.readInteger 8
  | .time | .mstime | .ustime | .int64 => c.readInteger 8
  | .bits128 | .uint128 => c.readUinteger 16
  | .int128 => c.readInteger 16
  | .bits256 | .uint256 => c.readUinteger 32
  | .int256 => c.readInteger 32
  | .bits512 | .uint512 | .int512 => c.readUinteger 64
  | .float32 => c.readFloat 4
  | .float64 => c.readFloat 8
  | .float128 => c.readFloat 16
  | .p8string => c.readString 1
  | .p16string => c.readString 2
  | .p32string => c.readString 4
  | .typeStructure | .array8 | .array16 | .array32 | .buffer8 | .buffer16 | .buffer32 | .typeEnd | .renamed => fun _ => none

end RowCell

namespace Row

/-- The cells that `to_binary()` writes; nothing when it throws. -/
def cellsToBinary (s : RowSchema) : List (ColumnId × RowCell) → Option Bytes
  | [] => some []
  | e :: l => do
    let type ← s.column e.1
    let value ← e.2.valueToBinary type
    let rest ← cellsToBinary s l
    some (bigEndian 2 e.1 ++ value ++ rest)

/-- `to_binary()`. -/
def toBinary (s : RowSchema) (row : Row) : Option Bytes := do
  let cells ← cellsToBinary s row.entries
  let result := bigEndian 4 s.version ++ cells
  if 256 ^ 4 ≤ result.length then none else some result

/-- The next cell. There is nothing left to read when less than two bytes are left, or when the column identifier is zero. -/
def cellFromBinary (s : RowSchema) (row : Row) (blob : Bytes) : Option (Option (Row × Bytes)) :=
  if blob.length < 2 then some none
  else do
    let (columnId, rest) ← Reader.bigEndian 2 blob
    let columnId := Fin.ofNat 65536 columnId
    if columnId = 0 then some none
    else do
      let type ← s.column columnId
      let (cell, rest) ← RowCell.valueFromBinary type ((row.find? columnId).getD {}) rest
      some (some (row.insert columnId cell, rest))

/-- The loop of `from_binary()`. Each cell takes two bytes and more. -/
def cellsFromBinary (s : RowSchema) : Nat → Row → Bytes → Option Row
  | 0, _, _ => none
  | fuel + 1, row, blob =>
    match cellFromBinary s row blob with
    | none => none
    | some none => some row
    | some (some (row, rest)) => cellsFromBinary s fuel row rest

/-- `from_binary()`. A row of an older schema is converted by `convert`. -/
def fromBinary (convert : Nat → Bytes → Option Row) (s : RowSchema) (blob : Bytes) : Option Row := do
  let (version, rest) ← Reader.bigEndian 4 blob
  if version ≠ s.version then convert version rest else cellsFromBinary s (rest.length + 1) ∅ rest

end Row

/-! ### Values -/

/-- How a value is laid out. -/
inductive CellShape
  | void
  | uinteger (w : Nat)
  | integer (w : Nat)
  | float (w : Nat)
  | string (w : Nat)
  | none

/-- How a value is read. -/
def StructType.shape : StructType → CellShape
  | .void => .void
  | .bits8 | .uint8 => .uinteger 1
  | .bits16 | .uint16 => .uinteger 2
  | .bits32 | .uint32 | .version => .uinteger 4
  | .bits128 | .uint128 => .uinteger 16
  | .bits256 | .uint256 => .uinteger 32
  | .bits512 | .uint512 | .int512 => .uinteger 64
  | .int8 => .integer 1
  | .int16 => .integer 2
  | .int32 => .integer 4
  | .bits64 | .uint64 | .reference | .oid | .time | .mstime | .ustime | .int64 => .integer 8
  | .int128 => .integer 16
  | .int256 => .integer 32
  | .float32 => .float 4
  | .float64 => .float 8
  | .float128 => .float 16
  | .p8string => .string 1
  | .p16string => .string 2
  | .p32string => .string 4
  | .typeStructure | .array8 | .array16 | .array32 | .buffer8 | .buffer16 | .buffer32 | .typeEnd | .renamed => .none

def StructType.isFloat (type : StructType) : Bool := type = .float32 || type = .float64 || type = .float128

/-- The low `w` bytes of a number, without and with the sign. -/
def low (w : Nat) (x : BitVec 512) : BitVec 512 := (x.setWidth (8 * w)).setWidth 512

def lowSigned (w : Nat) (x : BitVec 512) : BitVec 512 := (x.setWidth (8 * w)).signExtend 512

inductive CellValue
  | void
  | integer (x : BitVec 512)
  | float (b : Bytes)
  | string (b : Bytes)
deriving DecidableEq

namespace RowCell

/-- The value that the functions of a cell return: a word of it up to 64 bits, and all the 512 bits of a larger type. -/
def value (type : StructType) (c : RowCell) : CellValue :=
  match type.shape with
  | .void | .none => .void
  | .uinteger w | .integer w => .integer (if w ≤ 8 then low w c.integer else c.integer)
  | .float _ => .float c.float
  | .string _ => .string c.string

end RowCell

/-- A number of more than 64 bits has no more bits than its type. -/
def CellValue.InRange (type : StructType) : CellValue → Prop
  | .integer x =>
    match type.shape with
    | .uinteger w => 8 < w → low w x = x
    | .integer w => 8 < w → lowSigned w x = x
    | _ => True
  | _ => True

variable {w : Nat} {x : BitVec 512}

/-- The bytes that were extended are the low ones. -/
theorem setWidth_extended (hw : w ≤ 64) (y : BitVec (8 * w)) : (y.setWidth 512).setWidth (8 * w) = y := by
  rw [BitVec.setWidth_setWidth_of_le _ (by omega), BitVec.setWidth_eq]

theorem setWidth_signExtended (hw : w ≤ 64) (y : BitVec (8 * w)) : (y.signExtend 512).setWidth (8 * w) = y := by
  ext i hi
  have h512 : i < 512 := by omega
  simp [BitVec.getElem_signExtend, hi, h512]

theorem low_low (hw : w ≤ 64) : low w (low w x) = low w x := by rw [low, low, setWidth_extended hw]

theorem low_lowSigned (hw : w ≤ 64) : low w (lowSigned w x) = low w x := by rw [low, lowSigned, setWidth_signExtended hw, low]

/-- The types that have a number have at most 64 bytes. -/
theorem StructType.shape_le {type : StructType} (h : type.shape = .uinteger w ∨ type.shape = .integer w) : w ≤ 64 := by
  cases type <;> simp only [StructType.shape, reduceCtorEq, CellShape.uinteger.injEq, CellShape.integer.injEq, or_false, false_or] at h <;>
    omega

namespace RowCell
variable {type : StructType} {c c' : RowCell} {b rest : Bytes}

/-- A value by its layout. -/
def readShape (c : RowCell) : CellShape → Reader RowCell
  | .void => pure c
  | .uinteger w => c.readUinteger w
  | .integer w => c.readInteger w
  | .float w => c.readFloat w
  | .string w => c.readString w
  | .none => fun _ => Option.none

def writeShape (c : RowCell) : CellShape → Option Bytes
  | .void => some []
  | .uinteger w | .integer w => some (bigEndian w c.integer.toNat)
  | .float _ => some c.float
  | .string w => c.stringToBinary w
  | .none => Option.none

theorem valueFromBinary_eq (type : StructType) (c : RowCell) : c.valueFromBinary type = c.readShape type.shape := by
  cases type <;> rfl

theorem valueToBinary_eq (type : StructType) (c : RowCell) : c.valueToBinary type = c.writeShape type.shape := by
  cases type <;> rfl

/-- What reading back makes of a cell. -/
def stored (type : StructType) (c c' : RowCell) : RowCell :=
  match type.shape with
  | .uinteger w => { c' with integer := low w c.integer }
  | .integer w => { c' with integer := lowSigned w c.integer }
  | .string _ => { c' with string := c.string }
  | _ => c'

theorem ofNat_toNat_mod (w : Nat) (x : BitVec 512) : BitVec.ofNat (8 * w) (x.toNat % 256 ^ w) = x.setWidth (8 * w) := by
  apply BitVec.eq_of_toNat_eq
  rw [BitVec.toNat_ofNat, BitVec.toNat_setWidth, Nat.pow_mul, Nat.mod_mod]

/-- A value that is written is read back: the low bytes of a number and the whole of a string. -/
theorem valueFromBinary_reads (h : c.valueToBinary type = some b) (hfloat : type.isFloat = false) (c' : RowCell) :
    Reads (c'.valueFromBinary type) (c.stored type c') b := by
  rw [valueToBinary_eq] at h
  rw [valueFromBinary_eq]
  unfold stored
  cases hshape : type.shape with
  | void =>
    rw [hshape] at h
    obtain rfl := Option.some.inj h
    exact Reads.pure c'
  | uinteger w =>
    rw [hshape] at h
    obtain rfl := Option.some.inj h
    have hread := (bigEndian_reads c.integer.toNat w).map (c'.setUinteger w)
    rwa [setUinteger, ofNat_toNat_mod] at hread
  | integer w =>
    rw [hshape] at h
    obtain rfl := Option.some.inj h
    have hread := (bigEndian_reads c.integer.toNat w).map (c'.setInteger w)
    rwa [setInteger, ofNat_toNat_mod] at hread
  | float w => cases type <;> simp [StructType.shape, StructType.isFloat] at hshape hfloat
  | string w =>
    rw [hshape, writeShape, stringToBinary] at h
    split at h
    · cases h
    · rename_i hlt
      obtain rfl := Option.some.inj h
      have hread := bigEndian_reads c.string.length w
      rw [Nat.mod_eq_of_lt (Nat.lt_of_not_le hlt)] at hread
      exact hread.bind ((Reader.bytes_reads c.string).map fun b => { c' with string := b })
  | none =>
    rw [hshape] at h
    cases h

/-- The value that is read back is the one that was written when it is in the range of its type. -/
theorem value_stored (hfloat : type.isFloat = false) (c c' : RowCell) :
    (c.stored type c').value type = c.value type ↔ (c.value type).InRange type := by
  unfold stored value CellValue.InRange
  cases hshape : type.shape with
  | void | none => exact iff_of_true rfl trivial
  | uinteger w =>
    have hw := StructType.shape_le (.inl hshape)
    by_cases h8 : w ≤ 8
    · simp [h8, low_low hw, Nat.not_lt.mpr h8]
    · simp [h8, Nat.lt_of_not_le h8]
  | integer w =>
    have hw := StructType.shape_le (.inr hshape)
    by_cases h8 : w ≤ 8
    · simp [h8, low_lowSigned hw, Nat.not_lt.mpr h8]
    · simp [h8, Nat.lt_of_not_le h8]
  | float w => cases type <;> simp [StructType.shape, StructType.isFloat] at hshape hfloat
  | string w => exact iff_of_true rfl trivial

/-- What is read: the value is in the range of its type, and it does not depend on what the cell was. -/
theorem valueFromBinary_cases (h : c.valueFromBinary type b = some (c', rest)) : (c'.value type).InRange type ∧
    rest.length ≤ b.length ∧ ∀ d : RowCell, ∃ d', d.valueFromBinary type b = some (d', rest) ∧ d'.value type = c'.value type := by
  simp only [valueFromBinary_eq] at h ⊢
  unfold value CellValue.InRange
  cases hshape : type.shape with
  | void =>
    rw [hshape] at h
    obtain ⟨-, rfl⟩ := Reader.pure_eq_some.mp h
    exact ⟨trivial, le_rfl, fun d => ⟨d, rfl, rfl⟩⟩
  | uinteger w =>
    rw [hshape] at h
    obtain ⟨n, b', hn, h⟩ := Reader.bind_eq_some.mp h
    obtain ⟨rfl, rfl⟩ := Reader.pure_eq_some.mp h
    have hw := StructType.shape_le (.inl hshape)
    refine ⟨fun h8 => ?_, Nat.le_of_add_right_le (Reader.bigEndian_length hn).le,
      fun d => ⟨d.setUinteger w n, Reader.bind_eq_some.mpr ⟨n, b', hn, rfl⟩, rfl⟩⟩
    rw [if_neg (Nat.not_le.mpr h8), low, setUinteger, setWidth_extended hw]
  | integer w =>
    rw [hshape] at h
    obtain ⟨n, b', hn, h⟩ := Reader.bind_eq_some.mp h
    obtain ⟨rfl, rfl⟩ := Reader.pure_eq_some.mp h
    have hw := StructType.shape_le (.inr hshape)
    refine ⟨fun h8 => ?_, Nat.le_of_add_right_le (Reader.bigEndian_length hn).le,
      fun d => ⟨d.setInteger w n, Reader.bind_eq_some.mpr ⟨n, b', hn, rfl⟩, rfl⟩⟩
    rw [if_neg (Nat.not_le.mpr h8), lowSigned, setInteger, setWidth_signExtended hw]
  | float w =>
    rw [hshape] at h
    obtain ⟨a, b', ha, h⟩ := Reader.bind_eq_some.mp h
    obtain ⟨rfl, rfl⟩ := Reader.pure_eq_some.mp h
    exact ⟨trivial, Nat.le_of_add_right_le (Reader.bytes_length ha).le,
      fun d => ⟨{ d with float := a }, Reader.bind_eq_some.mpr ⟨a, b', ha, rfl⟩, rfl⟩⟩
  | string w =>
    rw [hshape] at h
    obtain ⟨n, b', hn, h⟩ := Reader.bind_eq_some.mp h
    obtain ⟨a, b'', ha, h⟩ := Reader.bind_eq_some.mp h
    obtain ⟨rfl, rfl⟩ := Reader.pure_eq_some.mp h
    have hlength := Reader.bytes_length ha
    have hlength' := Reader.bigEndian_length hn
    exact ⟨trivial, by omega, fun d => ⟨{ d with string := a },
      Reader.bind_eq_some.mpr ⟨n, b', hn, Reader.bind_eq_some.mpr ⟨a, b'', ha, rfl⟩⟩, rfl⟩⟩
  | none =>
    rw [hshape] at h
    cases h

end RowCell

namespace Row
variable {s : RowSchema} {row row' : Row} {b rest T : Bytes} {fuel : Nat} {l : List (ColumnId × CellValue)}

/-! ### What is read -/

/-- The values of a row by column. -/
def values (s : RowSchema) (row : Row) (columnId : ColumnId) : Option CellValue :=
  (row.find? columnId).bind fun c => (s.column columnId).map fun type => c.value type

/-- The values when cells are set one after the other. -/
def putAll (f : ColumnId → Option CellValue) (l : List (ColumnId × CellValue)) : ColumnId → Option CellValue :=
  l.foldl (fun f p => Function.update f p.1 (some p.2)) f

/-- The cells that stand in a buffer, up to a column identifier of zero or to the end. -/
inductive Fields (s : RowSchema) : Bytes → List (ColumnId × CellValue) → Prop
  | short {b : Bytes} : b.length < 2 → Fields s b []
  | zero {b rest : Bytes} {n : Nat} : Reader.bigEndian 2 b = some (n, rest) → Fin.ofNat 65536 n = 0 → Fields s b []
  | cell {b rest rest' : Bytes} {n : Nat} {type : StructType} {c : RowCell} {l : List (ColumnId × CellValue)} :
      Reader.bigEndian 2 b = some (n, rest) → Fin.ofNat 65536 n ≠ 0 → s.column (Fin.ofNat 65536 n) = some type →
      RowCell.valueFromBinary type {} rest = some (c, rest') → Fields s rest' l →
      Fields s b ((Fin.ofNat 65536 n, c.value type) :: l)

theorem values_insert {columnId : ColumnId} {type : StructType} (h : s.column columnId = some type) (c : RowCell) :
    values s (row.insert columnId c) = Function.update (values s row) columnId (some (c.value type)) := by
  funext k
  by_cases hk : k = columnId
  · subst hk
    rw [values, SortedMap.find?_insert_self, Function.update_self, h]
    rfl
  · rw [values, SortedMap.find?_insert_of_ne hk, Function.update_of_ne hk, values]

/-- What is read of the next cell. -/
theorem cellFromBinary_eq (s : RowSchema) (row : Row) (b : Bytes) (hb : ¬ b.length < 2) {n : Nat}
    (h : Reader.bigEndian 2 b = some (n, rest)) : cellFromBinary s row b = if Fin.ofNat 65536 n = 0 then some none else
      (s.column (Fin.ofNat 65536 n)).bind fun type =>
        (RowCell.valueFromBinary type ((row.find? (Fin.ofNat 65536 n)).getD {}) rest).map fun p =>
          some (row.insert (Fin.ofNat 65536 n) p.1, p.2) := by
  rw [cellFromBinary, if_neg hb, h]
  change (if Fin.ofNat 65536 n = 0 then _ else _) = _
  split
  · rfl
  · cases s.column (Fin.ofNat 65536 n) with
    | none => rfl
    | some type =>
      change (RowCell.valueFromBinary type _ rest).bind _ = (RowCell.valueFromBinary type _ rest).map _
      cases RowCell.valueFromBinary type ((row.find? (Fin.ofNat 65536 n)).getD {}) rest <;> rfl

theorem bigEndian_of_two (hb : ¬ b.length < 2) : ∃ n rest, Reader.bigEndian 2 b = some (n, rest) ∧ rest.length + 2 = b.length := by
  match b with
  | [] => exact absurd (by decide) hb
  | [_] => exact absurd Nat.one_lt_two hb
  | _ :: _ :: rest => exact ⟨_, rest, rfl, rfl⟩

/-- The loop reads the cells that stand in the buffer. -/
theorem fields_of_cellsFromBinary (h : cellsFromBinary s fuel row b = some row') :
    ∃ l, Fields s b l ∧ values s row' = putAll (values s row) l := by
  induction fuel generalizing row b with
  | zero => cases h
  | succ fuel ih =>
    unfold cellsFromBinary at h
    by_cases hb : b.length < 2
    · rw [cellFromBinary, if_pos hb] at h
      cases h
      exact ⟨[], .short hb, rfl⟩
    · obtain ⟨n, rest, hn, -⟩ := bigEndian_of_two hb
      rw [cellFromBinary_eq s row b hb hn] at h
      by_cases hzero : Fin.ofNat 65536 n = 0
      · rw [if_pos hzero] at h
        cases h
        exact ⟨[], .zero hn hzero, rfl⟩
      · rw [if_neg hzero] at h
        cases hcolumn : s.column (Fin.ofNat 65536 n) with
        | none =>
          rw [hcolumn] at h
          cases h
        | some type =>
          rw [hcolumn, Option.bind_some] at h
          cases hvalue : RowCell.valueFromBinary type ((row.find? (Fin.ofNat 65536 n)).getD {}) rest with
          | none =>
            rw [hvalue] at h
            cases h
          | some p =>
            rw [hvalue] at h
            obtain ⟨l, hl, heq⟩ := ih h
            obtain ⟨c, hc, hcvalue⟩ := (RowCell.valueFromBinary_cases hvalue).2.2 {}
            refine ⟨_, .cell hn hzero hcolumn hc hl, ?_⟩
            rw [heq, values_insert hcolumn, hcvalue]
            rfl

/-- There is always an end of the loop. -/
theorem Fields.cellsFromBinary (h : Fields s b l) (row : Row) (hfuel : b.length < fuel) :
    ∃ row', cellsFromBinary s fuel row b = some row' ∧ values s row' = putAll (values s row) l := by
  induction h generalizing row fuel with
  | short hb =>
    obtain ⟨fuel, rfl⟩ := Nat.exists_eq_add_one_of_ne_zero (Nat.ne_zero_of_lt hfuel)
    refine ⟨row, ?_, rfl⟩
    rw [Row.cellsFromBinary, cellFromBinary, if_pos hb]
  | @zero b rest n hn hzero =>
    obtain ⟨fuel, rfl⟩ := Nat.exists_eq_add_one_of_ne_zero (Nat.ne_zero_of_lt hfuel)
    have hlength := Reader.bigEndian_length hn
    refine ⟨row, ?_, rfl⟩
    rw [Row.cellsFromBinary, cellFromBinary_eq s row b (by omega) hn, if_pos hzero]
  | @cell b rest rest' n type c l hn hzero hcolumn hc _ ih =>
    obtain ⟨fuel, rfl⟩ := Nat.exists_eq_add_one_of_ne_zero (Nat.ne_zero_of_lt hfuel)
    have hlength := Reader.bigEndian_length hn
    obtain ⟨-, hle, hany⟩ := RowCell.valueFromBinary_cases hc
    obtain ⟨c', hc', hvalue⟩ := hany ((row.find? (Fin.ofNat 65536 n)).getD {})
    obtain ⟨row', hrun, heq⟩ := ih (row.insert (Fin.ofNat 65536 n) c') (show rest'.length < fuel by omega)
    refine ⟨row', ?_, ?_⟩
    · rw [Row.cellsFromBinary, cellFromBinary_eq s row b (by omega) hn, if_neg hzero, hcolumn, Option.bind_some, hc']
      exact hrun
    · rw [heq, values_insert hcolumn, hvalue]
      rfl

/-- The values that stand in a buffer are in the range of their types. -/
theorem Fields.inRange (h : Fields s b l) : ∀ p ∈ l, ∀ type, s.column p.1 = some type → p.2.InRange type := by
  induction h with
  | short _ | zero _ _ => exact fun p hp => absurd hp List.not_mem_nil
  | cell hn hzero hcolumn hc _ ih =>
    intro p hp type htype
    rcases List.mem_cons.mp hp with rfl | hp
    · obtain rfl := Option.some.inj (hcolumn.symm.trans htype)
      exact (RowCell.valueFromBinary_cases hc).1
    · exact ih p hp type htype

theorem putAll_inRange {f : ColumnId → Option CellValue} {P : ColumnId → CellValue → Prop} (hf : ∀ k v, f k = some v → P k v)
    (hl : ∀ p ∈ l, P p.1 p.2) : ∀ k v, putAll f l k = some v → P k v := by
  induction l generalizing f with
  | nil => exact hf
  | cons p l ih =>
    refine ih (fun k v h => ?_) fun q hq => hl q (List.mem_cons_of_mem _ hq)
    dsimp only at h
    rw [Function.update_apply] at h
    split at h
    · rename_i hk
      cases h
      exact hk ▸ hl p List.mem_cons_self
    · exact hf k v h

/-! ### Round trip -/

/-- What the schema says of an entry: the value of its cell, and what is read back of it. -/
def valueOf (s : RowSchema) (e : ColumnId × RowCell) : CellValue := (s.column e.1).elim .void fun type => e.2.value type

def storedOf (s : RowSchema) (e : ColumnId × RowCell) : CellValue :=
  (s.column e.1).elim .void fun type => (e.2.stored type {}).value type

/-- No cell has a floating point type. -/
def NoFloat (s : RowSchema) (l : List (ColumnId × RowCell)) : Prop :=
  ∀ e ∈ l, ∀ type, s.column e.1 = some type → type.isFloat = false

variable {e : ColumnId × RowCell} {cells : List (ColumnId × RowCell)}

/-- What is written of a cell. -/
theorem cellsToBinary_cons (h : cellsToBinary s (e :: cells) = some b) : ∃ type v rest, s.column e.1 = some type ∧
    e.2.valueToBinary type = some v ∧ cellsToBinary s cells = some rest ∧ b = bigEndian 2 e.1 ++ (v ++ rest) := by
  unfold cellsToBinary at h
  simp only [Option.bind_eq_bind, Option.bind_eq_some_iff, Option.some.injEq] at h
  obtain ⟨type, htype, v, hv, rest, hrest, rfl⟩ := h
  exact ⟨type, v, rest, htype, hv, hrest, List.append_assoc ..⟩

theorem columnId_reads (k : ColumnId) : Reads (Reader.bigEndian 2) k.val (bigEndian 2 k) := by
  have h := bigEndian_reads k.val 2
  have hmod : k.val % 256 ^ 2 = k.val := Nat.mod_eq_of_lt k.isLt
  rwa [hmod] at h

theorem column_ne_zero {k : ColumnId} {type : StructType} (h : s.column k = some type) : k ≠ 0 := by
  rintro rfl
  rw [s.column_zero] at h
  cases h

/-- The cells that were written stand in front of what follows them. -/
theorem fields_append (h : cellsToBinary s cells = some b) (hfloat : NoFloat s cells) :
    Fields s (b ++ T) l ↔ ∃ l', l = (cells.map fun e => (e.1, storedOf s e)) ++ l' ∧ Fields s T l' := by
  induction cells generalizing b l with
  | nil =>
    obtain rfl := Option.some.inj h
    exact ⟨fun hl => ⟨l, rfl, hl⟩, fun ⟨_, heq, hl⟩ => heq ▸ hl⟩
  | cons e cells ih =>
    obtain ⟨type, v, rest, htype, hv, hrest, rfl⟩ := cellsToBinary_cons h
    have hid : Fin.ofNat 65536 e.1.val = e.1 := Fin.ext (Nat.mod_eq_of_lt e.1.isLt)
    have hread := columnId_reads e.1 (v ++ (rest ++ T))
    have hvalue := RowCell.valueFromBinary_reads hv (hfloat e List.mem_cons_self type htype) {} (rest ++ T)
    have hstored : storedOf s e = (e.2.stored type {}).value type := by rw [storedOf, htype, Option.elim_some]
    have hcells := fun {l} => ih (l := l) hrest fun e' he' => hfloat e' (List.mem_cons_of_mem _ he')
    rw [List.append_assoc, List.append_assoc]
    constructor
    · intro hl
      cases hl with
      | short hlt =>
        rw [List.length_append, bigEndian_length] at hlt
        omega
      | zero hn hzero =>
        rw [hread] at hn
        cases hn
        exact absurd (hid.symm.trans hzero) (column_ne_zero htype)
      | cell hn hzero hcolumn hc hl =>
        rw [hread] at hn
        cases hn
        rw [hid, htype] at hcolumn
        cases hcolumn
        rw [hvalue] at hc
        cases hc
        obtain ⟨l', rfl, hl'⟩ := hcells.mp hl
        exact ⟨l', by rw [List.map_cons, hid, hstored, List.cons_append], hl'⟩
    · rintro ⟨l', rfl, hl'⟩
      have hne : Fin.ofNat 65536 e.1.val ≠ 0 := by
        rw [hid]
        exact column_ne_zero htype
      have hcolumn : s.column (Fin.ofNat 65536 e.1.val) = some type := by
        rw [hid]
        exact htype
      have hcell := Fields.cell hread hne hcolumn hvalue (hcells.mpr ⟨l', rfl, hl'⟩)
      rwa [hid, ← hstored] at hcell

/-- Setting the cells of a row. -/
theorem putAll_map {f : ColumnId → Option CellValue} (g : ColumnId × RowCell → CellValue)
    (hsorted : cells.Pairwise fun a b => a.1 < b.1) (k : ColumnId) :
    putAll f (cells.map fun e => (e.1, g e)) k = (SortedMap.lookupIn k cells).elim (f k) fun c => some (g (k, c)) := by
  induction cells generalizing f with
  | nil => rfl
  | cons e cells ih =>
    obtain ⟨hlt, hsorted⟩ := List.pairwise_cons.mp hsorted
    rw [List.map_cons, putAll, List.foldl_cons]
    refine (ih hsorted).trans ?_
    have hlookup : SortedMap.lookupIn k (e :: cells) = if k = e.1 then some e.2 else SortedMap.lookupIn k cells := rfl
    rw [hlookup]
    by_cases hk : k = e.1
    · have hnone : SortedMap.lookupIn k cells = none := by
        rw [Option.eq_none_iff_forall_ne_some]
        intro c hc
        have hmem := (SortedMap.lookupIn_eq_some hsorted).mp hc
        exact lt_irrefl _ (hk ▸ hlt _ hmem)
      rw [if_pos hk, hnone, hk]
      exact Function.update_self ..
    · rw [if_neg hk]
      dsimp only
      rw [Function.update_of_ne hk]

/-- Numbers of more than 64 bits have no more bits than their types. -/
def InRange (s : RowSchema) (row : Row) : Prop :=
  ∀ e ∈ row.entries, ∀ type, s.column e.1 = some type → (e.2.value type).InRange type

/-- The bytes behind a row decode to cells that it has, each with its value in the end. -/
def Harmless (s : RowSchema) (row : Row) (T : Bytes) : Prop := ∃ l, Fields s T l ∧ putAll (values s row) l = values s row

variable {blob : Bytes}

theorem column_of_cellsToBinary (h : cellsToBinary s cells = some b) : ∀ e ∈ cells, ∃ type, s.column e.1 = some type := by
  induction cells generalizing b with
  | nil => exact fun e he => absurd he List.not_mem_nil
  | cons e cells ih =>
    obtain ⟨type, _, rest, htype, -, hrest, -⟩ := cellsToBinary_cons h
    intro e' he'
    rcases List.mem_cons.mp he' with rfl | he'
    · exact ⟨type, htype⟩
    · exact ih hrest e' he'

theorem putAll_values (h : cellsToBinary s row.entries = some b) :
    putAll (values s ∅) (row.entries.map fun e => (e.1, valueOf s e)) = values s row := by
  funext k
  rw [putAll_map (valueOf s) row.sorted]
  change (row.find? k).elim none _ = (row.find? k).bind _
  cases hfind : row.find? k with
  | none => rfl
  | some c =>
    obtain ⟨type, htype⟩ := column_of_cellsToBinary h _ (SortedMap.find?_eq_some.mp hfind)
    simp [valueOf, htype]

/-- The values that are read back are those of the row when they are in range. -/
theorem InRange.stored (h : InRange s row) (hfloat : NoFloat s row.entries) :
    (row.entries.map fun e => (e.1, storedOf s e)) = row.entries.map fun e => (e.1, valueOf s e) := by
  refine List.map_congr_left fun e he => ?_
  cases htype : s.column e.1 with
  | none => rw [storedOf, valueOf, htype, Option.elim_none, Option.elim_none]
  | some type =>
    rw [storedOf, valueOf, htype, Option.elim_some, Option.elim_some,
      (RowCell.value_stored (hfloat e he type htype) e.2 {}).mpr (h e he type htype)]

theorem toBinary_eq (h : toBinary s row = some blob) : ∃ b, cellsToBinary s row.entries = some b ∧
    blob = bigEndian 4 s.version ++ b := by
  unfold toBinary at h
  simp only [Option.bind_eq_bind, Option.bind_eq_some_iff] at h
  obtain ⟨b, hb, h⟩ := h
  split at h
  · cases h
  · exact ⟨b, hb, (Option.some.inj h).symm⟩

theorem fromBinary_version (convert : Nat → Bytes → Option Row) (s : RowSchema) (b : Bytes) :
    fromBinary convert s (bigEndian 4 s.version ++ b) = cellsFromBinary s (b.length + 1) ∅ b := by
  have hread := bigEndian_reads s.version 4 b
  rw [Nat.mod_eq_of_lt s.version_lt] at hread
  rw [fromBinary, hread]
  exact if_neg (not_not.mpr rfl)

/-- A row is read back with what stands behind it exactly when its large numbers are in range and what stands behind it is
    harmless. -/
theorem fromBinary_append_iff (h : toBinary s row = some blob) (hfloat : NoFloat s row.entries)
    (convert : Nat → Bytes → Option Row) (T : Bytes) :
    (∃ row', fromBinary convert s (blob ++ T) = some row' ∧ values s row' = values s row) ↔ InRange s row ∧ Harmless s row T := by
  obtain ⟨b, hb, rfl⟩ := toBinary_eq h
  rw [List.append_assoc, fromBinary_version]
  constructor
  · rintro ⟨row', hrun, heq⟩
    obtain ⟨l, hl, hvalues⟩ := fields_of_cellsFromBinary hrun
    have hall : ∀ k v, values s row k = some v → ∀ type, s.column k = some type → v.InRange type := by
      rw [← heq, hvalues]
      exact putAll_inRange (fun k v hv => by cases hv) hl.inRange
    have hrange : InRange s row := by
      intro e he type htype
      refine hall e.1 _ ?_ type htype
      rw [values, SortedMap.find?_eq_some.mpr he, Option.bind_some, htype, Option.map_some]
    obtain ⟨l', rfl, hl'⟩ := (fields_append hb hfloat).mp hl
    refine ⟨hrange, l', hl', ?_⟩
    rw [hrange.stored hfloat, putAll, List.foldl_append] at hvalues
    change values s row' = putAll (putAll (values s ∅) _) l' at hvalues
    rw [putAll_values hb, heq] at hvalues
    exact hvalues.symm
  · rintro ⟨hrange, l', hl', heq⟩
    obtain ⟨row', hrun, hvalues⟩ := ((fields_append hb hfloat).mpr ⟨l', rfl, hl'⟩).cellsFromBinary ∅ (Nat.lt_succ_self _)
    refine ⟨row', hrun, ?_⟩
    rw [hvalues, hrange.stored hfloat, putAll, List.foldl_append]
    change putAll (putAll (values s ∅) _) l' = _
    rw [putAll_values hb, heq]

end Row

end Snapwebsites.Snapdatabase
