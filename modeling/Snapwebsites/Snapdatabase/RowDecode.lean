import Snapwebsites.Snapdatabase.ConvertText

/-! # Rows from arbitrary bytes

`row::from_binary()` with what it throws, and with the rows of older schemas. `read_be_uint16()` and its siblings do not compare the
position with the size of the buffer, and neither does the `memcpy()` of a string: a cell that is cut short is read behind the end. -/

namespace Snapwebsites.Snapdatabase

open Loadavg (littleEndian)

/-- The exceptions of `snapdatabase` that come of a row. -/
inductive RowError
  | columnNotFound
  | schemaNotFound
  | typeMismatch
  | convert (e : ConvertError)
  deriving DecidableEq

/-- Why there is no row: an exception, or a byte behind the end of the buffer. -/
inductive RowFailure
  | thrown (e : RowError)
  | pastEnd
  deriving DecidableEq

/-- What prints and reads floating point numbers and times, and the sixteen bytes in memory of a floating point number. -/
structure RowLibrary where
  print : StructType → Bytes → Except ConvertError Bytes
  read : StructType → Bytes → Except ConvertError Bytes
  longDouble : StructType → Bytes → Bytes
  longDouble_length : ∀ type b, (longDouble type b).length = 16

/-- A column of an older schema. -/
structure RowColumn where
  type : StructType
  name : Bytes

/-- The table: its schema, the names of its columns, and the columns of the other versions, by `get_schema()`. -/
structure RowTable where
  current : RowSchema
  hasName : Bytes → Bool
  getSchema : Nat → Except RowError (ColumnId → Option RowColumn)

/-! ### Conversions -/

/-- The type that `copy_from()` has a text read as. -/
def StructType.widest (type : StructType) : StructType :=
  match type with
  | .int8 | .int16 | .int32 | .int64 | .int128 | .int256 | .int512 | .time | .mstime | .ustime => .int512
  | _ => .uint512

namespace RowCell

/-- The text of a cell that is copied to another type. -/
def copyText (library : RowLibrary) (type : StructType) (source : RowCell) : Except RowError Bytes :=
  match type.shape with
  | .void => .ok []
  | .uinteger _ | .integer _ =>
    (typedBufferToString library.print type (littleEndian 64 source.integer.toNat) 16).mapError .convert
  | .float _ => (typedBufferToString library.print type (library.longDouble type source.float) 16).mapError .convert
  | .string _ => .ok source.string
  | .none => .error .typeMismatch

/-- A cell that is given a text. -/
def copyValue (library : RowLibrary) (type : StructType) (value : Bytes) (c : RowCell) : Except RowError RowCell :=
  match type.shape with
  | .void => .ok c
  | .uinteger _ | .integer _ => do
    let buf ← (stringToTypedBuffer library.read type.widest value).mapError .convert
    .ok { c with integer := BitVec.ofNat 512 (Loadavg.ofLittleEndian buf) }
  | .float _ => do
    let buf ← (stringToTypedBuffer library.read type value).mapError .convert
    .ok { c with float := buf.reverse }
  | .string _ => .ok { c with string := value }
  | .none => .error .typeMismatch

/-- `copy_from()`. -/
def copyFrom (library : RowLibrary) (type sourceType : StructType) (c source : RowCell) : Except RowError RowCell :=
  if type = sourceType then
    match sourceType.shape with
    | .void => .ok c
    | .uinteger _ | .integer _ => .ok { c with integer := source.integer }
    | .float _ => .ok { c with float := source.float }
    | .string _ => .ok { c with string := source.string }
    | .none => .error .typeMismatch
  else do
    let value ← source.copyText library sourceType
    c.copyValue library type value

end RowCell

/-! ### Reading -/

/-- A read that nothing checks. -/
def unchecked {α : Type} (r : Reader α) (b : Bytes) : Except RowFailure (α × Bytes) :=
  match r b with
  | some p => .ok p
  | none => .error .pastEnd

/-- An exception. -/
def thrown {α : Type} (x : Except RowError α) : Except RowFailure α := x.mapError .thrown

namespace RowTable

/-- `value_from_binary()`. -/
def valueFromBinary (type : StructType) (c : RowCell) (b : Bytes) : Except RowFailure (RowCell × Bytes) :=
  match type.shape with
  | .none => .error (.thrown .typeMismatch)
  | _ => unchecked (c.valueFromBinary type) b

/-- `get_cell()`, with the type of its column. -/
def getCell (s : RowSchema) (row : Row) (columnId : ColumnId) : Except RowFailure (StructType × RowCell) :=
  match s.column columnId with
  | none => .error (.thrown .columnNotFound)
  | some type => .ok (type, (row.find? columnId).getD {})

/-- `column_id_from_binary()`. -/
def columnIdFromBinary (b : Bytes) : Except RowFailure (ColumnId × Bytes) := do
  let (columnId, rest) ← unchecked (Reader.bigEndian 2) b
  .ok (Fin.ofNat 65536 columnId, rest)

/-- The next cell of a row of the current schema; nothing at the end. -/
def nextCell (s : RowSchema) (row : Row) (b : Bytes) : Except RowFailure (Option (Row × Bytes)) :=
  if b.length < 2 then .ok none
  else do
    let (columnId, rest) ← columnIdFromBinary b
    if columnId = 0 then .ok none
    else do
      let (type, cell) ← getCell s row columnId
      let (cell, rest) ← valueFromBinary type cell rest
      .ok (some (row.insert columnId cell, rest))

/-- The next cell of a row of another version. It goes to the column of the current schema that has its identifier. -/
def nextOlderCell (library : RowLibrary) (t : RowTable) (version : Nat) (row : Row) (b : Bytes) :
    Except RowFailure (Option (Row × Bytes)) :=
  if b = [] then .ok none
  else do
    let (columnId, rest) ← columnIdFromBinary b
    let columns ← thrown (t.getSchema version)
    match columns columnId with
    | none => .error (.thrown .columnNotFound)
    | some column => do
      let (source, rest) ← valueFromBinary column.type {} rest
      if t.hasName column.name then do
        let (type, cell) ← getCell t.current row columnId
        let cell ← thrown (cell.copyFrom library type column.type source)
        .ok (some (row.insert columnId cell, rest))
      else .ok (some (row, rest))

/-- The loops. Each cell takes two bytes and more. -/
def cellsFromBinary (next : Row → Bytes → Except RowFailure (Option (Row × Bytes))) : Nat → Row → Bytes → Except RowFailure Row
  | 0, _, _ => .error .pastEnd
  | fuel + 1, row, b => do
    match ← next row b with
    | none => .ok row
    | some (row, rest) => cellsFromBinary next fuel row rest

/-- `from_binary()`. -/
def fromBinary (library : RowLibrary) (t : RowTable) (blob : Bytes) : Except RowFailure Row := do
  let (version, rest) ← unchecked (Reader.bigEndian 4) blob
  let next := if version ≠ t.current.version then nextOlderCell library t version else nextCell t.current
  cellsFromBinary next (rest.length + 1) ∅ rest

end RowTable

/-! ### What stands in a buffer -/

/-- The bytes that a value takes, by its layout. -/
def CellShape.size (b : Bytes) : CellShape → Nat
  | .void | .none => 0
  | .uinteger w | .integer w | .float w => w
  | .string w => w + ofBigEndian (b.take w)

/-- The front of a buffer: reading ends or throws there, or the value of a cell is cut short, or there is a cell of `n` bytes. -/
inductive CellFrame
  | ends
  | cut
  | cell (n : Nat)
  deriving DecidableEq

/-- The identifier in front. -/
def columnIdOf (b : Bytes) : ColumnId := Fin.ofNat 65536 (ofBigEndian (b.take 2))

/-- A cell by the type of its column; `more` is false when what follows the read throws. -/
def StructType.frame (type : StructType) (b : Bytes) (more : Bool) : CellFrame :=
  match type.shape with
  | .none => .ends
  | shape => if b.length < 2 + shape.size (b.drop 2) then .cut else if more then .cell (2 + shape.size (b.drop 2)) else .ends

namespace RowTable

def frame (s : RowSchema) (b : Bytes) : CellFrame :=
  if b.length < 2 ∨ columnIdOf b = 0 then .ends
  else
    match s.column (columnIdOf b) with
    | none => .ends
    | some type => type.frame b true

/-- The value of a column goes to the current schema, or it has no place there. -/
def copies (library : RowLibrary) (t : RowTable) (column : RowColumn) (columnId : ColumnId) (b : Bytes) : Bool :=
  !t.hasName column.name ||
    match t.current.column columnId, RowCell.valueFromBinary column.type {} b with
    | some type, some (source, _) => (RowCell.copyFrom library type column.type {} source).toOption.isSome
    | _, _ => false

def olderFrame (library : RowLibrary) (t : RowTable) (version : Nat) (b : Bytes) : CellFrame :=
  if b = [] then .ends
  else if b.length < 2 then .cut
  else
    match t.getSchema version with
    | .error _ => .ends
    | .ok columns =>
      match columns (columnIdOf b) with
      | none => .ends
      | some column => column.type.frame b (copies library t column (columnIdOf b) (b.drop 2))

end RowTable

/-- No cell is cut short before reading ends. -/
inductive Framed (frame : Bytes → CellFrame) : Bytes → Prop
  | ends {b : Bytes} : frame b = .ends → Framed frame b
  | cell {b : Bytes} {n : Nat} : frame b = .cell n → Framed frame (b.drop n) → Framed frame b

/-- What is read of a front. -/
def CellFrame.Reads (b : Bytes) (x : Except RowFailure (Option (Row × Bytes))) : CellFrame → Prop
  | ends => x = .ok none ∨ ∃ e, x = .error (.thrown e)
  | cut => x = .error .pastEnd
  | cell n => 2 ≤ n ∧ n ≤ b.length ∧ ∃ row, x = .ok (some (row, b.drop n))

/-! ### A value -/

section
variable {library : RowLibrary} {t : RowTable} {s : RowSchema} {type sourceType : StructType} {shape : CellShape} {b rest : Bytes}
variable {row : Row} {version : Nat}

namespace RowCell
variable {c : RowCell}

theorem readShape_of_lt (h : b.length < shape.size b) : c.readShape shape b = none := by
  cases shape with
  | void | none => exact absurd h (Nat.not_lt_zero _)
  | uinteger w | integer w =>
    change (Reader.bigEndian w b).bind _ = _
    rw [Reader.bigEndian_of_lt (show b.length < w from h)]
    rfl
  | float w =>
    change (Reader.bytes w b).bind _ = _
    rw [Reader.bytes_of_lt (show b.length < w from h)]
    rfl
  | string w =>
    change (Reader.bigEndian w b).bind _ = _
    rcases Nat.lt_or_ge b.length w with hlt | hle
    · rw [Reader.bigEndian_of_lt hlt]
      rfl
    · have hsize : b.length < w + ofBigEndian (b.take w) := h
      rw [Reader.bigEndian_of_le hle]
      change (Reader.bytes _ (b.drop w)).bind _ = _
      rw [Reader.bytes_of_lt (by rw [List.length_drop]; omega)]
      rfl

theorem readShape_of_le (hne : shape ≠ .none) (h : shape.size b ≤ b.length) :
    ∃ c', c.readShape shape b = some (c', b.drop (shape.size b)) := by
  cases shape with
  | void => exact ⟨c, rfl⟩
  | none => exact absurd rfl hne
  | uinteger w | integer w =>
    change ∃ c', (Reader.bigEndian w b).bind _ = _
    rw [Reader.bigEndian_of_le (show w ≤ b.length from h)]
    exact ⟨_, rfl⟩
  | float w =>
    change ∃ c', (Reader.bytes w b).bind _ = _
    rw [Reader.bytes_of_le (show w ≤ b.length from h)]
    exact ⟨_, rfl⟩
  | string w =>
    have hsize : w + ofBigEndian (b.take w) ≤ b.length := h
    change ∃ c', (Reader.bigEndian w b).bind _ = _
    rw [Reader.bigEndian_of_le (Nat.le_of_add_right_le hsize)]
    change ∃ c', (Reader.bytes _ (b.drop w)).bind _ = _
    rw [Reader.bytes_of_le (by rw [List.length_drop]; omega), List.drop_drop]
    exact ⟨_, rfl⟩

/-- Whether a cell is copied does not depend on what was in its place. -/
theorem copyFrom_isSome (c d source : RowCell) : (c.copyFrom library type sourceType source).toOption.isSome =
    (d.copyFrom library type sourceType source).toOption.isSome := by
  unfold copyFrom
  split
  · cases sourceType.shape <;> rfl
  · cases source.copyText library sourceType with
    | error e => rfl
    | ok value =>
      change (c.copyValue library type value).toOption.isSome = (d.copyValue library type value).toOption.isSome
      unfold copyValue
      cases type.shape with
      | void | string _ | none => rfl
      | uinteger _ | integer _ => cases (stringToTypedBuffer library.read type.widest value).mapError RowError.convert <;> rfl
      | float _ => cases (stringToTypedBuffer library.read type value).mapError RowError.convert <;> rfl

end RowCell

namespace RowTable

theorem valueFromBinary_none (h : type.shape = .none) (c : RowCell) : valueFromBinary type c b = .error (.thrown .typeMismatch) := by
  rw [valueFromBinary, h]

theorem valueFromBinary_eq (h : type.shape ≠ .none) (c : RowCell) : valueFromBinary type c b = unchecked (c.readShape type.shape) b := by
  rw [valueFromBinary, RowCell.valueFromBinary_eq]
  cases hshape : type.shape with
  | none => exact absurd hshape h
  | void | uinteger _ | integer _ | float _ | string _ => rfl

theorem columnIdFromBinary_of_le (h : 2 ≤ b.length) : columnIdFromBinary b = .ok (columnIdOf b, b.drop 2) := by
  rw [columnIdFromBinary, unchecked, Reader.bigEndian_of_le h]
  rfl

/-- A cell of a type: what comes of it where reading goes on with `follow`. -/
theorem frame_reads (h : 2 ≤ b.length) (c : RowCell) {more : Bool} {follow : RowCell × Bytes → Except RowFailure (Option (Row × Bytes))}
    (hmore : ∀ c' rest, RowCell.valueFromBinary type c (b.drop 2) = some (c', rest) →
      (more = true ∧ ∃ row, follow (c', rest) = .ok (some (row, rest))) ∨ (more = false ∧ ∃ e, follow (c', rest) = .error (.thrown e))) :
    (type.frame b more).Reads b ((valueFromBinary type c (b.drop 2)).bind follow) := by
  have hlength : (b.drop 2).length = b.length - 2 := List.length_drop
  by_cases hshape : type.shape = .none
  · have hframe : type.frame b more = .ends := by rw [StructType.frame, hshape]
    rw [hframe, valueFromBinary_none hshape]
    exact .inr ⟨_, rfl⟩
  · have hframe : type.frame b more = if b.length < 2 + type.shape.size (b.drop 2) then .cut
        else if more then .cell (2 + type.shape.size (b.drop 2)) else .ends := by
      rw [StructType.frame]
      cases hcase : type.shape with
      | none => exact absurd hcase hshape
      | void | uinteger _ | integer _ | float _ | string _ => rfl
    rw [hframe, valueFromBinary_eq hshape, unchecked]
    by_cases hcut : b.length < 2 + type.shape.size (b.drop 2)
    · rw [if_pos hcut, RowCell.readShape_of_lt (by omega)]
      rfl
    · obtain ⟨c', hread⟩ := RowCell.readShape_of_le (c := c) hshape (show type.shape.size (b.drop 2) ≤ (b.drop 2).length by omega)
      rw [if_neg hcut, hread]
      rcases hmore c' _ (by rw [RowCell.valueFromBinary_eq, hread]) with ⟨rfl, row, hrow⟩ | ⟨rfl, e, hthrown⟩
      · exact ⟨Nat.le_add_right _ _, by omega, row, hrow.trans (by rw [List.drop_drop])⟩
      · exact .inr ⟨e, hthrown⟩

theorem nextCell_reads (s : RowSchema) (row : Row) (b : Bytes) : (frame s b).Reads b (nextCell s row b) := by
  rw [frame, nextCell]
  by_cases hlt : b.length < 2
  · rw [if_pos hlt, if_pos (Or.inl hlt)]
    exact .inl rfl
  · rw [if_neg hlt, columnIdFromBinary_of_le (Nat.not_lt.mp hlt)]
    by_cases hzero : columnIdOf b = 0
    · rw [if_pos (Or.inr hzero)]
      exact .inl (if_pos hzero)
    · rw [if_neg fun h => h.elim hlt hzero]
      change CellFrame.Reads b (ite (columnIdOf b = 0) _ _) _
      rw [if_neg hzero, getCell]
      cases s.column (columnIdOf b) with
      | none => exact .inr ⟨_, rfl⟩
      | some type => exact frame_reads (Nat.not_lt.mp hlt) _ fun _ _ _ => .inl ⟨rfl, _, rfl⟩

theorem nextOlderCell_reads (library : RowLibrary) (t : RowTable) (version : Nat) (row : Row) (b : Bytes) :
    (olderFrame library t version b).Reads b (nextOlderCell library t version row b) := by
  rw [olderFrame, nextOlderCell]
  by_cases hempty : b = []
  · rw [if_pos hempty, if_pos hempty]
    exact .inl rfl
  rw [if_neg hempty, if_neg hempty]
  by_cases hlt : b.length < 2
  · rw [if_pos hlt, columnIdFromBinary, unchecked, Reader.bigEndian_of_lt hlt]
    rfl
  rw [if_neg hlt, columnIdFromBinary_of_le (Nat.not_lt.mp hlt)]
  change CellFrame.Reads b ((thrown (t.getSchema version)).bind _) _
  cases t.getSchema version with
  | error e => exact .inr ⟨e, rfl⟩
  | ok columns =>
    dsimp only [thrown, Except.mapError, Except.bind]
    cases columns (columnIdOf b) with
    | none => exact .inr ⟨_, rfl⟩
    | some column =>
      refine frame_reads (Nat.not_lt.mp hlt) {} fun source rest hsource => ?_
      rw [copies, hsource]
      cases t.hasName column.name with
      | false => exact .inl ⟨rfl, _, rfl⟩
      | true =>
        rw [getCell]
        cases t.current.column (columnIdOf b) with
        | none => exact .inr ⟨rfl, _, rfl⟩
        | some type =>
          have hsame := @RowCell.copyFrom_isSome library type column.type {} ((row.find? (columnIdOf b)).getD {}) source
          dsimp only [Bool.not_true, Bool.false_or]
          rw [hsame]
          change _ ∧ (∃ row', (thrown (RowCell.copyFrom library type column.type _ source)).bind _ = _) ∨
            _ ∧ ∃ e, (thrown (RowCell.copyFrom library type column.type _ source)).bind _ = _
          cases RowCell.copyFrom library type column.type ((row.find? (columnIdOf b)).getD {}) source with
          | error e => exact .inr ⟨rfl, e, rfl⟩
          | ok cell => exact .inl ⟨rfl, _, rfl⟩

/-! ### The whole row -/

/-- The loop reads behind the end exactly where a cell is cut short. -/
theorem cellsFromBinary_iff {frame : Bytes → CellFrame} {next : Row → Bytes → Except RowFailure (Option (Row × Bytes))}
    (hreads : ∀ row b, (frame b).Reads b (next row b)) {fuel : Nat} (hfuel : b.length < fuel) :
    cellsFromBinary next fuel row b ≠ .error .pastEnd ↔ Framed frame b := by
  induction fuel generalizing row b with
  | zero => exact absurd hfuel (Nat.not_lt_zero _)
  | succ fuel ih =>
    have hnext := hreads row b
    rw [cellsFromBinary]
    cases hframe : frame b with
    | ends =>
      rw [hframe] at hnext
      refine iff_of_true ?_ (.ends hframe)
      rcases hnext with hnext | ⟨e, hnext⟩
      · rw [hnext]
        exact fun h => by cases h
      · rw [hnext]
        exact fun h => by cases h
    | cut =>
      rw [hframe] at hnext
      have hpast : next row b = .error .pastEnd := hnext
      rw [hpast]
      refine iff_of_false (fun h => h rfl) fun h => ?_
      cases h with
      | ends hends => cases hframe.symm.trans hends
      | cell hcell _ => cases hframe.symm.trans hcell
    | cell n =>
      rw [hframe] at hnext
      obtain ⟨htwo, hle, row', hrow⟩ := hnext
      rw [hrow]
      refine (ih (by rw [List.length_drop]; omega)).trans ⟨.cell hframe, fun h => ?_⟩
      cases h with
      | ends hends => cases hframe.symm.trans hends
      | cell hcell hrest =>
        cases hframe.symm.trans hcell
        exact hrest

/-- What is said of a buffer: there is a row or an exception, and no byte behind the end is read. -/
def DecodesSafely (library : RowLibrary) (t : RowTable) (blob : Bytes) : Prop :=
  (∃ row, t.fromBinary library blob = .ok row) ∨ ∃ e, t.fromBinary library blob = .error (.thrown e)

theorem decodesSafely_iff_ne : DecodesSafely library t b ↔ t.fromBinary library b ≠ .error .pastEnd := by
  rw [DecodesSafely]
  cases t.fromBinary library b with
  | ok row => exact iff_of_true (.inl ⟨row, rfl⟩) fun h => by cases h
  | error e =>
    cases e with
    | thrown e => exact iff_of_true (.inr ⟨e, rfl⟩) fun h => by cases h
    | pastEnd =>
      refine iff_of_false ?_ fun h => h rfl
      rintro (⟨_, h⟩ | ⟨_, h⟩) <;> cases h

/-- The version that a buffer begins with. -/
def versionOf (b : Bytes) : Nat := ofBigEndian (b.take 4)

/-- Decoding is safe exactly where the version is there and no cell is cut short. -/
theorem decodesSafely_iff (library : RowLibrary) (t : RowTable) (blob : Bytes) : DecodesSafely library t blob ↔
    4 ≤ blob.length ∧ Framed (if versionOf blob ≠ t.current.version then olderFrame library t (versionOf blob) else frame t.current)
      (blob.drop 4) := by
  rw [decodesSafely_iff_ne, fromBinary, unchecked]
  rcases Nat.lt_or_ge blob.length 4 with hlt | hle
  · rw [Reader.bigEndian_of_lt hlt]
    exact iff_of_false (fun h => h rfl) fun h => Nat.not_le.mpr hlt h.1
  · rw [Reader.bigEndian_of_le hle, and_iff_right hle]
    refine cellsFromBinary_iff (fun row b => ?_) (Nat.lt_succ_self _)
    have hversion : ofBigEndian (blob.take 4) = versionOf blob := rfl
    rw [hversion]
    by_cases hnew : versionOf blob ≠ t.current.version
    · rw [if_pos hnew, if_pos hnew]
      exact nextOlderCell_reads library t _ row b
    · rw [if_neg hnew, if_neg hnew]
      exact nextCell_reads t.current row b

/-- A string of five bytes, with one of them in the buffer. -/
theorem not_decodesSafely : ¬∀ (library : RowLibrary) (t : RowTable) (blob : Bytes), DecodesSafely library t blob := by
  intro hall
  have hshort := hall ⟨fun _ _ => .ok [], fun _ _ => .ok [], fun _ _ => List.replicate 16 0, fun _ _ => rfl⟩
    ⟨.assign 1 (by decide) [.p8string], fun _ => true, fun _ => .error .schemaNotFound⟩ [0, 0, 0, 1, 0, 1, 5, 0x61]
  rw [decodesSafely_iff_ne] at hshort
  exact hshort rfl

/-! ### The rows that are read -/

theorem toOption_bind {α β : Type} (x : Except RowFailure α) (f : α → Except RowFailure β) :
    (x.bind f).toOption = x.toOption.bind fun a => (f a).toOption := by
  cases x <;> rfl

theorem toOption_unchecked {α : Type} (r : Reader α) (b : Bytes) : (unchecked r b).toOption = r b := by
  rw [unchecked]
  cases r b <;> rfl

theorem toOption_valueFromBinary (type : StructType) (c : RowCell) (b : Bytes) :
    (valueFromBinary type c b).toOption = c.valueFromBinary type b := by
  cases hshape : type.shape with
  | none =>
    rw [valueFromBinary_none hshape, RowCell.valueFromBinary_eq, hshape]
    rfl
  | void | uinteger _ | integer _ | float _ | string _ =>
    rw [valueFromBinary_eq (fun h => by cases hshape.symm.trans h), toOption_unchecked, RowCell.valueFromBinary_eq]

theorem toOption_nextCell (s : RowSchema) (row : Row) (b : Bytes) : (nextCell s row b).toOption = Row.cellFromBinary s row b := by
  rcases Nat.lt_or_ge b.length 2 with hlt | hle
  · rw [nextCell, if_pos hlt, Row.cellFromBinary, if_pos hlt]
    rfl
  · rw [nextCell, if_neg (Nat.not_lt.mpr hle), columnIdFromBinary_of_le hle,
      Row.cellFromBinary_eq s row b (Nat.not_lt.mpr hle) (Reader.bigEndian_of_le hle)]
    change (ite (columnIdOf b = 0) _ _ : Except RowFailure (Option (Row × Bytes))).toOption = ite (columnIdOf b = 0) _ _
    split
    · rfl
    · rw [getCell]
      change _ = (s.column (columnIdOf b)).bind _
      cases s.column (columnIdOf b) with
      | none => rfl
      | some type =>
        refine (toOption_bind (valueFromBinary type _ _) _).trans ?_
        rw [toOption_valueFromBinary]
        exact Option.map_eq_bind.symm

end RowTable
end

end Snapwebsites.Snapdatabase
