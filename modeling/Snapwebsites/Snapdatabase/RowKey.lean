import Snapwebsites.Lib.Loops
import Snapwebsites.Snapdatabase.Row
import Snapwebsites.Snapdatabase.SchemaList

/-! # The bytes of the primary key

`generate_mumur3()` hashes the values of the key columns, with a separator behind each one without a fixed size, and then the branch
and the revision where they are used. Each value delimits itself, so the bytes are read back one column after the other; a number on
128 or 256 bits is written without the bits above those of its type, which its setter does not check. -/

namespace Snapwebsites.Snapdatabase

/-- `type_with_fixed_size()`. -/
def StructType.hasFixedSize (type : StructType) : Bool :=
  match type with
  | .p8string | .p16string | .p32string | .typeStructure | .array8 | .array16 | .array32 | .buffer8 | .buffer16 | .buffer32 => false
  | _ => true

def Version.isNull (v : Version) : Bool := v.major == 0 && v.minor == 0

namespace Row

def separator (add : Bool) : Bytes := if add then [255] else []

/-- A column of the key; nothing when it throws. -/
def pushKeyColumn (s : RowSchema) (row : Row) (key : Bytes × Bool) (columnId : ColumnId) : Option (Bytes × Bool) := do
  let cell ← row.find? columnId
  let type ← s.column columnId
  let value ← cell.valueToBinary type
  some (key.1 ++ separator key.2 ++ value, !type.hasFixedSize)

/-- What follows the columns. -/
def versionToKey (addSeparator : Bool) (version : Version) (language : Bytes) : Bytes :=
  if version.isNull then []
  else separator addSeparator ++ bigEndian 2 version.major.toNat ++
    if language = [] then [] else bigEndian 2 version.minor.toNat ++ language

/-- What `generate_mumur3()` hashes. -/
def keyToBinary (s : RowSchema) (rowKey : List ColumnId) (row : Row) (version : Version) (language : Bytes) : Option Bytes := do
  let (key, addSeparator) ← rowKey.foldlM (pushKeyColumn s row) ([], false)
  some (key ++ versionToKey addSeparator version language)

/-- The branch, where it is used. -/
def branch (version : Version) : Option UInt16 := if version.isNull then none else some version.major

/-- The revision, which goes with a language. -/
def revision (version : Version) (language : Bytes) : Option UInt16 :=
  if version.isNull ∨ language = [] then none else some version.minor

end Row

/-! ### What is written of a number -/

/-- A value without the bits above those of its type. -/
def CellValue.written (type : StructType) : CellValue → CellValue
  | .integer x =>
    match type.shape with
    | .uinteger w | .integer w => .integer (low w x)
    | _ => .integer x
  | v => v

/-- The bits above those of the type. -/
def CellValue.above (type : StructType) : CellValue → BitVec 512
  | .integer x =>
    match type.shape with
    | .uinteger w | .integer w => x >>> (8 * w)
    | _ => 0
  | _ => 0

theorem eq_of_low_above {w : Nat} {x y : BitVec 512} (hw : w ≤ 64) (hlow : low w x = low w y)
    (habove : x >>> (8 * w) = y >>> (8 * w)) : x = y := by
  have hsize : 8 * w ≤ 512 := by omega
  have hmod (z : BitVec 512) : (low w z).toNat = z.toNat % 2 ^ (8 * w) := by
    rw [low, BitVec.toNat_setWidth_of_le hsize, BitVec.toNat_setWidth]
  have hdiv (z : BitVec 512) : (z >>> (8 * w)).toNat = z.toNat / 2 ^ (8 * w) := by
    rw [BitVec.toNat_ushiftRight, Nat.shiftRight_eq_div_pow]
  have hlow' := congrArg BitVec.toNat hlow
  have habove' := congrArg BitVec.toNat habove
  rw [hmod, hmod] at hlow'
  rw [hdiv, hdiv] at habove'
  apply BitVec.eq_of_toNat_eq
  rw [← Nat.mod_add_div x.toNat (2 ^ (8 * w)), ← Nat.mod_add_div y.toNat (2 ^ (8 * w)), hlow', habove']

namespace RowCell
variable {type : StructType} {c d : RowCell} {b b' t t' : Bytes}

theorem low_eq_low_iff {w : Nat} (hw : w ≤ 64) {x y : BitVec 512} : low w x = low w y ↔ x.toNat % 256 ^ w = y.toNat % 256 ^ w := by
  have hsize : 8 * w ≤ 512 := by omega
  rw [← BitVec.toNat_inj, low, low, BitVec.toNat_setWidth_of_le hsize, BitVec.toNat_setWidth_of_le hsize, BitVec.toNat_setWidth,
    BitVec.toNat_setWidth, Nat.pow_mul]

theorem written_number {w : Nat} (h : type.shape = .uinteger w ∨ type.shape = .integer w) (c : RowCell) :
    (c.value type).written type = .integer (low w c.integer) := by
  have hw := StructType.shape_le h
  rcases h with h | h
  all_goals
    simp only [value, h, CellValue.written]
    split
    · rw [low_low hw]
    · rfl

theorem above_number {w : Nat} (h : type.shape = .uinteger w ∨ type.shape = .integer w) (c : RowCell) :
    (c.value type).above type = if w ≤ 8 then 0 else c.integer >>> (8 * w) := by
  have hw := StructType.shape_le h
  have hnone (x : BitVec 512) : low w x >>> (8 * w) = 0 := by
    have hsize : 8 * w ≤ 512 := by omega
    apply BitVec.eq_of_toNat_eq
    rw [BitVec.toNat_ushiftRight, low, BitVec.toNat_setWidth_of_le hsize, Nat.shiftRight_eq_div_pow,
      Nat.div_eq_of_lt (BitVec.isLt _)]
    exact BitVec.toNat_zero.symm
  rcases h with h | h
  all_goals
    simp only [value, h, CellValue.above]
    split
    · exact hnone _
    · rfl

/-- A value is what is written of it, and the bits above. -/
theorem value_eq_iff : c.value type = d.value type ↔
    (c.value type).written type = (d.value type).written type ∧ (c.value type).above type = (d.value type).above type := by
  refine ⟨fun h => by rw [h]; exact ⟨rfl, rfl⟩, fun ⟨hwritten, habove⟩ => ?_⟩
  have hnumber {w : Nat} (h : type.shape = .uinteger w ∨ type.shape = .integer w) : c.value type = d.value type := by
    have hw := StructType.shape_le h
    rw [written_number h, written_number h, CellValue.integer.injEq] at hwritten
    rw [above_number h, above_number h] at habove
    have hvalue (e : RowCell) : e.value type = .integer (if w ≤ 8 then low w e.integer else e.integer) := by
      rcases h with h | h <;> simp only [value, h]
    rw [hvalue, hvalue]
    split
    · rw [hwritten]
    · rename_i hwide
      rw [if_neg hwide, if_neg hwide] at habove
      rw [eq_of_low_above hw hwritten habove]
  cases hshape : type.shape with
  | uinteger w => exact hnumber (.inl hshape)
  | integer w => exact hnumber (.inr hshape)
  | void | none => simp only [value, hshape]
  | float w | string w => simpa only [value, hshape, CellValue.written] using hwritten

/-- Numbers in the range of their type have no other bits. -/
theorem above_eq_of_inRange (hc : (c.value type).InRange type) (hd : (d.value type).InRange type)
    (h : (c.value type).written type = (d.value type).written type) : (c.value type).above type = (d.value type).above type := by
  have hvalue {w : Nat} (hwide : 8 < w) (e : RowCell) : (if w ≤ 8 then low w e.integer else e.integer) = e.integer :=
    if_neg (Nat.not_le.mpr hwide)
  have hnumber {w : Nat} (hshape : type.shape = .uinteger w ∨ type.shape = .integer w)
      (heq : 8 < w → low w c.integer = low w d.integer → c.integer = d.integer) :
      (c.value type).above type = (d.value type).above type := by
    rw [written_number hshape, written_number hshape, CellValue.integer.injEq] at h
    rw [above_number hshape, above_number hshape]
    split
    · rfl
    · rename_i hwide
      rw [heq (Nat.lt_of_not_le hwide) h]
  cases hshape : type.shape with
  | uinteger w =>
    refine hnumber (.inl hshape) fun hwide hlow => ?_
    simp only [value, hshape, CellValue.InRange, hvalue hwide] at hc hd
    rw [← hc hwide, ← hd hwide, hlow]
  | integer w =>
    refine hnumber (.inr hshape) fun hwide hlow => ?_
    have hw := StructType.shape_le (.inr hshape)
    have hbits (x : BitVec 512) : lowSigned w x = ((low w x).setWidth (8 * w)).signExtend 512 := by
      rw [low, setWidth_extended hw, lowSigned]
    simp only [value, hshape, CellValue.InRange, hvalue hwide] at hc hd
    rw [← hc hwide, ← hd hwide, hbits, hbits, hlow]
  | void | none | float w | string w => simp only [value, hshape, CellValue.above]

/-- Two values of a column stand in front of the same bytes exactly where what is written of them is the same. -/
theorem valueToBinary_append_iff (hc : c.valueToBinary type = some b) (hd : d.valueToBinary type = some b')
    (hfloat : type.isFloat = false) : b ++ t = b' ++ t' ↔ (c.value type).written type = (d.value type).written type ∧ t = t' := by
  rw [valueToBinary_eq] at hc hd
  have hnumber {w : Nat} (h : type.shape = .uinteger w ∨ type.shape = .integer w) :
      b ++ t = b' ++ t' ↔ (c.value type).written type = (d.value type).written type ∧ t = t' := by
    have hbytes (e : RowCell) : e.writeShape type.shape = some (bigEndian w e.integer.toNat) := by
      rcases h with h | h <;> rw [h] <;> rfl
    rw [hbytes] at hc hd
    obtain rfl := Option.some.inj hc
    obtain rfl := Option.some.inj hd
    rw [bigEndian_append_iff, written_number h, written_number h, CellValue.integer.injEq, low_eq_low_iff (StructType.shape_le h)]
  cases hshape : type.shape with
  | uinteger w => exact hnumber (.inl hshape)
  | integer w => exact hnumber (.inr hshape)
  | void =>
    rw [hshape] at hc hd
    obtain rfl := Option.some.inj hc
    obtain rfl := Option.some.inj hd
    simp only [value, hshape, true_and, List.nil_append]
  | none =>
    rw [hshape] at hc
    cases hc
  | float w => cases type <;> simp [StructType.shape, StructType.isFloat] at hshape hfloat
  | string w =>
    rw [hshape, writeShape, stringToBinary] at hc hd
    split at hc
    · cases hc
    · rename_i hlt
      split at hd
      · cases hd
      · rename_i hlt'
        obtain rfl := Option.some.inj hc
        obtain rfl := Option.some.inj hd
        simp only [value, hshape, CellValue.written, CellValue.string.injEq]
        rw [List.append_assoc, List.append_assoc, bigEndian_append_iff, Nat.mod_eq_of_lt (Nat.lt_of_not_le hlt),
          Nat.mod_eq_of_lt (Nat.lt_of_not_le hlt')]
        constructor
        · rintro ⟨hlength, heq⟩
          exact List.append_inj heq hlength
        · rintro ⟨heq, rfl⟩
          rw [heq]
          exact ⟨rfl, rfl⟩

end RowCell

/-! ### The key -/

namespace Row
variable {s : RowSchema} {row row' : Row} {key : Bytes × Bool} {columnId : ColumnId} {rowKey : List ColumnId}
variable {version version' : Version} {language language' k k' : Bytes} {add add' : Bool} {p : Bytes × Bool}

/-- What is written of a column. -/
def written (s : RowSchema) (row : Row) (columnId : ColumnId) : Option CellValue :=
  (s.column columnId).bind fun type => (values s row columnId).map fun v => v.written type

/-- The bits of a column above those of its type. -/
def above (s : RowSchema) (row : Row) (columnId : ColumnId) : Option (BitVec 512) :=
  (s.column columnId).bind fun type => (values s row columnId).map fun v => v.above type

/-- The language, where it is used. -/
def keyLanguage (version : Version) (language : Bytes) : Bytes := if version.isNull then [] else language

theorem pushKeyColumn_eq_some : pushKeyColumn s row key columnId = some p ↔ ∃ c type value,
    row.find? columnId = some c ∧ s.column columnId = some type ∧ c.valueToBinary type = some value ∧
      p = (key.1 ++ separator key.2 ++ value, !type.hasFixedSize) := by
  simp only [pushKeyColumn, Option.bind_eq_bind, Option.bind_eq_some_iff, Option.some.injEq]
  constructor
  · rintro ⟨c, hc, type, htype, value, hvalue, rfl⟩
    exact ⟨c, type, value, hc, htype, hvalue, rfl⟩
  · rintro ⟨c, type, value, hc, htype, hvalue, rfl⟩
    exact ⟨c, hc, type, htype, value, hvalue, rfl⟩

/-- The columns of two rows stand in front of the same bytes exactly where what is written of each of them is the same. -/
theorem keyColumns_append_iff (hfloat : ∀ id ∈ rowKey, ∀ type, s.column id = some type → type.isFloat = false)
    (h : rowKey.foldlM (pushKeyColumn s row) (k, add) = some key) {key' : Bytes × Bool}
    (h' : rowKey.foldlM (pushKeyColumn s row') (k', add) = some key') : ∃ b b', key.1 = k ++ b ∧ key'.1 = k' ++ b' ∧ key.2 = key'.2 ∧
      ∀ t t', b ++ t = b' ++ t' ↔ (∀ id ∈ rowKey, written s row id = written s row' id) ∧ t = t' := by
  induction rowKey generalizing k k' add with
  | nil =>
    cases h
    cases h'
    exact ⟨[], [], (List.append_nil k).symm, (List.append_nil k').symm, rfl, fun t t' => by simp⟩
  | cons id rowKey ih =>
    rw [List.foldlM_cons] at h h'
    obtain ⟨p, hp, h⟩ := Option.bind_eq_some_iff.mp h
    obtain ⟨p', hp', h'⟩ := Option.bind_eq_some_iff.mp h'
    obtain ⟨c, type, value, hc, htype, hvalue, rfl⟩ := pushKeyColumn_eq_some.mp hp
    obtain ⟨c', type', value', hc', htype', hvalue', rfl⟩ := pushKeyColumn_eq_some.mp hp'
    obtain rfl := Option.some.inj (htype.symm.trans htype')
    obtain ⟨b, b', hb, hb', hadd, hrest⟩ := ih (fun id hid => hfloat id (List.mem_cons_of_mem _ hid)) h h'
    have hwritten : written s row id = written s row' id ↔ (c.value type).written type = (c'.value type).written type := by
      simp only [written, values, hc, hc', htype, Option.bind_some, Option.map_some, Option.some.injEq]
    refine ⟨separator add ++ value ++ b, separator add ++ value' ++ b', ?_, ?_, hadd, fun t t' => ?_⟩
    · rw [hb, List.append_assoc, List.append_assoc, List.append_assoc]
    · rw [hb', List.append_assoc, List.append_assoc, List.append_assoc]
    · rw [List.forall_mem_cons, hwritten, and_assoc, ← hrest,
        ← RowCell.valueToBinary_append_iff hvalue hvalue' (hfloat id List.mem_cons_self type htype)]
      simp only [List.append_assoc, List.append_cancel_left_eq]

theorem Version.toNat_mod (n : UInt16) : n.toNat % 256 ^ 2 = n.toNat := Nat.mod_eq_of_lt n.toNat_lt

theorem versionToKey_eq_iff : versionToKey add version language = versionToKey add version' language' ↔
    branch version = branch version' ∧ revision version language = revision version' language' ∧
      keyLanguage version language = keyLanguage version' language' := by
  have hlength {v : Version} {l : Bytes} (hv : v.isNull = false) : 2 ≤ (versionToKey add v l).length := by
    rw [versionToKey, if_neg (by rw [hv]; decide), List.length_append, List.length_append, bigEndian_length]
    omega
  unfold branch revision keyLanguage
  cases hnull : version.isNull <;> cases hnull' : version'.isNull
  · simp only [versionToKey, hnull, hnull', Bool.false_eq_true, if_false, false_or, Option.some.injEq, List.append_assoc,
      List.append_cancel_left_eq, bigEndian_append_iff, Version.toNat_mod, UInt16.toNat_inj]
    by_cases hl : language = [] <;> by_cases hl' : language' = []
    · simp [hl, hl']
    · simp [hl, hl', bigEndian, Ne.symm hl']
    · simp [hl, hl', bigEndian]
    · simp [hl, hl', bigEndian_append_iff, UInt16.toNat_inj]
  · refine iff_of_false (fun h => ?_) fun h => by simp at h
    have := hlength (l := language) hnull
    rw [h, versionToKey, if_pos hnull'] at this
    simp at this
  · refine iff_of_false (fun h => ?_) fun h => by simp at h
    have := hlength (l := language') hnull'
    rw [← h, versionToKey, if_pos hnull] at this
    simp at this
  · simp [versionToKey, hnull, hnull']

/-- The bytes are those of another row only with the same values of the key columns, the same branch and the same revision. -/
def TellsApart (s : RowSchema) (rowKey : List ColumnId) (row row' : Row) (version version' : Version) (language language' : Bytes) :
    Prop :=
  keyToBinary s rowKey row version language = keyToBinary s rowKey row' version' language' →
    (∀ id ∈ rowKey, values s row id = values s row' id) ∧ branch version = branch version' ∧
      revision version language = revision version' language'

/-- All that is written is the same. -/
def SameWritten (s : RowSchema) (rowKey : List ColumnId) (row row' : Row) (version version' : Version) (language language' : Bytes) :
    Prop :=
  (∀ id ∈ rowKey, written s row id = written s row' id) ∧ branch version = branch version' ∧
    revision version language = revision version' language' ∧ keyLanguage version language = keyLanguage version' language'

theorem keyToBinary_eq_iff (hfloat : ∀ id ∈ rowKey, ∀ type, s.column id = some type → type.isFloat = false)
    (h : keyToBinary s rowKey row version language = some k) (h' : keyToBinary s rowKey row' version' language' = some k') :
    k = k' ↔ SameWritten s rowKey row row' version version' language language' := by
  obtain ⟨p, hp, hk⟩ := Option.bind_eq_some_iff.mp h
  obtain ⟨p', hp', hk'⟩ := Option.bind_eq_some_iff.mp h'
  obtain ⟨b, b', hb, hb', hadd, hall⟩ := keyColumns_append_iff hfloat hp hp'
  obtain rfl := Option.some.inj hk
  obtain rfl := Option.some.inj hk'
  rw [hb, hb', List.nil_append, List.nil_append, hall, hadd, versionToKey_eq_iff]
  rfl

theorem values_eq_iff {id : ColumnId} (h : (s.column id).isSome = true) : values s row id = values s row' id ↔
    written s row id = written s row' id ∧ above s row id = above s row' id := by
  obtain ⟨type, htype⟩ := Option.isSome_iff_exists.mp h
  unfold written above values
  rw [htype]
  cases hc : row.find? id with
  | none => cases hc' : row'.find? id <;> simp
  | some c =>
    cases hc' : row'.find? id with
    | none => simp
    | some c' =>
      simp only [Option.bind_some, Option.map_some, Option.some.injEq]
      exact RowCell.value_eq_iff

theorem above_eq_of_inRange {id : ColumnId} (h : ∀ type v, s.column id = some type → values s row id = some v → v.InRange type)
    (h' : ∀ type v, s.column id = some type → values s row' id = some v → v.InRange type)
    (hwritten : written s row id = written s row' id) : above s row id = above s row' id := by
  unfold written at hwritten
  unfold above
  unfold values at h h' hwritten ⊢
  cases htype : s.column id with
  | none => rfl
  | some type =>
    rw [htype] at hwritten h h'
    cases hc : row.find? id with
    | none => cases hc' : row'.find? id <;> simp [hc, hc'] at hwritten ⊢
    | some c =>
      cases hc' : row'.find? id with
      | none => simp [hc, hc'] at hwritten
      | some c' =>
        simp only [hc, hc', Option.bind_some, Option.map_some, Option.some.injEq] at hwritten h h' ⊢
        exact RowCell.above_eq_of_inRange (h type _ rfl rfl) (h' type _ rfl rfl) hwritten

theorem column_of_keyColumns (h : rowKey.foldlM (pushKeyColumn s row) key = some p) :
    ∀ id ∈ rowKey, (s.column id).isSome = true := by
  intro id hid
  obtain ⟨_, _, _, hpush, -⟩ := foldlM_mem h hid
  obtain ⟨_, type, _, _, htype, _⟩ := pushKeyColumn_eq_some.mp hpush
  rw [htype]
  rfl

/-- The key tells two rows apart exactly where the bits above those of the types do not have to. -/
theorem tellsApart_iff (hfloat : ∀ id ∈ rowKey, ∀ type, s.column id = some type → type.isFloat = false)
    (h : keyToBinary s rowKey row version language = some k) (h' : keyToBinary s rowKey row' version' language' = some k') :
    TellsApart s rowKey row row' version version' language language' ↔
      (SameWritten s rowKey row row' version version' language language' → ∀ id ∈ rowKey, above s row id = above s row' id) := by
  obtain ⟨_, hp, -⟩ := Option.bind_eq_some_iff.mp h
  have hcolumn := column_of_keyColumns hp
  rw [TellsApart, h, h', Option.some.injEq, keyToBinary_eq_iff hfloat h h']
  constructor
  · intro hall hsame id hid
    exact ((values_eq_iff (hcolumn id hid)).mp ((hall hsame).1 id hid)).2
  · intro habove hsame
    exact ⟨fun id hid => (values_eq_iff (hcolumn id hid)).mpr ⟨hsame.1 id hid, habove hsame id hid⟩, hsame.2.1, hsame.2.2.1⟩

/-- Rows with numbers in the range of their types are told apart. -/
theorem tellsApart_of_inRange (hfloat : ∀ id ∈ rowKey, ∀ type, s.column id = some type → type.isFloat = false)
    (h : keyToBinary s rowKey row version language = some k) (h' : keyToBinary s rowKey row' version' language' = some k')
    (hrange : ∀ id ∈ rowKey, ∀ type v, s.column id = some type → values s row id = some v ∨ values s row' id = some v →
      v.InRange type) :
    TellsApart s rowKey row row' version version' language language' := by
  obtain ⟨_, hp, -⟩ := Option.bind_eq_some_iff.mp h
  rw [TellsApart, h, h', Option.some.injEq, keyToBinary_eq_iff hfloat h h']
  intro hsame
  refine ⟨fun id hid => (values_eq_iff (column_of_keyColumns hp id hid)).mpr ⟨hsame.1 id hid, ?_⟩, hsame.2.1, hsame.2.2.1⟩
  exact above_eq_of_inRange (fun type v ht hv => hrange id hid type v ht (.inl hv))
    (fun type v ht hv => hrange id hid type v ht (.inr hv)) (hsame.1 id hid)

/-- A table with one column of 128 bits, and its rows. -/
def wideSchema : RowSchema := RowSchema.assign 65536 (by decide) [.uint128]

def wideRow (n : Nat) : Row := (∅ : Row).insert 1 { integer := BitVec.ofNat 512 n }

theorem keyToBinary_wideRow (n : Nat) :
    keyToBinary wideSchema [1] (wideRow n) .null [] = some (bigEndian 16 (BitVec.ofNat 512 n).toNat) := rfl

/-- Zero and one are told apart. -/
theorem tellsApart_iff_wide : TellsApart wideSchema [1] (wideRow 0) (wideRow 1) .null .null [] [] ↔
    (SameWritten wideSchema [1] (wideRow 0) (wideRow 1) .null .null [] [] →
      ∀ id ∈ [1], above wideSchema (wideRow 0) id = above wideSchema (wideRow 1) id) := by
  refine tellsApart_iff (fun id hid type htype => ?_) (keyToBinary_wideRow 0) (keyToBinary_wideRow 1)
  obtain rfl := List.mem_singleton.mp hid
  obtain rfl := Option.some.inj htype
  rfl

theorem tellsApart_of_inRange_wide : TellsApart wideSchema [1] (wideRow 0) (wideRow 1) .null .null [] [] := by
  refine tellsApart_of_inRange (fun id hid type htype => ?_) (keyToBinary_wideRow 0) (keyToBinary_wideRow 1)
    (fun id hid type v htype hv => ?_)
  all_goals
    obtain rfl := List.mem_singleton.mp hid
    obtain rfl := Option.some.inj htype
  · rfl
  · have hlow : low 16 (BitVec.ofNat 512 0) = BitVec.ofNat 512 0 ∧ low 16 (BitVec.ofNat 512 1) = BitVec.ofNat 512 1 := by decide +kernel
    rcases hv with hv | hv
    · obtain rfl := Option.some.inj hv
      exact fun _ => hlow.1
    · obtain rfl := Option.some.inj hv
      exact fun _ => hlow.2
theorem toNat_ofNat_wide : (BitVec.ofNat 512 (2 ^ 128)).toNat = 2 ^ 128 := by
  rw [BitVec.toNat_ofNat, Nat.mod_eq_of_lt (Nat.pow_lt_pow_right (by decide) (by decide))]

/-- Zero and 2^128 are not. -/
theorem not_tellsApart : ¬TellsApart wideSchema [1] (wideRow 0) (wideRow (2 ^ 128)) .null .null [] [] := by
  intro h
  have hzero : (BitVec.ofNat 512 0).toNat = 0 := by rw [BitVec.toNat_ofNat, Nat.zero_mod]
  have hbytes : 2 ^ 128 % 256 ^ 16 = 0 := by decide
  have hkey : bigEndian 16 (BitVec.ofNat 512 0).toNat = bigEndian 16 (BitVec.ofNat 512 (2 ^ 128)).toNat := by
    rw [hzero, toNat_ofNat_wide, ← bigEndian_mod_of_le (2 ^ 128) (Nat.le_refl 16), hbytes]
  rw [TellsApart, keyToBinary_wideRow, keyToBinary_wideRow] at h
  have hvalue : some (CellValue.integer (BitVec.ofNat 512 0)) = some (CellValue.integer (BitVec.ofNat 512 (2 ^ 128))) :=
    (h (congrArg some hkey)).1 1 (List.mem_singleton.mpr rfl)
  have hnumber := congrArg BitVec.toNat (CellValue.integer.inj (Option.some.inj hvalue))
  rw [hzero, toNat_ofNat_wide] at hnumber
  exact absurd hnumber (Nat.ne_of_lt (Nat.two_pow_pos 128))

end Row

end Snapwebsites.Snapdatabase
