import Snapwebsites.Snapdatabase.Row

/-! # Typed values of a cell

The setters and getters of a cell, each of which verifies the type of its column. Up to 64 bits, a setter extends its value to the 512 bits
of the cell and a getter takes the low bits; above, the 512 bits are set and returned as they are. Floating point values are left out. -/

namespace Snapwebsites.Snapdatabase

inductive CellError
  | typeMismatch
  deriving DecidableEq

/-- `verify_cell_type()`. -/
def verifyCellType (type : StructType) (expected : List StructType) : Except CellError Unit :=
  if type ∈ expected then .ok () else .error .typeMismatch

namespace RowCell

/-- A setter of an unsigned number on `k` bytes. -/
def setUnsigned (expected : List StructType) (k : Nat) (type : StructType) (value : BitVec (8 * k)) (c : RowCell) : Except CellError RowCell := do
  verifyCellType type expected
  pure { c with integer := value.setWidth 512 }

/-- A setter of a signed number on `k` bytes. -/
def setSigned (expected : List StructType) (k : Nat) (type : StructType) (value : BitVec (8 * k)) (c : RowCell) : Except CellError RowCell := do
  verifyCellType type expected
  pure { c with integer := value.signExtend 512 }

/-- A setter of a number on more than 64 bits. -/
def setWide (expected : List StructType) (type : StructType) (value : BitVec 512) (c : RowCell) : Except CellError RowCell := do
  verifyCellType type expected
  pure { c with integer := value }

/-- A getter of a number on `k` bytes. -/
def getWord (expected : List StructType) (k : Nat) (type : StructType) (c : RowCell) : Except CellError (BitVec (8 * k)) := do
  verifyCellType type expected
  pure (c.integer.setWidth (8 * k))

/-- A getter of a number on more than 64 bits. -/
def getWide (expected : List StructType) (type : StructType) (c : RowCell) : Except CellError (BitVec 512) := do
  verifyCellType type expected
  pure c.integer

def setVoid (type : StructType) (c : RowCell) : Except CellError RowCell := do
  verifyCellType type [.void]
  pure c

def setOid := setUnsigned [.oid] 8
def setInt8 := setSigned [.int8] 1
def setUint8 := setUnsigned [.bits8, .uint8] 1
def setInt16 := setSigned [.int16] 2
def setUint16 := setUnsigned [.bits16, .uint16] 2
def setInt32 := setSigned [.int32] 4
def setUint32 := setUnsigned [.bits32, .uint32] 4
def setInt64 := setSigned [.int64] 8
def setUint64 := setUnsigned [.bits64, .uint64] 8
def setInt128 := setWide [.int128]
def setUint128 := setWide [.uint128]
def setInt256 := setWide [.int256]
def setUint256 := setWide [.uint256]
def setInt512 := setWide [.int512]
def setUint512 := setWide [.uint512]
def setTime := setUnsigned [.time] 8
def setTimeMs := setUnsigned [.mstime] 8
def setTimeUs := setUnsigned [.ustime] 8

/-- `set_version()`, with what `to_binary()` makes of the version. -/
def setVersion := setUnsigned [.version] 4

def setString (type : StructType) (value : Bytes) (c : RowCell) : Except CellError RowCell := do
  verifyCellType type [.p8string, .p16string, .p32string]
  pure { c with string := value }

def getOid := getWord [.oid] 8
def getInt8 := getWord [.int8] 1
def getUint8 := getWord [.bits8, .uint8] 1
def getInt16 := getWord [.int16] 2
def getUint16 := getWord [.bits16, .uint16] 2
def getInt32 := getWord [.int32] 4
def getUint32 := getWord [.bits32, .uint32] 4
def getInt64 := getWord [.int64] 8
def getUint64 := getWord [.bits64, .uint64] 8
def getInt128 := getWide [.int128]
def getUint128 := getWide [.uint128]
def getInt256 := getWide [.int256]
def getUint256 := getWide [.uint256]
def getInt512 := getWide [.int512]
def getUint512 := getWide [.uint512]
def getTime := getWord [.time] 8
def getTimeMs := getWord [.mstime] 8
def getTimeUs := getWord [.ustime] 8

/-- `get_version()`, as a number. -/
def getVersion := getWord [.version] 4

def getString (type : StructType) (c : RowCell) : Except CellError Bytes := do
  verifyCellType type [.p8string, .p16string, .p32string]
  pure c.string

end RowCell

/-! ### All the accessors -/

/-- The setters with their values. -/
inductive CellSetter
  | void
  | oid (value : BitVec 64)
  | int8 (value : BitVec 8) | uint8 (value : BitVec 8)
  | int16 (value : BitVec 16) | uint16 (value : BitVec 16)
  | int32 (value : BitVec 32) | uint32 (value : BitVec 32)
  | int64 (value : BitVec 64) | uint64 (value : BitVec 64)
  | int128 (value : BitVec 512) | uint128 (value : BitVec 512)
  | int256 (value : BitVec 512) | uint256 (value : BitVec 512)
  | int512 (value : BitVec 512) | uint512 (value : BitVec 512)
  | time (value : BitVec 64) | timeMs (value : BitVec 64) | timeUs (value : BitVec 64)
  | version (value : BitVec 32)
  | string (value : Bytes)

def CellSetter.run (type : StructType) : CellSetter → RowCell → Except CellError RowCell
  | .void => RowCell.setVoid type
  | .oid value => RowCell.setOid type value
  | .int8 value => RowCell.setInt8 type value
  | .uint8 value => RowCell.setUint8 type value
  | .int16 value => RowCell.setInt16 type value
  | .uint16 value => RowCell.setUint16 type value
  | .int32 value => RowCell.setInt32 type value
  | .uint32 value => RowCell.setUint32 type value
  | .int64 value => RowCell.setInt64 type value
  | .uint64 value => RowCell.setUint64 type value
  | .int128 value => RowCell.setInt128 type value
  | .uint128 value => RowCell.setUint128 type value
  | .int256 value => RowCell.setInt256 type value
  | .uint256 value => RowCell.setUint256 type value
  | .int512 value => RowCell.setInt512 type value
  | .uint512 value => RowCell.setUint512 type value
  | .time value => RowCell.setTime type value
  | .timeMs value => RowCell.setTimeMs type value
  | .timeUs value => RowCell.setTimeUs type value
  | .version value => RowCell.setVersion type value
  | .string value => RowCell.setString type value

/-- What the getters of a type return, and whether they throw. -/
@[ext] structure CellGetters where
  oid : Except CellError (BitVec 64)
  int8 : Except CellError (BitVec 8)
  uint8 : Except CellError (BitVec 8)
  int16 : Except CellError (BitVec 16)
  uint16 : Except CellError (BitVec 16)
  int32 : Except CellError (BitVec 32)
  uint32 : Except CellError (BitVec 32)
  int64 : Except CellError (BitVec 64)
  uint64 : Except CellError (BitVec 64)
  int128 : Except CellError (BitVec 512)
  uint128 : Except CellError (BitVec 512)
  int256 : Except CellError (BitVec 512)
  uint256 : Except CellError (BitVec 512)
  int512 : Except CellError (BitVec 512)
  uint512 : Except CellError (BitVec 512)
  time : Except CellError (BitVec 64)
  timeMs : Except CellError (BitVec 64)
  timeUs : Except CellError (BitVec 64)
  version : Except CellError (BitVec 32)
  string : Except CellError Bytes

namespace RowCell

def getters (type : StructType) (c : RowCell) : CellGetters where
  oid := c.getOid type
  int8 := c.getInt8 type
  uint8 := c.getUint8 type
  int16 := c.getInt16 type
  uint16 := c.getUint16 type
  int32 := c.getInt32 type
  uint32 := c.getUint32 type
  int64 := c.getInt64 type
  uint64 := c.getUint64 type
  int128 := c.getInt128 type
  uint128 := c.getUint128 type
  int256 := c.getInt256 type
  uint256 := c.getUint256 type
  int512 := c.getInt512 type
  uint512 := c.getUint512 type
  time := c.getTime type
  timeMs := c.getTimeMs type
  timeUs := c.getTimeUs type
  version := c.getVersion type
  string := c.getString type

/-- What is said of a cell that was set, and of one that its value is read into: the getters return the same, and all that was written
is read, and nothing behind it. -/
def RoundTrips (type : StructType) (c c' : RowCell) : Prop :=
  ∀ b, c.valueToBinary type = some b → ∃ d, Reads (c'.valueFromBinary type) d b ∧ d.getters type = c.getters type

end RowCell

/-- A number on 128 or 256 bits has no more bits than its type. -/
def CellSetter.Fits : CellSetter → Prop
  | .int128 value => lowSigned 16 value = value
  | .uint128 value => low 16 value = value
  | .int256 value => lowSigned 32 value = value
  | .uint256 value => low 32 value = value
  | _ => True

/-! ### What is read back -/

section
variable {type : StructType} {expected : List StructType} {k : Nat} {c c' d : RowCell} {setter : CellSetter}

theorem verifyCellType_of_mem (h : type ∈ expected) : verifyCellType type expected = .ok () := if_pos h

theorem verifyCellType_of_not_mem (h : type ∉ expected) : verifyCellType type expected = .error .typeMismatch := if_neg h

namespace RowCell

/-- The low bytes of a number are those that are stored. -/
theorem stored_setWidth (hshape : type.shape = .uinteger k ∨ type.shape = .integer k) :
    (c.stored type c').integer.setWidth (8 * k) = c.integer.setWidth (8 * k) := by
  have hk := StructType.shape_le hshape
  rcases hshape with h | h
  · rw [stored, h]
    exact setWidth_extended hk _
  · rw [stored, h]
    exact setWidth_signExtended hk _

/-- A getter of up to 64 bits returns what was set. -/
theorem getWord_stored (hexpected : ∀ t ∈ expected, t.shape = .uinteger k ∨ t.shape = .integer k) :
    getWord expected k type (c.stored type c') = getWord expected k type c := by
  by_cases h : type ∈ expected
  · rw [getWord, getWord, stored_setWidth (hexpected type h)]
  · rw [getWord, getWord, verifyCellType_of_not_mem h]
    rfl

theorem getWide_iff {t : StructType} : getWide [t] type d = getWide [t] type c ↔ (type = t → d.integer = c.integer) := by
  by_cases h : type = t
  · rw [getWide, getWide, verifyCellType_of_mem (List.mem_singleton.mpr h)]
    exact ⟨fun heq _ => Except.ok.inj heq, fun heq => congrArg Except.ok (heq h)⟩
  · rw [getWide, getWide, verifyCellType_of_not_mem (mt List.mem_singleton.mp h)]
    exact iff_of_true rfl fun h' => absurd h' h

theorem getString_stored : getString type (c.stored type c') = getString type c := by
  by_cases h : type ∈ [.p8string, .p16string, .p32string]
  · have hstring : (c.stored type c').string = c.string := by
      simp only [List.mem_cons, List.not_mem_nil, or_false] at h
      rcases h with rfl | rfl | rfl <;> rfl
    rw [getString, getString, hstring]
  · rw [getString, getString, verifyCellType_of_not_mem h]
    rfl

/-- The number of a wide type is in the cell as it was. -/
def WideFits (type : StructType) (x : BitVec 512) : Prop :=
  (type = .int128 → lowSigned 16 x = x) ∧ (type = .uint128 → low 16 x = x) ∧
    (type = .int256 → lowSigned 32 x = x) ∧ (type = .uint256 → low 32 x = x)

theorem low_all (x : BitVec 512) : low 64 x = x := by
  rw [low]
  exact (BitVec.setWidth_eq _).trans (BitVec.setWidth_eq x)

/-- The getters return what was set where a wide number fits its type. -/
theorem getters_stored_iff : (c.stored type c').getters type = c.getters type ↔ WideFits type c.integer := by
  constructor
  · intro h
    have h128 := getWide_iff.mp (congrArg CellGetters.int128 h)
    have hu128 := getWide_iff.mp (congrArg CellGetters.uint128 h)
    have h256 := getWide_iff.mp (congrArg CellGetters.int256 h)
    have hu256 := getWide_iff.mp (congrArg CellGetters.uint256 h)
    refine ⟨fun ht => ?_, fun ht => ?_, fun ht => ?_, fun ht => ?_⟩
    · subst ht
      exact h128 rfl
    · subst ht
      exact hu128 rfl
    · subst ht
      exact h256 rfl
    · subst ht
      exact hu256 rfl
  · rintro ⟨h128, hu128, h256, hu256⟩
    have hsize : type = .int512 ∨ type = .uint512 → (c.stored type c').integer = c.integer := by
      rintro (rfl | rfl) <;> exact low_all _
    refine CellGetters.ext (getWord_stored ?_) (getWord_stored ?_) (getWord_stored ?_) (getWord_stored ?_) (getWord_stored ?_)
      (getWord_stored ?_) (getWord_stored ?_) (getWord_stored ?_) (getWord_stored ?_) (getWide_iff.mpr ?_) (getWide_iff.mpr ?_)
      (getWide_iff.mpr ?_) (getWide_iff.mpr ?_) (getWide_iff.mpr fun h => hsize (.inl h)) (getWide_iff.mpr fun h => hsize (.inr h))
      (getWord_stored ?_) (getWord_stored ?_) (getWord_stored ?_) (getWord_stored ?_) getString_stored
    case refine_10 => exact fun ht => by subst ht; exact h128 rfl
    case refine_11 => exact fun ht => by subst ht; exact hu128 rfl
    case refine_12 => exact fun ht => by subst ht; exact h256 rfl
    case refine_13 => exact fun ht => by subst ht; exact hu256 rfl
    all_goals
      simp only [List.mem_cons, List.not_mem_nil, or_false, forall_eq_or_imp, forall_eq, StructType.shape, true_or, or_true, and_self]

theorem verifyCellType_ok {α : Type} {x y : α} (h : (do verifyCellType type expected; pure x : Except CellError α) = .ok y) :
    type ∈ expected ∧ x = y := by
  by_cases hmem : type ∈ expected
  · rw [verifyCellType_of_mem hmem] at h
    exact ⟨hmem, Except.ok.inj h⟩
  · rw [verifyCellType_of_not_mem hmem] at h
    cases h

theorem wideFits_of_not_mem (h : type ∉ [.int128, .uint128, .int256, .uint256]) (x : BitVec 512) : WideFits type x := by
  simp only [List.mem_cons, List.not_mem_nil, or_false, not_or] at h
  exact ⟨fun ht => absurd ht h.1, fun ht => absurd ht h.2.1, fun ht => absurd ht h.2.2.1, fun ht => absurd ht h.2.2.2⟩

/-- A setter of up to 64 bits is not one of a wide type. -/
theorem wideFits_of_mem (h : type ∈ expected) (hexpected : ∀ t ∈ expected, t ∉ [StructType.int128, .uint128, .int256, .uint256])
    (x : BitVec 512) : WideFits type x :=
  wideFits_of_not_mem (hexpected type h) x

/-- The number that a setter leaves in the cell fits where the one that it was given does. -/
theorem wideFits_iff (h : setter.run type c' = .ok c) : WideFits type c.integer ↔ setter.Fits := by
  cases setter
  case int128 value =>
    obtain ⟨hmem, rfl⟩ := verifyCellType_ok h
    obtain rfl := List.mem_singleton.mp hmem
    exact ⟨fun hfits => hfits.1 rfl, fun hfits => ⟨fun _ => hfits, fun h => (by cases h), fun h => (by cases h), fun h => (by cases h)⟩⟩
  case uint128 value =>
    obtain ⟨hmem, rfl⟩ := verifyCellType_ok h
    obtain rfl := List.mem_singleton.mp hmem
    exact ⟨fun hfits => hfits.2.1 rfl, fun hfits => ⟨fun h => (by cases h), fun _ => hfits, fun h => (by cases h), fun h => (by cases h)⟩⟩
  case int256 value =>
    obtain ⟨hmem, rfl⟩ := verifyCellType_ok h
    obtain rfl := List.mem_singleton.mp hmem
    exact ⟨fun hfits => hfits.2.2.1 rfl, fun hfits => ⟨fun h => (by cases h), fun h => (by cases h), fun _ => hfits, fun h => (by cases h)⟩⟩
  case uint256 value =>
    obtain ⟨hmem, rfl⟩ := verifyCellType_ok h
    obtain rfl := List.mem_singleton.mp hmem
    exact ⟨fun hfits => hfits.2.2.2 rfl, fun hfits => ⟨fun h => (by cases h), fun h => (by cases h), fun h => (by cases h), fun _ => hfits⟩⟩
  all_goals
    obtain ⟨hmem, rfl⟩ := verifyCellType_ok h
    exact iff_of_true (wideFits_of_mem hmem (by decide) _) trivial

theorem reads_unique {α : Type} {r : Reader α} {a a' : α} {b : Bytes} (h : Reads r a b) (h' : Reads r a' b) : a = a' :=
  (Prod.mk.inj (Option.some.inj ((h []).symm.trans (h' [])))).1

/-- A value that was set is read back exactly where it fits its type. -/
theorem cellRoundTrips_iff (h : setter.run type c' = .ok c) (hfloat : type.isFloat = false) (d : RowCell) :
    RoundTrips type c d ↔ setter.Fits := by
  rw [← wideFits_iff h]
  cases hb : c.valueToBinary type with
  | none =>
    refine iff_of_true (fun b hb' => by rw [hb] at hb'; cases hb') (wideFits_of_not_mem (fun hmem => ?_) _)
    simp only [List.mem_cons, List.not_mem_nil, or_false] at hmem
    rcases hmem with rfl | rfl | rfl | rfl <;> cases hb
  | some b =>
    have hread := valueFromBinary_reads hb hfloat d
    constructor
    · intro htrip
      obtain ⟨d', hread', hgetters⟩ := htrip b hb
      rw [reads_unique hread' hread] at hgetters
      exact getters_stored_iff.mp hgetters
    · intro hfits b' hb'
      obtain rfl := Option.some.inj (hb.symm.trans hb')
      exact ⟨_, hread, getters_stored_iff.mpr hfits⟩

/-- A cell with the number 2^128. -/
theorem cellRoundTrips_iff_wide : RoundTrips .uint128 { integer := BitVec.ofNat 512 (2 ^ 128) } {} ↔
    (CellSetter.uint128 (BitVec.ofNat 512 (2 ^ 128))).Fits :=
  @cellRoundTrips_iff _ _ {} _ rfl rfl {}

/-- It is read back as zero. -/
theorem not_cellRoundTrips : ¬∀ (type : StructType) (setter : CellSetter) (c c' d : RowCell), type.isFloat = false →
    setter.run type c' = .ok c → RoundTrips type c d := by
  intro hall
  have htrip := hall .uint128 (.uint128 (BitVec.ofNat 512 (2 ^ 128))) { integer := BitVec.ofNat 512 (2 ^ 128) } {} {} rfl rfl
  obtain ⟨d, hread, hgetters⟩ := htrip _ rfl
  rw [reads_unique hread (valueFromBinary_reads rfl rfl {}), getters_stored_iff] at hgetters
  have hne : low 16 (BitVec.ofNat 512 (2 ^ 128)) ≠ BitVec.ofNat 512 (2 ^ 128) := by decide +kernel
  exact hne (hgetters.2.1 rfl)

end RowCell

end

end Snapwebsites.Snapdatabase
