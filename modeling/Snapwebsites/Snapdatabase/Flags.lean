import Mathlib.Algebra.Group.Int.Defs
import Mathlib.Data.List.TakeWhile
import Snapwebsites.Snapdatabase.SetString

/-! # Flags of bit fields

The name of a bit field says what its bits are: `<name>=<flag>:<size>/<flag>:<size>/...`. `get_bits()` and `set_bits()` look for a flag
by the path of its field, a period and its name. The path that is looked up keeps the period, so that the field would have to be a
structure: no flag is found. `convert_string()`, which reads the size of a flag, is a parameter. -/

namespace Snapwebsites.Snapdatabase.Data

open Loadavg (littleEndian ofLittleEndian)

/-- The exceptions, with those of a structure. -/
inductive FlagError
  | ofStructure (e : StructureError)
  | invalidParameter
  | invalidNumber
  deriving DecidableEq

/-- `flag_definition`, with what its constructor checks. -/
structure FlagDefinition where
  name : Bytes
  pos : Nat
  size : Nat
  size_pos : 0 < size
  size_lt : size < 64
  fits : pos + size ≤ 64

namespace FlagDefinition

/-- The constructor. -/
def make (name : Bytes) (pos size : Nat) : Except FlagError FlagDefinition :=
  if hpos : size = 0 then .error .invalidParameter
  else if hlt : size ≥ 64 then .error .invalidParameter
  else if hfits : pos + size > 64 then .error .invalidParameter
  else .ok ⟨name, pos, size, Nat.pos_of_ne_zero hpos, Nat.lt_of_not_le hlt, Nat.le_of_not_lt hfits⟩

/-- `((1 << size) - 1) << pos` of an `int`, with its sign; nothing where the shifts or the difference are not defined. -/
def mask (d : FlagDefinition) : Option (BitVec 64) :=
  if d.size ≤ 30 ∧ d.pos + d.size ≤ 32 then some ((BitVec.ofNat 32 ((2 ^ d.size - 1) * 2 ^ d.pos)).signExtend 64) else none

end FlagDefinition

/-! ### The list of flags -/

def isFlagSeparator (c : UInt8) : Bool := c = 0x3A || c = 0x2F

/-- The size behind a colon, and the list behind it; nothing at the end of the list. -/
def flagSize (convert : Bytes → Option Int) (bitField bitPos : Nat) (list : Bytes) : Except FlagError (Nat × Option Bytes) :=
  match list.dropWhile (!isFlagSeparator ·) with
  | 0x3A :: _ => .error (.ofStructure .invalidSize)
  | rest =>
    match convert (list.takeWhile (!isFlagSeparator ·)) with
    | none => .error (.ofStructure .invalidSize)
    | some size =>
      if ((bitPos + size) % 2 ^ 64).toNat > bitField then .error (.ofStructure .invalidSize)
      else .ok ((size % 2 ^ 64).toNat, rest.tail?)

/-- The loop over the flags. -/
def parseFlags (convert : Bytes → Option Int) (bitField : Nat) : Nat → Nat → Bytes → Except FlagError (List FlagDefinition)
  | 0, _, _ => .ok []
  | fuel + 1, bitPos, list =>
    if list = [] then .ok []
    else do
      let name := list.takeWhile (!isFlagSeparator ·)
      let (size, next) ← match list.dropWhile (!isFlagSeparator ·) with
        | 0x3A :: rest => flagSize convert bitField bitPos rest
        | rest => .ok (1, rest.tail?)
      let bits ← FlagDefinition.make name bitPos size
      let others ← match next with
        | none => .ok []
        | some rest => parseFlags convert bitField fuel (bitPos + size) rest
      pure (bits :: others)

/-- The bits of a field that flags can use. -/
def bitField : StructType → Nat
  | .bits8 => 8
  | .bits16 => 16
  | .bits32 => 32
  | .bits64 | .bits128 | .bits256 | .bits512 => 64
  | _ => 0

/-- `f_description->f_field_name`. -/
def Field.descriptionName (f : Field) : Bytes :=
  match f.description with
  | .field name _ _ _ => name
  | _ => []

/-- `f_flag_definitions`, in the order of the list. -/
def Field.flags (convert : Bytes → Option Int) (f : Field) : Except FlagError (List FlagDefinition) :=
  match f.descriptionName.dropWhile (· ≠ 0x3D) with
  | [] => .ok []
  | _ :: list => if isBits f.type then parseFlags convert (bitField f.type) (list.length + 1) 0 list else .ok []

/-- `find_flag_definition()`: of two flags with one name, the map has the second. -/
def Field.findFlagDefinition (convert : Bytes → Option Int) (f : Field) (name : Bytes) : Except FlagError FlagDefinition := do
  let flags ← f.flags convert
  match flags.reverse.find? fun d => d.name = name.takeWhile (· ≠ 0) with
  | some d => .ok d
  | none => .error (.ofStructure .fieldNotFound)

/-! ### Access -/

/-- What throws in a structure. -/
def ofStructure {α : Type} (x : Except StructureError α) : Except FlagError α := x.mapError .ofStructure

/-- What is in front of a flag, with the period. -/
def flagField (flagName : Bytes) : Bytes := (flagName.reverse.dropWhile (· ≠ 0x2E)).reverse

/-- `get_flag()` of the structure at `home`. -/
def getFlag (convert : Bytes → Option Int) (l : List Field) (home : Home) (flagName : Bytes) : Except FlagError (Field × FlagDefinition) :=
  if flagField flagName = [] then .error (.ofStructure .fieldNotFound)
  else do
    let (_, f) ← ofStructure (getField l home (flagField flagName))
    if isBits f.type then do
      let d ← f.findFlagDefinition convert (flagName.drop (flagField flagName).length)
      pure (f, d)
    else .error (.ofStructure .fieldNotFound)

/-- `verify_size()`. -/
def verifySize (type : StructType) (size : Nat) : Except StructureError Unit :=
  if shape type = .fixed size then .ok () else .error .outOfRange

/-- The bytes of the types that `get_uinteger()` and `set_uinteger()` are for. -/
def uintegerBytes : StructType → Option Nat
  | .bits8 | .uint8 => some 1
  | .bits16 | .uint16 => some 2
  | .bits32 | .uint32 | .version => some 4
  | .bits64 | .uint64 | .reference | .oid => some 8
  | _ => none

/-- The bytes of the types that `get_bits()` and `set_bits()` are for. -/
def bitsBytes (type : StructType) : Option Nat := if isBits type then uintegerBytes type else none

namespace Structure

/-- The number on `n` bytes at a place. -/
def readBits (s : Structure) (m : Memory) (n offset : Nat) : Except StructureError (BitVec 64) :=
  (need (s.buffer.pread m n offset true)).map fun b => BitVec.ofNat 64 (ofLittleEndian b)

/-- `get_uinteger()` of the structure at `home`. -/
def getUinteger (s : Structure) (m : Memory) (home : Home) (name : Bytes) : Except StructureError (BitVec 64) := do
  let (_, f) ← getField s.fields home name
  verifySize f.type f.size
  match uintegerBytes f.type with
  | some n => s.readBits m n f.offset
  | none => throw .typeMismatch

/-- `set_uinteger()` of the structure at `home`. -/
def setUinteger (s : Structure) (m : Memory) (home : Home) (name : Bytes) (value : BitVec 64) : Except StructureError (Structure × Memory) := do
  let (_, f) ← getField s.fields home name
  verifySize f.type f.size
  match uintegerBytes f.type with
  | some n => do
    let (buffer, m) ← need (s.buffer.pwrite m (littleEndian n value.toNat) f.offset false)
    pure ({ s with buffer }, m)
  | none => throw .typeMismatch

/-- `get_bits()` of the structure at `home`. -/
def getBits (convert : Bytes → Option Int) (s : Structure) (m : Memory) (home : Home) (flagName : Bytes) :
    Except FlagError (BitVec 64) := do
  let (f, flag) ← getFlag convert s.fields home flagName
  ofStructure (verifySize f.type f.size)
  match bitsBytes f.type with
  | some n => do
    let value ← ofStructure (s.readBits m n f.offset)
    let mask ← ofStructure (need flag.mask)
    pure ((value &&& mask) >>> flag.pos)
  | none => throw (.ofStructure .typeMismatch)

/-- What `set_bits()` of the structure at `home` writes, as the last thing that it does. The number is read and written by the name in
the description of the field. -/
def writeBits (convert : Bytes → Option Int) (s : Structure) (m : Memory) (home : Home) (flagName : Bytes) (value : BitVec 64) :
    Except FlagError (Structure × Memory) := do
  let (f, flag) ← getFlag convert s.fields home flagName
  ofStructure (verifySize f.type f.size)
  if bitsBytes f.type = none then throw (.ofStructure .typeMismatch)
  let mask ← ofStructure (need flag.mask)
  if value &&& (mask >>> flag.pos) ≠ value then throw .invalidNumber
  let v ← ofStructure (s.getUinteger m home f.descriptionName)
  ofStructure (s.setUinteger m home f.descriptionName (v &&& ~~~mask ||| value <<< flag.pos))

/-- `set_bits()`. -/
def setBits (convert : Bytes → Option Int) (home : Home) (flagName : Bytes) (value : BitVec 64) (st : Structure × Memory) :
    Except FlagError Unit × Structure × Memory :=
  match writeBits convert st.1 st.2 home flagName value with
  | .ok st => (.ok (), st)
  | .error e => (.error e, st)

/-- What is said of a flag at a path and a value: a value that fits is read back and the other flags of the field keep theirs, and one
that does not fit is refused and changes nothing. -/
def FramesBits (convert : Bytes → Option Int) (s : Structure) (m : Memory) (home : Home) (path : Bytes) (f : Field) (flag : FlagDefinition)
    (value : BitVec 64) : Prop :=
  (value.toNat < 2 ^ flag.size → ∃ s' m', setBits convert home (path ++ 0x2E :: flag.name) value (s, m) = (.ok (), s', m') ∧
    s'.getBits convert m' home (path ++ 0x2E :: flag.name) = .ok value ∧
    ∀ flags, f.flags convert = .ok flags → ∀ other ∈ flags, other.name ≠ flag.name →
      s'.getBits convert m' home (path ++ 0x2E :: other.name) = s.getBits convert m home (path ++ 0x2E :: other.name)) ∧
  (2 ^ flag.size ≤ value.toNat → ∃ e, setBits convert home (path ++ 0x2E :: flag.name) value (s, m) = (.error e, s, m))

end Structure

/-! ### No flag is found -/

section
variable {convert : Bytes → Option Int} {l : List Field} {home : Home} {path name : Bytes} {names more : List Bytes} {i : Nat} {f : Field}

theorem flagField_append (path name : Bytes) : ∃ front, flagField (path ++ 0x2E :: name) = path ++ 0x2E :: front := by
  refine ⟨(name.reverse.dropWhile (· ≠ 0x2E)).reverse, ?_⟩
  rw [flagField, List.reverse_append, List.reverse_cons, List.append_assoc, List.dropWhile_append]
  split
  · rename_i hempty
    rw [List.isEmpty_iff.mp hempty]
    simp
  · simp

/-- A field that is no structure has nothing below it. -/
theorem getFieldFrom_below (h : getFieldFrom l home names = .ok (i, f)) (hne : more ≠ []) (ht : f.type ≠ .typeStructure) :
    getFieldFrom l home (names ++ more) = .error .typeMismatch := by
  induction names generalizing home with
  | nil => cases h
  | cons name names ih =>
    cases names with
    | nil =>
      obtain ⟨next, more, rfl⟩ := List.exists_cons_of_ne_nil hne
      have hfind : findField l home name = .ok (i, f) := h
      rw [List.singleton_append, getFieldFrom, hfind]
      · exact if_pos ht
      · exact List.cons_ne_nil _ _
    | cons next names =>
      simp only [getFieldFrom, List.cons_append] at h ih ⊢
      cases hfind : findField l home name with
      | error => rw [hfind] at h; cases h
      | ok r =>
        rw [hfind] at h
        dsimp only at h ⊢
        split at h
        · cases h
        · rename_i hstructure
          split at h
          · cases h
          · rename_i hone
            rw [if_neg hstructure, if_neg hone]
            exact ih h

theorem getField_period (h : getField l home path = .ok (i, f)) (hnul : 0 ∉ path) (ht : f.type ≠ .typeStructure) (front : Bytes) :
    getField l home (path ++ 0x2E :: front) = .error .typeMismatch := by
  have hsome : ∀ c ∈ path, decide (c ≠ 0) = true := fun c hc => decide_eq_true (by rintro rfl; exact hnul hc)
  have hkept : path.takeWhile (· ≠ 0) = path := List.takeWhile_eq_self_iff.mpr hsome
  have hsplit : ((path ++ 0x2E :: front).takeWhile (· ≠ 0)).splitOn 0x2E =
      path.splitOn 0x2E ++ (front.takeWhile (· ≠ 0)).splitOn 0x2E := by
    rw [List.takeWhile_append_of_pos hsome, List.takeWhile_cons_of_pos (by decide),
      List.splitOn_append_cons_self]
  unfold getField at h ⊢
  split at h
  · cases h
  · rw [if_neg (by simp), hsplit]
    rw [hkept] at h
    exact getFieldFrom_below h (List.splitOn_ne_nil _ _) ht

/-- A flag of a field is not found by its path. -/
theorem getFlag_eq (h : getField l home path = .ok (i, f)) (hnul : 0 ∉ path) (ht : f.type ≠ .typeStructure) (name : Bytes) :
    getFlag convert l home (path ++ 0x2E :: name) = .error (.ofStructure .typeMismatch) := by
  obtain ⟨front, hfront⟩ := flagField_append path name
  rw [getFlag, hfront, if_neg (by simp), getField_period h hnul ht front]
  rfl

namespace Structure

/-- No value is set, so that those that do not fit are all that is as it should be. -/
theorem framesBits_iff {s : Structure} {flag : FlagDefinition} (m : Memory) (h : getField s.fields home path = .ok (i, f)) (hnul : 0 ∉ path)
    (hbits : isBits f.type = true) (value : BitVec 64) : FramesBits convert s m home path f flag value ↔ 2 ^ flag.size ≤ value.toNat := by
  have hset : setBits convert home (path ++ 0x2E :: flag.name) value (s, m) = (.error (.ofStructure .typeMismatch), s, m) := by
    have hget := @getFlag_eq convert _ _ _ _ _ h hnul (fun heq => by rw [heq] at hbits; cases hbits) flag.name
    rw [setBits, writeBits, hget]
    rfl
  constructor
  · rintro ⟨hfits, -⟩
    refine Nat.not_lt.mp fun hlt => ?_
    obtain ⟨s', m', hrun, -⟩ := hfits hlt
    rw [hset] at hrun
    cases hrun
  · exact fun hlarge => ⟨fun hlt => absurd hlt (Nat.not_lt.mpr hlarge), fun _ => ⟨_, hset⟩⟩

/-- A field of eight bits, of which one has a name. -/
def flagged : Structure where
  description := .field [0x66, 0x3D, 0x61] .bits8 .null .typeEnd
  fields := [made [0x66, 0x3D, 0x61] .bits8 .null .typeEnd [] 1 0]
  buffer := { buffers := [{ data := [0], capacity := 1, size := 1 }], totalSize := 1 }

theorem framesBits_iff_one : FramesBits (fun _ => none) flagged (fun _ => 0) [] [0x66] (made [0x66, 0x3D, 0x61] .bits8 .null .typeEnd [] 1 0)
    ⟨[0x61], 0, 1, by decide, by decide, by decide⟩ 1 ↔ 2 ^ 1 ≤ (1 : BitVec 64).toNat :=
  framesBits_iff (fun _ => 0) (show getField flagged.fields [] [0x66] = .ok (0, _) from rfl) (by decide) rfl 1

/-- The flag cannot be set to one. -/
theorem not_framesBits : ¬∀ (convert : Bytes → Option Int) (s : Structure) (m : Memory) (home : Home) (path : Bytes) (i : Nat) (f : Field)
    (n : Nat) (flags : List FlagDefinition) (flag : FlagDefinition) (value : BitVec 64), s.Parsed m → getField s.fields home path = .ok (i, f) →
      0 ∉ path → bitsBytes f.type = some n → f.flags convert = .ok flags → flag ∈ flags → flag.pos + flag.size ≤ 8 * n →
        FramesBits convert s m home path f flag value := by
  intro hall
  have hparsed : flagged.Parsed fun _ => 0 :=
    ⟨⟨fun b hb => by rw [List.mem_singleton.mp hb]; exact fun _ => Nat.le_refl _, rfl⟩, nofun, 1, rfl⟩
  have hframes := hall (fun _ => none) flagged (fun _ => 0) [] [0x66] 0 _ 1 _ _ 1 hparsed rfl (by decide) rfl rfl
    (List.mem_singleton.mpr rfl) (by decide)
  obtain ⟨s', m', hrun, -⟩ := hframes.1 (by decide)
  cases hrun

end Structure
end
end Snapwebsites.Snapdatabase.Data
