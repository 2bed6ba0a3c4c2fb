import Snapwebsites.Loadavg.LoadavgFile
import Snapwebsites.Snapdatabase.BufferErase
import Snapwebsites.Snapdatabase.Row

/-! # Structures

`structure`: a description, the fields that are found where it is parsed, and the buffer that they are in. The fields of a structure and
of all those below it are in one list, in the order of the description, each with the way to the structure that it is a field of. A field
is not in the list when its structure has another one of the same name behind it. Offsets and sizes are numbers here, as they stay far
below 2^64. `get_current_size()` is the one of a
structure whose fields have names of their own, so that the chain of its fields has no gap. -/

namespace Snapwebsites.Snapdatabase.Data

open Loadavg (littleEndian ofLittleEndian)

inductive StructureError
  | fieldNotFound | typeMismatch | invalidSize | stringNotTerminated | outOfRange | logicError
  deriving DecidableEq

/-! ### Types -/

/-- What the types have in common: a size, a number of bytes or of items in front, or nothing to parse. -/
inductive Shape
  | fixed (size : Nat)
  | counted (fieldSize : Nat)
  | substructure
  | array (fieldSize : Nat)
  | none
  deriving DecidableEq

/-- The sizes of `g_struct_type_sizes`. -/
def shape : StructType → Shape
  | .void => .fixed 0
  | .bits8 | .int8 | .uint8 => .fixed 1
  | .bits16 | .int16 | .uint16 => .fixed 2
  | .bits32 | .int32 | .uint32 | .float32 | .version => .fixed 4
  | .bits64 | .int64 | .uint64 | .float64 | .reference | .oid | .time | .mstime | .ustime => .fixed 8
  | .bits128 | .int128 | .uint128 | .float128 => .fixed 16
  | .bits256 | .int256 | .uint256 => .fixed 32
  | .bits512 | .int512 | .uint512 => .fixed 64
  | .p8string | .buffer8 => .counted 1
  | .p16string | .buffer16 => .counted 2
  | .p32string | .buffer32 => .counted 4
  | .typeStructure => .substructure
  | .array8 => .array 1
  | .array16 => .array 2
  | .array32 => .array 4
  | .typeEnd | .renamed => .none

/-- `type_field_size()`. -/
def typeFieldSize (t : StructType) : Nat :=
  match shape t with
  | .counted n => n
  | .array n => n
  | _ => 0

def isString : StructType → Bool
  | .p8string | .p16string | .p32string => true
  | _ => false

def isArray (t : StructType) : Bool :=
  match shape t with
  | .array _ => true
  | _ => false

def isBits : StructType → Bool
  | .bits8 | .bits16 | .bits32 | .bits64 | .bits128 | .bits256 | .bits512 => true
  | _ => false

/-! ### Descriptions and fields -/

/-- A `struct_description_t` and those behind it; `null` is the pointer that a field without sub-fields has. -/
inductive Description
  | null
  | typeEnd
  | field (name : Bytes) (type : StructType) (sub : Description) (rest : Description)
  deriving DecidableEq

/-- The way from the root to a structure: a field and the index of an item, for each structure on it. -/
abbrev Home := List (Bytes × Nat)

/-- A `field_t`; `items` is the number of its sub-structures. -/
structure Field where
  description : Description
  home : Home
  name : Bytes
  type : StructType
  size : Nat
  offset : Nat
  items : Nat
  deriving DecidableEq

/-- The number of bytes of a field, without what is below it. -/
def Field.width (f : Field) : Nat :=
  match shape f.type with
  | .fixed _ => f.size
  | .counted n => n + f.size
  | .array n => n
  | _ => 0

def Description.sub : Description → Description
  | .field _ _ sub _ => sub
  | _ => .null

def Description.rest : Description → Description
  | .field _ _ _ rest => rest
  | d => d

/-- The name that a field has in `f_fields_by_name`. -/
def fieldName (name : Bytes) (type : StructType) : Bytes := if isBits type then name.takeWhile (· ≠ 0x3D) else name

def Description.mentions (name : Bytes) : Description → Prop
  | .field n t _ rest => fieldName n t = name ∨ rest.mentions name
  | _ => False

instance Description.decidableMentions (name : Bytes) : ∀ d : Description, Decidable (d.mentions name)
  | .null => inferInstanceAs (Decidable False)
  | .typeEnd => inferInstanceAs (Decidable False)
  | .field _ _ _ rest => @instDecidableOr _ _ _ (decidableMentions name rest)

/-! ### Parsing -/

/-- What is asked of a buffer: its size, and bytes of it, with the size in front. -/
structure Access where
  size : Nat
  pread : Nat → Nat → Option Bytes

def VirtualBuffer.access (v : VirtualBuffer) (m : Memory) : Option Access :=
  if v.buffers = [] then none else some { size := v.totalSize, pread := fun size offset => v.pread m size offset true }

/-- The number in front of a field; zero when there is no buffer. -/
def readSize (a : Option Access) (fieldSize offset : Nat) : Except StructureError Nat :=
  match a with
  | none => .ok 0
  | some a =>
    match a.pread fieldSize offset with
    | some b => .ok (ofLittleEndian b)
    | none => .error .invalidSize

/-- The size of a field, and the offset behind its own bytes. -/
def fieldHeader (a : Option Access) (type : StructType) (offset : Nat) : Except StructureError (Nat × Nat) :=
  match shape type with
  | .fixed n => .ok (n, offset + n)
  | .counted n => (readSize a n offset).map fun size => (size, offset + size + n)
  | .substructure => .ok (1, offset)
  | .array n => (readSize a n offset).map fun size => (size, offset + n)
  | .none => .error .invalidSize

def hasSubDefs (type : StructType) : Bool :=
  match shape type with
  | .substructure => true
  | .array _ => true
  | _ => false

/-- The items of a field, from the one with the index `index` on. -/
def parseItems (parse : Nat → Nat → Except StructureError (List Field × Nat)) : Nat → Nat → Nat → Except StructureError (List Field × Nat)
  | 0, _, offset => .ok ([], offset)
  | n + 1, index, offset =>
    match parse index offset with
    | .error e => .error e
    | .ok (l, offset) => (parseItems parse n (index + 1) offset).map fun r => (l ++ r.1, r.2)

/-- One field and what is below it, where `parse` is for its sub-structures. -/
def parseField (a : Option Access) (parse : Nat → Nat → Except StructureError (List Field × Nat)) (name : Bytes) (type : StructType)
    (sub rest : Description) (home : Home) (offset : Nat) : Except StructureError (Field × List Field × Nat) :=
  match fieldHeader a type offset with
  | .error e => .error e
  | .ok (size, next) =>
    let f : Field := { description := .field name type sub rest, home, name := fieldName name type, type, size, offset,
                       items := if sub = .null then 0 else size }
    if a.any fun a => next > a.size then .error .invalidSize
    else if sub ≠ .null then
      if hasSubDefs type then (parseItems parse size 0 next).map fun r => (f, r.1, r.2) else .error .logicError
    else if hasSubDefs type then .error .logicError
    else .ok (f, [], next)

/-- `parse_descriptions()`: the fields, and the offset behind them. -/
def parseDescriptions (a : Option Access) : Description → Home → Nat → Except StructureError (List Field × Nat)
  | .null, _, _ => .error .logicError
  | .typeEnd, _, offset => .ok ([], offset)
  | .field name type sub rest, home, offset =>
    match parseField a (fun index offset => parseDescriptions a sub (home ++ [(fieldName name type, index)]) offset) name type sub rest
        home offset with
    | .error e => .error e
    | .ok (f, items, offset) => (parseDescriptions a rest home offset).map fun r =>
        (if rest.mentions f.name then r.1 else f :: items ++ r.1, r.2)

/-! ### Structures -/

/-- The root of a tree of structures. -/
structure Structure where
  description : Description
  startOffset : Nat := 0
  fields : List Field
  buffer : VirtualBuffer
  deriving DecidableEq

/-- `find_field()` of one of the structures. -/
def findField (l : List Field) (home : Home) (name : Bytes) : Except StructureError (Nat × Field) :=
  match l.findIdx? fun f => f.home = home && f.name = name with
  | some i => (l[i]?).elim (.error .fieldNotFound) fun f => .ok (i, f)
  | none => .error .fieldNotFound

/-- The loop of `get_field()`. -/
def getFieldFrom (l : List Field) : Home → List Bytes → Except StructureError (Nat × Field)
  | _, [] => .error .fieldNotFound
  | home, [name] => findField l home name
  | home, name :: names =>
    match findField l home name with
    | .error e => .error e
    | .ok (_, f) =>
      if f.type ≠ .typeStructure then .error .typeMismatch
      else if f.items ≠ 1 then .error .invalidSize
      else getFieldFrom l (home ++ [(name, 0)]) names

/-- `get_field()` of the structure at `home`: the field and its place in the list. -/
def getField (l : List Field) (home : Home) (name : Bytes) : Except StructureError (Nat × Field) :=
  if name = [] then .error .logicError else getFieldFrom l home ((name.takeWhile (· ≠ 0)).splitOn 0x2E)

/-- `next()` of the field with the index `i`: nothing when the field behind is not in the list. -/
def nextField (l : List Field) (i : Nat) (f : Field) : Option Field :=
  match f.description.rest with
  | .field name type _ rest =>
    if rest.mentions (fieldName name type) then none else (l.drop (i + 1)).find? fun g => g.home = f.home
  | _ => none

/-- `get_current_size()` of the structure at `home`. -/
def getCurrentSize (l : List Field) (home : Home) : Nat := ((l.filter fun f => home.isPrefixOf f.home).map Field.width).sum

/-- The fields of the sub-structures of `f` are the ones behind it that are farther from the root. -/
def Field.below (f g : Field) : Bool := decide (f.home.length < g.home.length)

/-- `adjust_offsets()`: the difference is one of 64 bits. -/
def adjustOffsets (cutoff diff : Nat) (l : List Field) : List Field :=
  l.map fun f => if f.offset > cutoff then { f with offset := f.offset + diff } else f

namespace Structure

/-- What a function of the buffer that throws, or is not defined, leads to. -/
def need {α : Type} : Option α → Except StructureError α
  | some x => .ok x
  | none => .error .invalidSize

def getString (s : Structure) (m : Memory) (home : Home) (name : Bytes) : Except StructureError Bytes := do
  let (_, f) ← getField s.fields home name
  if !isString f.type then throw .stringNotTerminated
  let fieldSize := typeFieldSize f.type
  let length ← need (s.buffer.pread m fieldSize f.offset true)
  if ofLittleEndian length ≠ f.size then throw .logicError
  need (s.buffer.pread m f.size (f.offset + fieldSize) true)

/-- The bytes of a string that had another length: the size, the string, and its end inserted or erased. -/
def replaceString (v : VirtualBuffer) (m : Memory) (value : Bytes) (length fieldSize offset : Nat) : Option (VirtualBuffer × Memory) := do
  let size := value.length
  if size = length then v.pwrite m value (offset + fieldSize) false
  else if size > length then
    let (v, m) ← v.pwrite m (littleEndian fieldSize size) offset false
    let (v, m) ← v.pwrite m (value.take length) (offset + fieldSize) false
    v.pinsert m (value.drop length) (offset + fieldSize + length)
  else
    let (v, m) ← v.pwrite m (littleEndian fieldSize size) offset false
    let (v, m) ← v.pwrite m value (offset + fieldSize) false
    let (v, _) ← v.perase (length - size) (offset + fieldSize + size)
    some (v, m)

/-- `set_string()` of the structure at `home`; the string has less than 2^32 bytes. The difference of the sizes is one of 32 bits
without a sign. -/
def setString (s : Structure) (m : Memory) (home : Home) (name value : Bytes) : Except StructureError (Structure × Memory) := do
  let (i, f) ← getField s.fields home name
  if !isString f.type then throw .stringNotTerminated
  let fieldSize := typeFieldSize f.type
  let length ← need (s.buffer.pread m fieldSize f.offset true)
  if ofLittleEndian length ≠ f.size then throw .invalidSize
  if value.length ≥ 256 ^ fieldSize then throw .invalidSize
  let (buffer, m) ← need (replaceString s.buffer m value f.size fieldSize f.offset)
  let diff := (value.length + 0x100000000 - f.size) % 0x100000000
  let fields := adjustOffsets f.offset diff (s.fields.set i { f with size := value.length })
  return ({ s with fields, buffer }, m)

/-- Where `new_array_item()` of the structure at `home` puts the bytes of the item. -/
def itemOffset (l : List Field) (home : Home) (i : Nat) (f : Field) : Nat :=
  match nextField l i f with
  | some n => n.offset
  | none => getCurrentSize l home

/-- `f_sub_structures.push_back()`: the fields of an item behind those of the other ones. -/
def pushBack (l : List Field) (i : Nat) (f : Field) (item : List Field) : List Field :=
  l.take i ++ { f with items := f.items + 1 } :: (l.drop (i + 1)).takeWhile f.below ++ item ++ (l.drop (i + 1)).dropWhile f.below

/-- `new_array_item()` of the structure at `home`. -/
def newArrayItem (s : Structure) (m : Memory) (home : Home) (name : Bytes) : Except StructureError (Structure × Memory) := do
  let (i, f) ← getField s.fields home name
  if !isArray f.type then throw .typeMismatch
  let fieldSize := typeFieldSize f.type
  let count ← need (s.buffer.pread m fieldSize f.offset true)
  let size := ofLittleEndian count + 1
  if size ≥ 256 ^ fieldSize then throw .outOfRange
  let offset := itemOffset s.fields home i f
  let item := f.home ++ [(f.name, f.items)]
  let (new, newOffset) ← parseDescriptions none f.description.sub item offset
  let add := getCurrentSize new item
  let (buffer, m) ← need (s.buffer.pinsert m (List.replicate add 0) offset)
  let (buffer, m) ← need (buffer.pwrite m (littleEndian fieldSize size) f.offset false)
  let fields := pushBack (adjustOffsets f.offset (newOffset - offset) s.fields) i f new
  return ({ s with fields, buffer }, m)

end Structure
end Snapwebsites.Snapdatabase.Data
