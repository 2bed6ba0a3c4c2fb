import Mathlib.Algebra.Group.Nat.Defs
import Mathlib.Data.Nat.Log
import Mathlib.Logic.Function.Basic
import Snapwebsites.Lib.Format
import Snapwebsites.Lib.Program

/-! # Tables of snapdatabase

A table file is a number of blocks of one page each, with the header as the block at 0. Rows have object
identifiers (OID). The indirect index, `INDR` blocks under `TIND` blocks, maps the OID of a row to the place of
its data; the primary index, a `PIDX` block with `EIDX` blocks, maps the murmur key of a row to its OID. This
file is `table_impl::row_insert()`, `get_indirect_reference()` and `read_primary()` with the blocks that they
work on. What is written to a block stays written when the function throws later. -/

namespace Snapwebsites.Snapdatabase

/-- `reference_t`: the offset of a byte of the file. -/
abbrev Reference := Nat

def nullFileAddr : Reference := 0

def missingFileAddr : Reference := 1

/-- A murmur key is 16 bytes. -/
structure MurmurKey where
  bytes : Bytes
  length_eq : bytes.length = 16
deriving DecidableEq

/-- An entry of an `EIDX` block. -/
structure Entry where
  complete : Bool
  oid : Nat
  key : Bytes
deriving DecidableEq

/-- The blocks of the two indexes. An array of references takes all the space of its block. -/
inductive Block
  | indirectIndex (refs : Nat → Reference)
  | topIndirectIndex (blockLevel : Nat) (refs : Nat → Reference)
  | primaryIndex (refs : Nat → Reference)
  | topIndex (size : Nat) (entries : List (Reference × Bytes))
  | entryIndex (size : Nat) (entries : List Entry)

/-- The header of the file and its blocks. -/
structure Table where
  pageSize : Nat
  firstFreeOid : Nat := 0
  lastOid : Nat := 1
  indirectIndex : Reference := nullFileAddr
  primaryIndexBlock : Reference := nullFileAddr
  primaryIndexReferenceZero : Reference := nullFileAddr
  /-- The number of blocks in use. -/
  used : Nat
  block : Reference → Option Block := fun _ => none

/-- A new table, of which `used` blocks (the header, the schema) are in use. -/
def Table.create (pageSize used : Nat) : Table := { pageSize, used := used + 1 }

/-- What inserts a row: its key, the references that the cursor found in the top indexes, and where the free
    space index puts its blob, with the number of blocks that it takes for that. -/
structure RowData where
  key : MurmurKey
  indexReferences : List (Reference × Nat) := []
  dataBlocks : Nat := 0
  blob : Reference

/-! ### Sizes -/

def roundUp (n m : Nat) : Nat := (n + m - 1) / m * m

/-- The structure of an `INDR` block: magic and version. -/
def indirectIndexSize : Nat := 4 + 4

/-- The structure of a `TIND` block: magic, version and level. -/
def topIndirectIndexSize : Nat := 4 + 4 + 1

/-- The structure of an `EIDX` block: magic, version, count, size, next and previous. -/
def entryIndexSize : Nat := 4 + 4 + 4 + 4 + 8 + 8

/-- `block_indirect_index::get_max_count()`. -/
def indirectMaxCount (pageSize : Nat) : Nat :=
  (pageSize - max (roundUp indirectIndexSize 8) (roundUp topIndirectIndexSize 8)) / 8

/-- `block_top_indirect_index::get_max_count()`. -/
def topIndirectMaxCount (pageSize : Nat) : Nat :=
  (pageSize - max (roundUp topIndirectIndexSize 8) (roundUp indirectIndexSize 8)) / 8

/-! ### Blocks of the indirect index -/

/-- `--id` on an `oid_t`. -/
def decrement (id : Nat) : Nat := (id + (2 ^ 64 - 1)) % 2 ^ 64

/-- The number of rows under each reference of a `TIND` block of a level. -/
def power (count : Nat) : Nat → Nat
  | 0 => count
  | 1 => count
  | l + 2 => power count (l + 1) * count % 2 ^ 64

/-- `block_top_indirect_index::get_position()`: the position in this block and the identifier in the next one. -/
def topPosition (count level id : Nat) : Nat × Nat :=
  (decrement id / power count level, decrement id % power count level + 1)

/-- `block_top_indirect_index::get_reference()`; nothing when it throws. -/
def topReference (count level : Nat) (refs : Nat → Reference) (id : Nat) (mustExist : Bool) : Option (Reference × Nat) :=
  let (position, id) := topPosition count level id
  if position ≥ count then
    if mustExist then none else some (missingFileAddr, id)
  else some (refs position, id)

/-- `block_indirect_index::get_reference()`; nothing when it throws. -/
def indirectReference (count : Nat) (refs : Nat → Reference) (id : Nat) (mustExist : Bool) : Option Reference :=
  if decrement id ≥ count then
    if mustExist then none else some missingFileAddr
  else some (refs (decrement id))

namespace Table

def setBlock (t : Table) (offset : Reference) (b : Block) : Table :=
  { t with block := Function.update t.block offset (some b) }

/-- The next block in use, zeroed but for its type. -/
def allocateNewBlock (b : Block) : Program Table Reference := do
  let t ← get
  let offset := t.pageSize * t.used
  set { t.setBlock offset b with used := t.used + 1 }
  pure offset

def getBlock (offset : Reference) : Program Table Block := do
  let t ← get
  match t.block offset with
  | some b => pure b
  | none => failure

def newIndirectIndex : Block := .indirectIndex fun _ => nullFileAddr

def newTopIndirectIndex : Block := .topIndirectIndex 0 fun _ => nullFileAddr

def setBlockLevel (offset : Reference) (level : Nat) : Program Table PUnit := do
  match ← getBlock offset with
  | .topIndirectIndex _ refs => modify fun t => t.setBlock offset (.topIndirectIndex level refs)
  | _ => failure

/-- `block_top_indirect_index::set_reference()`; it gives the identifier in the next block. -/
def topSetReference (offset : Reference) (id : Nat) (reference : Reference) : Program Table Nat := do
  let t ← get
  match ← getBlock offset with
  | .topIndirectIndex level refs =>
    let (position, id) := topPosition (topIndirectMaxCount t.pageSize) level id
    if position ≥ topIndirectMaxCount t.pageSize then failure
    set (t.setBlock offset (.topIndirectIndex level (Function.update refs position reference)))
    pure id
  | _ => failure

/-- `block_indirect_index::set_reference()`. -/
def indirectSetReference (offset : Reference) (id : Nat) (reference : Reference) : Program Table PUnit := do
  let t ← get
  match ← getBlock offset with
  | .indirectIndex refs =>
    if decrement id ≥ indirectMaxCount t.pageSize then failure
    set (t.setBlock offset (.indirectIndex (Function.update refs (decrement id) reference)))
  | _ => failure

/-! ### The indirect index -/

/-- The loop of `row_insert()` that puts a `TIND` block of each level in place, from `level` down to 1; the
    last one is the result. -/
def cascade : Nat → Reference → Nat → Reference → Program Table Reference
  | 0, _, _, topTind => pure topTind
  | level + 1, parentTind, positionOid, topTind => do
    setBlockLevel topTind (level + 1)
    let positionOid ← topSetReference parentTind positionOid topTind
    if level + 1 ≤ 1 then pure topTind
    else do
      let next ← allocateNewBlock newTopIndirectIndex
      cascade level topTind positionOid next

/-- A full `INDR` block at `offset` gets a `TIND` block over it and a sibling for the next row. -/
def splitIndirect (parent : Option (Reference × Nat)) (offset : Reference) (positionOid : Nat) :
    Program Table (Reference × Nat) := do
  let topTind ← allocateNewBlock newTopIndirectIndex
  let topTind ← (match parent with
    | none => do
      setBlockLevel topTind 1
      modify fun t => { t with indirectIndex := topTind }
      pure topTind
    | some (parentTind, parentOid) => do
      match ← getBlock parentTind with
      | .topIndirectIndex blockLevel _ =>
        if blockLevel ≤ 1 then failure else cascade (blockLevel - 1) parentTind parentOid topTind
      | _ => failure)
  let _ ← topSetReference topTind (positionOid - 1) offset
  let indr ← allocateNewBlock newIndirectIndex
  let positionOid ← topSetReference topTind positionOid indr
  pure (indr, positionOid)

/-- A `TIND` block at `offset` that has no reference for the next row gets one of the next level over it. -/
def growTop (parent : Option (Reference × Nat)) (offset : Reference) (level positionOid : Nat) :
    Program Table (Reference × Nat) := do
  if level ≥ 255 then failure
  let topTind ← allocateNewBlock newTopIndirectIndex
  setBlockLevel topTind (level + 1)
  match parent with
  | some (parentTind, parentOid) => discard (topSetReference parentTind parentOid offset)
  | none => modify fun t => { t with indirectIndex := topTind }
  let _ ← topSetReference topTind (positionOid - 1) offset
  let indr ← allocateNewBlock newIndirectIndex
  let positionOid ← topSetReference topTind positionOid indr
  pure (indr, positionOid)

/-- The search of `row_insert()` for the `INDR` block of an OID, from the block at `offset`; it gives that block
    and the position of the OID in it. The fuel is the number of blocks: a search that sees more of them is in
    a cycle. -/
def descend (mustExist : Bool) : Nat → Option (Reference × Nat) → Reference → Nat → Program Table (Reference × Nat)
  | 0, _, _, _ => failure
  | fuel + 1, parent, offset, positionOid => do
    let t ← get
    match ← getBlock offset with
    | .topIndirectIndex level refs =>
      match topReference (topIndirectMaxCount t.pageSize) level refs positionOid mustExist with
      | none => failure
      | some (reference, nextOid) =>
        if reference = nullFileAddr then do
          -- no child exists yet, create an INDR
          let indr ← allocateNewBlock newIndirectIndex
          let nextOid ← topSetReference offset positionOid indr
          pure (indr, nextOid)
        else if reference = missingFileAddr then growTop parent offset level positionOid
        else descend mustExist fuel (some (offset, positionOid)) reference nextOid
    | .indirectIndex _ =>
      if positionOid > indirectMaxCount t.pageSize then splitIndirect parent offset positionOid
      else pure (offset, positionOid)
    | _ => failure

/-- Where `row_insert()` puts the reference of the row `oid`. -/
def findIndirect (mustExist : Bool) (oid : Nat) : Program Table (Reference × Nat) := do
  let t ← get
  if t.indirectIndex = nullFileAddr then do
    -- the very first time we'll hit a null
    if oid ≠ 1 then failure
    let indr ← allocateNewBlock newIndirectIndex
    modify fun t => { t with indirectIndex := indr }
    pure (indr, oid)
  else descend mustExist t.used none t.indirectIndex oid

/-- The loop of `get_indirect_reference()`. -/
def walk (t : Table) : Nat → Reference → Nat → Option Reference
  | 0, _, _ => none
  | fuel + 1, offset, oid =>
    match t.block offset with
    | some (.topIndirectIndex level refs) =>
      match topReference (topIndirectMaxCount t.pageSize) level refs oid true with
      | none => none
      | some (reference, oid) => if reference = nullFileAddr then none else walk t fuel reference oid
    | some (.indirectIndex refs) => indirectReference (indirectMaxCount t.pageSize) refs oid true
    | _ => none

/-- `get_indirect_reference()`; nothing when it throws. -/
def getIndirectReference (t : Table) (oid : Nat) : Option Reference :=
  if t.indirectIndex = nullFileAddr then none else walk t t.used t.indirectIndex oid

end Table

/-! ### The primary index -/

/-- `block_primary_index::get_size()`: the number of bits of a key that choose its reference. -/
def primaryIndexBits (pageSize : Nat) : Nat := min (Nat.log 2 pageSize - Nat.log 2 8) 32

/-- `block_primary_index::key_to_index()`: the last bits of the key. -/
def keyToIndex (pageSize : Nat) (key : Bytes) : Nat :=
  let bytes := min ((primaryIndexBits pageSize + 7) / 8) key.length
  (key.reverse.take bytes).foldr (fun b k => b.toNat + 256 * k) 0 % 2 ^ primaryIndexBits pageSize

/-- The binary searches of the `TIDX` and `EIDX` blocks over the positions from `i` to `j`: where the search ends,
    and whether it found the key. `cmp` is the comparison of an entry with the key. -/
def bisect (cmp : Nat → Ordering) : Nat → Nat → Nat → Nat → Nat × Bool
  | 0, _, _, position => (position, false)
  | fuel + 1, i, j, position =>
    if i < j then
      let middle := (j - i) / 2 + i
      match cmp middle with
      | .lt => bisect cmp fuel (middle + 1) j (middle + 1)
      | .gt => bisect cmp fuel i middle middle
      | .eq => (middle, true)
    else (position, false)

/-- `memcmp()` on the first `length` bytes. -/
def memcmp (a b : Bytes) (length : Nat) : Ordering := compare (a.take length) (b.take length)

/-- `block_top_index::find_index()`, with the position that it leaves. -/
def findIndex (size : Nat) (entries : List (Reference × Bytes)) (key : Bytes) : Reference × Nat :=
  let length := min key.length (size - 8)
  let keys := entries.map Prod.snd
  let (position, found) := bisect (fun i => memcmp (keys.getD i []) key length) entries.length 0 entries.length 0
  (if found then (entries.map Prod.fst).getD position nullFileAddr else nullFileAddr, position)

/-- `block_entry_index::find_entry()`. -/
def findEntry (size : Nat) (entries : List Entry) (key : Bytes) : Nat :=
  let length := min (size - 1 - 8) key.length
  let keys := entries.map Entry.key
  let (position, found) := bisect (fun i => memcmp (keys.getD i []) key length) entries.length 0 entries.length 0
  if found then (entries.map Entry.oid).getD position nullFileAddr else nullFileAddr

/-- `block_entry_index::add_entry()` without a close position; nothing when it throws. -/
def addEntry (pageSize size : Nat) (entries : List Entry) (key : Bytes) (positionOid : Nat) : Option (List Entry) :=
  let length := size - 1 - 8
  let minLength := min length key.length
  if size < 1 + 8 + 1 then none
  else
    let keys := entries.map Entry.key
    let (closePosition, found) := bisect (fun i => memcmp (keys.getD i []) key minLength) entries.length 0 entries.length 0
    if found || decide (entries.length ≥ (pageSize - entryIndexSize) / size) then none
    else some (entries.insertIdx closePosition
      { complete := decide (key.length ≤ length), oid := positionOid
        key := key.take minLength ++ List.replicate (length - key.length) 0 })

namespace Table

def newPrimaryIndex : Block := .primaryIndex fun _ => nullFileAddr

/-- `get_primary_index_block(true)`. -/
def primaryIndexBlockCreated : Program Table Reference := do
  let t ← get
  if t.primaryIndexBlock = nullFileAddr then do
    let offset ← allocateNewBlock newPrimaryIndex
    modify fun t => { t with primaryIndexBlock := offset }
    pure offset
  else pure t.primaryIndexBlock

/-- `block_primary_index::set_top_index()`. The place of index 0 is in the header of the file, since the block
    has its own header there. -/
def setTopIndex (primary : Reference) (key : Bytes) (offset : Reference) : Program Table PUnit := do
  let t ← get
  if keyToIndex t.pageSize key = 0 then set { t with primaryIndexReferenceZero := offset }
  else
    match ← getBlock primary with
    | .primaryIndex refs =>
      set (t.setBlock primary (.primaryIndex (Function.update refs (keyToIndex t.pageSize key) offset)))
    | _ => failure

/-- `block_primary_index::get_top_index()`; nothing for another block. -/
def getTopIndex (t : Table) (primary : Reference) (key : Bytes) : Option Reference :=
  if keyToIndex t.pageSize key = 0 then some t.primaryIndexReferenceZero
  else
    match t.block primary with
    | some (.primaryIndex refs) => some (refs (keyToIndex t.pageSize key))
    | _ => none

/-- A new `EIDX` block with one entry. The size of its entries is that of a flag, an OID and 16 bytes of key. -/
def newEntryIndex (key : Bytes) (positionOid : Nat) : Program Table Reference := do
  let offset ← allocateNewBlock (.entryIndex 0 [])
  modify fun t => t.setBlock offset (.entryIndex (1 + 8 + 16) [])
  let t ← get
  match addEntry t.pageSize (1 + 8 + 16) [] key positionOid with
  | some entries => do
    set (t.setBlock offset (.entryIndex (1 + 8 + 16) entries))
    pure offset
  | none => failure

/-- The OID that `row_insert()` gives to a row, and whether it has its place in the indirect index already. -/
def allocateOid : Program Table (Nat × Bool) := do
  let t ← get
  if t.firstFreeOid ≠ 0 then pure (t.firstFreeOid, true)
  else do
    -- no free OID, generate a new one
    set { t with lastOid := (t.lastOid + 1) % 2 ^ 64 }
    pure (t.lastOid, false)

/-- What `row_insert()` does for the primary index, with the position of the row in its `INDR` block. -/
def insertPrimary (row : RowData) (positionOid : Nat) : Program Table PUnit := do
  if row.indexReferences.isEmpty then do
    let primary ← primaryIndexBlockCreated
    let entryIndex ← newEntryIndex row.key.bytes positionOid
    setTopIndex primary row.key.bytes entryIndex
  else failure

/-- `row_insert()`: it gives the OID that it puts in the row. -/
def rowInsert (row : RowData) : Program Table Nat := do
  let (oid, mustExist) ← allocateOid
  let (indr, positionOid) ← findIndirect mustExist oid
  modify fun t => { t with used := t.used + row.dataBlocks }
  indirectSetReference indr positionOid row.blob
  insertPrimary row positionOid
  pure oid

/-- The loop of `read_primary()` through the top indexes, from the block at `offset`: the block that it ends at, if
    any, and the references that it adds to the state of the cursor. -/
def readTopIndexes (t : Table) (key : Bytes) : Nat → Reference → Option (Option Block × List (Reference × Nat))
  | 0, _ => none
  | fuel + 1, offset =>
    match t.block offset with
    | some (.topIndex size entries) =>
      let idxRef := findIndex size entries key
      if idxRef.1 = nullFileAddr then some (none, [idxRef])
      else (readTopIndexes t key fuel idxRef.1).map fun r => (r.1, idxRef :: r.2)
    | some b => some (some b, [])
    | none => none

/-- `read_primary()` on the first position of a cursor: the OID of the row that it finds, if any, and the references
    that it adds to the state of the cursor; nothing when it throws. -/
def readPrimary (t : Table) (key : Bytes) : Option (Option Nat × List (Reference × Nat)) :=
  if t.primaryIndexBlock = nullFileAddr then some (none, [])
  else do
    let ref ← t.getTopIndex t.primaryIndexBlock key
    if ref = nullFileAddr then some (none, [])
    else
      match ← t.readTopIndexes key t.used ref with
      | (none, idxRefs) => some (none, idxRefs)
      | (some (.entryIndex size entries), idxRefs) =>
        let oid := findEntry size entries key
        some (if oid = nullFileAddr then none else some oid, idxRefs)
      | (some _, _) => none

end Table
end Snapwebsites.Snapdatabase
