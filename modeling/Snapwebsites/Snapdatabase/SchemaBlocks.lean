import Mathlib.Algebra.GroupWithZero.Nat
import Snapwebsites.Lib.Copy
import Snapwebsites.Snapdatabase.Blocks

/-! # The chain of the blocks of a schema

`set_schema()` writes a virtual buffer to a chain of `SCHM` blocks, and `get_schema()` reads it back. A virtual buffer is made
of bytes of its own and of bytes of blocks, so it may refer to the blocks it is written to. The file is the one of `TableFile`,
with what a `SCHM` block holds behind its header: 20 bytes of structure, then the data. A `memcpy()` goes from the first byte
to the last one. -/

namespace Snapwebsites.Snapdatabase

/-- A byte of the data of a block. -/
abbrev Cell := Reference × Nat

/-- `size` and `nextSchemaBlock` are fields of the structure of a `SCHM` block. -/
structure SchemaFile where
  alloc : Allocation
  size : Reference → Nat
  nextSchemaBlock : Reference → Reference
  data : Cell → UInt8

/-- The place of a part of a block counts from the first byte behind the structure. -/
inductive Vbuf
  | data (bytes : List UInt8)
  | block (block : Reference) (offset size : Nat)
  deriving DecidableEq

abbrev VirtualBuffer := List Vbuf

namespace Vbuf

def size : Vbuf → Nat
  | data bytes => bytes.length
  | block _ _ size => size

def source (i : Nat) : Vbuf → Source Cell UInt8
  | data bytes => .value (bytes.getD i 0)
  | block r offset _ => .cell (r, offset + i)

end Vbuf

namespace VirtualBuffer

/-- `f_total_size`. -/
def size (b : VirtualBuffer) : Nat := (b.map Vbuf.size).sum

def source : VirtualBuffer → Nat → Source Cell UInt8
  | [], _ => .value 0
  | p :: b, k => if k < p.size then p.source k else source b (k - p.size)

theorem size_cons (p : Vbuf) (b : VirtualBuffer) : size (p :: b) = p.size + size b := rfl

/-- What the buffer holds. -/
def bytes (f : SchemaFile) (b : VirtualBuffer) : List UInt8 := (List.range b.size).map fun k => (b.source k).read f.data

end VirtualBuffer

namespace SchemaFile

/-- The size of the structure of a `SCHM` block. -/
def structureSize : Nat := 20

def sizePerPage (f : SchemaFile) : Nat := f.alloc.file.pageSize - structureSize

def setSize (s : Reference) (size : Nat) (f : SchemaFile) : SchemaFile := { f with size := Function.update f.size s size }

def setNextSchemaBlock (s offset : Reference) (f : SchemaFile) : SchemaFile :=
  { f with nextSchemaBlock := Function.update f.nextSchemaBlock s offset }

/-- Whether `get_block()` finds a `SCHM` block. -/
def isSchema (f : SchemaFile) (offset : Reference) : Bool := decide (f.alloc.file.getBlock offset = some (.used .schema))

/-- `memcpy()` of `n` bytes to the place `i` of the data of a block. -/
def memcpy (source : Nat → Source Cell UInt8) (s : Reference) (i : Nat) : Nat → SchemaFile → SchemaFile
  | 0, f => f
  | n + 1, f =>
    let f := memcpy source s i n f
    { f with data := Function.update f.data (s, i + n) ((source n).read f.data) }

/-- The loop of `pread()` over the parts of a buffer, into the data of a block. -/
def preadFrom (s : Reference) : VirtualBuffer → Nat → Nat → Nat → SchemaFile → SchemaFile
  | [], _, _, _, f => f
  | p :: b, i, size, offset, f =>
    if p.size ≤ offset then preadFrom s b i size (offset - p.size) f
    else
      let sz := if p.size - offset < size then p.size - offset else size
      let f := memcpy (fun k => p.source (offset + k)) s i sz f
      if size - sz = 0 then f else preadFrom s b (i + sz) (size - sz) 0 f

/-- `pread()` to the start of the data of a block; nothing when it throws. -/
def pread (b : VirtualBuffer) (s : Reference) (size offset : Nat) (f : SchemaFile) : Option SchemaFile :=
  if size = 0 then some f else if b.size < offset + size then none else some (preadFrom s b 0 size offset f)

/-- `allocate_new_block()` of a `SCHM` block: its structure and its data are cleared. -/
def allocateNewBlock (f : SchemaFile) : Option (Reference × SchemaFile) :=
  (f.alloc.file.allocateNewBlock .schema).1.map fun r =>
    (r, { alloc := f.alloc.step (.allocate .schema)
          size := Function.update f.size r 0
          nextSchemaBlock := Function.update f.nextSchemaBlock r nullFileAddr
          data := fun a => if a.1 = r then 0 else f.data a })

def freeBlock (offset : Reference) (f : SchemaFile) : SchemaFile := { f with alloc := f.alloc.step (.free offset) }

/-- The loop that frees the blocks of the old chain from `next` on. There is nothing when a block is no `SCHM` block. -/
def freeChain : Nat → SchemaFile → Reference → Option SchemaFile
  | 0, _, _ => none
  | fuel + 1, f, next =>
    if next = nullFileAddr then some f
    else if f.isSchema next then freeChain fuel (f.freeBlock next) (f.nextSchemaBlock next) else none

/-- The loop of `set_schema()`, with the block that is written next. -/
def setSchemaFrom (b : VirtualBuffer) : Nat → SchemaFile → Reference → Nat → Nat → Option SchemaFile
  | 0, _, _, _, _ => none
  | fuel + 1, f, s, pos, remainingSize =>
    let size := min f.sizePerPage remainingSize
    (f.pread b s size pos).bind fun f =>
      let f := f.setSize s size
      let next := f.nextSchemaBlock s
      if remainingSize - size = 0 then freeChain fuel (f.setNextSchemaBlock s nullFileAddr) next
      else if next = nullFileAddr then
        f.allocateNewBlock.bind fun new =>
          setSchemaFrom b fuel (new.2.setNextSchemaBlock s new.1) new.1 (pos + size) (remainingSize - size)
      else if f.isSchema next then setSchemaFrom b fuel f next (pos + size) (remainingSize - size)
      else none

/-- `set_schema()`; nothing when it throws or when the fuel runs out. The remaining size is a `std::uint32_t`. -/
def setSchema (fuel : Nat) (b : VirtualBuffer) (s : Reference) (f : SchemaFile) : Option SchemaFile :=
  setSchemaFrom b fuel f s 0 (b.size % 2 ^ 32)

/-- `get_schema()`. -/
def getSchema : Nat → Reference → SchemaFile → Option VirtualBuffer
  | 0, _, _ => none
  | fuel + 1, s, f =>
    let part := Vbuf.block s 0 (f.size s)
    let next := f.nextSchemaBlock s
    if next = nullFileAddr then some [part]
    else if f.isSchema next then (getSchema fuel next f).map (part :: ·) else none

/-! ### Copying -/

variable {f f' : SchemaFile} {b : VirtualBuffer} {s r : Reference} {l : List Reference} {size pos : Nat}

/-- The links of the blocks. -/
def next (f : SchemaFile) (r : Reference) : Option Reference := some (f.nextSchemaBlock r)

def copyData (source : Nat → Source Cell UInt8) (s : Reference) (i n : Nat) (f : SchemaFile) : SchemaFile :=
  { f with data := Copy.memory f.data source (fun k => some (s, i + k)) n }

theorem memcpy_eq (source : Nat → Source Cell UInt8) (s : Reference) (i n : Nat) (f : SchemaFile) :
    memcpy source s i n f = copyData source s i n f := by
  induction n with
  | zero => rfl
  | succ n ih => simp only [memcpy, ih, copyData, Copy.memory, Copy.write]

theorem copyData_add (source : Nat → Source Cell UInt8) (s : Reference) (i m n : Nat) (f : SchemaFile) :
    copyData source s i (m + n) f = copyData (fun k => source (m + k)) s (i + m) n (copyData source s i m f) := by
  simp only [copyData, Copy.memory_add, Nat.add_assoc]

theorem copyData_congr {source source' : Nat → Source Cell UInt8} {n : Nat} (h : ∀ k < n, source k = source' k) (i : Nat) :
    copyData source s i n f = copyData source' s i n f := by
  unfold copyData
  rw [Copy.memory_congr h fun _ _ => rfl]

theorem preadFrom_eq (b : VirtualBuffer) (s : Reference) (i size offset : Nat) (f : SchemaFile) (h : offset + size ≤ b.size) :
    preadFrom s b i size offset f = copyData (fun k => b.source (offset + k)) s i size f := by
  induction b generalizing i size offset f with
  | nil =>
    have hsize : size = 0 := by
      simp only [VirtualBuffer.size, List.map_nil, List.sum_nil] at h
      omega
    rw [hsize]
    rfl
  | cons p b ih =>
    rw [VirtualBuffer.size_cons] at h
    unfold preadFrom
    by_cases hskip : p.size ≤ offset
    · rw [if_pos hskip, ih _ _ _ _ (by omega)]
      refine copyData_congr (fun k _ => ?_) i
      rw [VirtualBuffer.source, if_neg (by omega), Nat.sub_add_comm hskip]
    · rw [if_neg hskip]
      have hpart (n : Nat) (hn : n ≤ p.size - offset) : copyData (fun k => p.source (offset + k)) s i n f =
          copyData (fun k => VirtualBuffer.source (p :: b) (offset + k)) s i n f :=
        copyData_congr (fun k hk => by rw [VirtualBuffer.source, if_pos (by omega)]) i
      by_cases hlast : size ≤ p.size - offset
      · simp only [if_neg (Nat.not_lt.mpr hlast), Nat.sub_self, if_true, memcpy_eq]
        exact hpart size hlast
      · have hlt := Nat.lt_of_not_le hlast
        simp only [if_pos hlt, memcpy_eq, if_neg (Nat.sub_ne_zero_of_lt hlt)]
        rw [ih _ _ _ _ (by omega), hpart _ le_rfl]
        conv_rhs => rw [← Nat.add_sub_cancel' hlt.le, copyData_add]
        refine copyData_congr (fun k _ => ?_) _
        rw [VirtualBuffer.source, if_neg (by omega), Nat.zero_add]
        congr 1
        omega

theorem pread_eq (f : SchemaFile) (s : Reference) (h : pos + size ≤ b.size) :
    f.pread b s size pos = some (copyData (fun k => b.source (pos + k)) s 0 size f) := by
  unfold pread
  split
  · rename_i hzero
    rw [hzero]
    rfl
  · rw [if_neg (Nat.not_lt.mpr h), preadFrom_eq b s 0 size pos f h]

/-! ### Freeing -/

/-- A table file whose pages are partitioned. -/
structure Ready (f : SchemaFile) : Prop where
  partitioned : Allocation.Partitioned f.alloc
  pages : f.alloc.file.pages ≠ []
  pageSize : structureSize < f.alloc.file.pageSize

/-- `SCHM` blocks in use, from `s` on. -/
structure Chain (f : SchemaFile) (s : Reference) (l : List Reference) : Prop where
  linked : Linked f.next nullFileAddr s l
  live : ∀ r ∈ l, r ∈ f.alloc.live
  schema : ∀ r ∈ l, f.isSchema r = true

theorem isPage_of_live (h : Allocation.Partitioned f.alloc) (hr : r ∈ f.alloc.live) : Allocation.IsPage f.alloc.file r := by
  obtain ⟨l, -, -, -, hpages⟩ := h
  exact (hpages r).mpr (.inr hr)

theorem Ready.freeBlock (h : Ready f) (hr : r ∈ f.alloc.live) : Ready (f.freeBlock r) :=
  ⟨h.partitioned.free hr, Allocation.step_pages_ne_nil h.partitioned h.pages _, h.pageSize⟩

theorem isSchema_freeBlock (h : Ready f) (hr : r ∈ f.alloc.live) {a : Reference} (ha : a ∈ f.alloc.live) (hne : a ≠ r) :
    (f.freeBlock r).isSchema a = f.isSchema a := by
  have hpage := isPage_of_live h.partitioned hr
  have hblock : (f.freeBlock r).alloc.file.getBlock a = f.alloc.file.getBlock a :=
    Allocation.getBlock_setPage _ _ _ _ fun hdiv => hne (hpage.eq_of_div (isPage_of_live h.partitioned ha) hdiv)
  simp only [isSchema, hblock]

def freeAll (l : List Reference) (f : SchemaFile) : SchemaFile := l.foldl (fun f r => f.freeBlock r) f

theorem freeAll_fields (l : List Reference) (f : SchemaFile) : (freeAll l f).size = f.size ∧
    (freeAll l f).nextSchemaBlock = f.nextSchemaBlock ∧ (freeAll l f).data = f.data ∧
    (freeAll l f).alloc.file.pageSize = f.alloc.file.pageSize := by
  induction l generalizing f with
  | nil => exact ⟨rfl, rfl, rfl, rfl⟩
  | cons r l ih => exact ih (f.freeBlock r)

theorem Ready.freeAll (h : Ready f) (hnodup : l.Nodup) (hlive : ∀ r ∈ l, r ∈ f.alloc.live) : Ready (freeAll l f) ∧
    ∀ a, (a ∈ (freeAll l f).alloc.live ↔ a ∈ f.alloc.live ∧ a ∉ l) ∧
      (a ∈ f.alloc.live → a ∉ l → (SchemaFile.freeAll l f).isSchema a = f.isSchema a) := by
  induction l generalizing f with
  | nil => exact ⟨h, fun a => ⟨by simp [SchemaFile.freeAll], fun _ _ => rfl⟩⟩
  | cons r l ih =>
    obtain ⟨hmem, hnodup⟩ := List.nodup_cons.mp hnodup
    have hr := hlive r List.mem_cons_self
    have hrest : ∀ a ∈ l, a ∈ (f.freeBlock r).alloc.live := fun a ha =>
      Finset.mem_erase.mpr ⟨fun heq => hmem (heq ▸ ha), hlive a (List.mem_cons_of_mem _ ha)⟩
    obtain ⟨hready, hall⟩ := ih (h.freeBlock hr) hnodup hrest
    refine ⟨hready, fun a => ⟨?_, fun ha hne => ?_⟩⟩
    · refine (hall a).1.trans ?_
      simp only [SchemaFile.freeBlock, Allocation.step, Finset.mem_erase, List.mem_cons, not_or]
      tauto
    · obtain ⟨hne, hnot⟩ := not_or.mp (List.mem_cons.not.mp hne)
      rw [← isSchema_freeBlock h hr ha hne]
      exact (hall a).2 (Finset.mem_erase.mpr ⟨hne, ha⟩) hnot

/-- All the blocks of a chain are freed. -/
theorem freeChain_eq (h : Ready f) (hchain : Chain f r l) (fuel : Nat) :
    freeChain fuel f r = if l.length < fuel then some (freeAll l f) else none := by
  obtain ⟨hlinked, hlive, hschema⟩ := hchain
  induction fuel generalizing f r l with
  | zero => rfl
  | succ fuel ih =>
    unfold freeChain
    by_cases hnull : r = nullFileAddr
    · subst hnull
      rw [hlinked.null_nil]
      rfl
    · obtain ⟨r', k, hnext, hk, rfl⟩ := hlinked.eq_cons hnull
      obtain rfl := Option.some.inj hnext
      have hr := hlive r List.mem_cons_self
      obtain ⟨hmem, -⟩ := List.nodup_cons.mp hlinked.nodup
      have hne : ∀ a ∈ k, a ≠ r := fun a ha heq => hmem (heq ▸ ha)
      have hin : ∀ a ∈ k, a ∈ f.alloc.live := fun a ha => hlive a (List.mem_cons_of_mem _ ha)
      rw [if_neg hnull, if_pos (hschema r List.mem_cons_self), ih (h.freeBlock hr) (r := f.nextSchemaBlock r) (l := k) hk
        (fun a ha => Finset.mem_erase.mpr ⟨hne a ha, hin a ha⟩)
        fun a ha => (isSchema_freeBlock h hr (hin a ha) (hne a ha)).trans (hschema a (List.mem_cons_of_mem _ ha))]
      simp only [List.length_cons, Nat.succ_lt_succ_iff]
      rfl

/-! ### Writing a page -/

/-- The bytes of the data of some blocks, in their order. -/
def cells (n : Nat) (l : List Reference) : List Cell := l.flatMap fun r => (List.range n).map fun i => (r, i)

theorem cells_cons (n : Nat) (r : Reference) (l : List Reference) :
    cells n (r :: l) = ((List.range n).map fun i => (r, i)) ++ cells n l := List.flatMap_cons

theorem cells_here {n k : Nat} (hk : k < n) (r : Reference) (l : List Reference) : (cells n (r :: l))[k]? = some (r, k) := by
  rw [cells_cons, List.getElem?_append_left (by simpa using hk), List.getElem?_map, List.getElem?_range hk, Option.map_some]

theorem cells_behind (n k : Nat) (r : Reference) (l : List Reference) : (cells n (r :: l))[n + k]? = (cells n l)[k]? := by
  rw [cells_cons, List.getElem?_append_right (by simp)]
  simp

def page (b : VirtualBuffer) (s : Reference) (size pos : Nat) (f : SchemaFile) : SchemaFile :=
  (copyData (fun k => b.source (pos + k)) s 0 size f).setSize s size

theorem page_other {a : Cell} (ha : a.1 ≠ s) : (f.page b s size pos).data a = f.data a :=
  Copy.memory_of_not_dest fun k _ heq => ha (by rw [← Option.some.inj heq])

variable {L : Finset Reference} {m : Cell → UInt8} {dest : Nat → Option Cell} {rest : List Reference} {remainingSize : Nat}

/-- The loop writes block `s` next, and the blocks of `rest` are behind it. What the blocks that were live at the start hold is
    what copying has made of it. -/
structure Writing (b : VirtualBuffer) (L : Finset Reference) (m : Cell → UInt8) (dest : Nat → Option Cell) (f : SchemaFile)
    (s : Reference) (rest : List Reference) (pos remainingSize : Nat) : Prop where
  ready : Ready f
  chain : Chain f s (s :: rest)
  fits : pos + remainingSize ≤ b.size
  inUse : ∀ k < b.size, ∀ a, b.source k = .cell a → a.1 ∈ L
  live : ∀ r ∈ L, r ∈ f.alloc.live
  memory : ∀ a : Cell, a.1 ∈ L → f.data a = Copy.memory m b.source dest pos a
  dest : (∀ r ∈ s :: rest, r ∈ L) ∧ (∀ k < remainingSize, dest (pos + k) = (cells f.sizePerPage (s :: rest))[k]?) ∨
    rest = [] ∧ s ∉ L ∧ ∀ k < remainingSize, dest (pos + k) = none

/-- How much is written to the next block. -/
def pageBytes (f : SchemaFile) (remainingSize : Nat) : Nat := min f.sizePerPage remainingSize

theorem Writing.dest_iff (h : Writing b L m dest f s rest pos remainingSize) {k : Nat} (hk : k < f.pageBytes remainingSize)
    (a : Cell) (ha : a.1 ∈ L) : some (s, 0 + k) = some a ↔ dest (pos + k) = some a := by
  obtain ⟨hpage, hremaining⟩ := Nat.lt_min.mp hk
  rw [Nat.zero_add]
  rcases h.dest with ⟨-, hdest⟩ | ⟨-, hs, hdest⟩
  · rw [hdest k hremaining, cells_here hpage]
  · rw [hdest k hremaining]
    refine iff_of_false (fun heq => hs ?_) (Option.some_ne_none a).symm
    rw [← Option.some.inj heq] at ha
    exact ha

theorem Writing.page_memory (h : Writing b L m dest f s rest pos remainingSize) (a : Cell) (ha : a.1 ∈ L) :
    (f.page b s (f.pageBytes remainingSize) pos).data a = Copy.memory m b.source dest (pos + f.pageBytes remainingSize) a := by
  have hle : f.pageBytes remainingSize ≤ remainingSize := Nat.min_le_right _ _
  rw [Copy.memory_add]
  refine Copy.memory_agree (I := fun a => a.1 ∈ L) h.memory (fun k hk a hsrc => ?_) (fun k hk a ha => h.dest_iff hk a ha) a ha
  exact h.inUse (pos + k) (by have := h.fits; omega) a hsrc

theorem Writing.page_copied (h : Writing b L m dest f s rest pos remainingSize) {k : Nat} (hk : k < f.pageBytes remainingSize) :
    (f.page b s (f.pageBytes remainingSize) pos).data (s, k) = Copy.copied m b.source dest (pos + k) := by
  have hle : f.pageBytes remainingSize ≤ remainingSize := Nat.min_le_right _ _
  have hplace : some (s, k) = some (s, 0 + k) := by rw [Nat.zero_add]
  rw [Copy.copied_add]
  refine (Copy.memory_dest (fun i j a hi hj => ?_) hk hplace.symm).trans ?_
  · have heq := (Option.some.inj hi).trans (Option.some.inj hj).symm
    simpa using heq
  · refine Copy.copied_agree (I := fun a => a.1 ∈ L) h.memory (fun k hk a hsrc => ?_) (fun k hk a ha => h.dest_iff hk a ha) hk
    exact h.inUse (pos + k) (by have := h.fits; omega) a hsrc

theorem Writing.setSchemaFrom_succ (h : Writing b L m dest f s rest pos remainingSize) (fuel : Nat) :
    setSchemaFrom b (fuel + 1) f s pos remainingSize =
      let size := f.pageBytes remainingSize
      let g := f.page b s size pos
      if remainingSize - size = 0 then freeChain fuel (g.setNextSchemaBlock s nullFileAddr) (f.nextSchemaBlock s)
      else if f.nextSchemaBlock s = nullFileAddr then
        g.allocateNewBlock.bind fun new =>
          setSchemaFrom b fuel (new.2.setNextSchemaBlock s new.1) new.1 (pos + size) (remainingSize - size)
      else if g.isSchema (f.nextSchemaBlock s) then
        setSchemaFrom b fuel g (f.nextSchemaBlock s) (pos + size) (remainingSize - size)
      else none := by
  have hle : f.pageBytes remainingSize ≤ remainingSize := Nat.min_le_right _ _
  have hfits := h.fits
  have hpread : f.pread b s (f.pageBytes remainingSize) pos = _ := pread_eq f s (by omega)
  unfold pageBytes at hpread
  rw [setSchemaFrom, hpread]
  rfl

theorem cells_end {n k : Nat} (r : Reference) : (cells n [r])[n + k]? = none := by
  rw [cells_behind]
  rfl

/-- The block after the one that is written is one of the old chain. -/
theorem Writing.next_old {s' : Reference} (h : Writing b L m dest f s (s' :: rest) pos remainingSize)
    (hmore : f.sizePerPage < remainingSize) : Writing b L m dest (f.page b s (f.pageBytes remainingSize) pos) s' rest
      (pos + f.pageBytes remainingSize) (remainingSize - f.pageBytes remainingSize) := by
  have hsize : f.pageBytes remainingSize = f.sizePerPage := Nat.min_eq_left hmore.le
  obtain ⟨next, k, hnext, hk, heq⟩ := h.chain.linked.eq_cons (h.chain.linked.ne_null List.mem_cons_self)
  obtain rfl := (List.cons.inj heq).2
  obtain ⟨_, _, -, -, hhead⟩ := hk.eq_cons (fun hnull => by rw [hnull] at hk; cases hk.null_nil)
  obtain rfl := (List.cons.inj hhead).1
  refine ⟨⟨h.ready.partitioned, h.ready.pages, h.ready.pageSize⟩,
    ⟨hk, fun r hr => h.chain.live r (List.mem_cons_of_mem _ hr), fun r hr => h.chain.schema r (List.mem_cons_of_mem _ hr)⟩,
    by have := h.fits; omega, h.inUse, h.live, h.page_memory, .inl ?_⟩
  rcases h.dest with ⟨hold, hdest⟩ | ⟨hnil, -⟩
  · refine ⟨fun r hr => hold r (List.mem_cons_of_mem _ hr), fun k hk => ?_⟩
    rw [Nat.add_assoc, hdest _ (by omega), hsize]
    exact cells_behind ..
  · cases hnil

/-- The next one is a new block. -/
theorem Writing.next_new (h : Writing b L m dest f s [] pos remainingSize) (hmore : f.sizePerPage < remainingSize)
    (hr : Allocation.HandedOut f.alloc .schema r) {g : SchemaFile}
    (hg : (f.page b s (f.pageBytes remainingSize) pos).allocateNewBlock = some (r, g)) :
    Writing b L m dest (g.setNextSchemaBlock s r) r [] (pos + f.pageBytes remainingSize)
      (remainingSize - f.pageBytes remainingSize) := by
  have hsize : f.pageBytes remainingSize = f.sizePerPage := Nat.min_eq_left hmore.le
  have hs := h.chain.live s List.mem_cons_self
  have hne : r ≠ s := fun heq => hr.notLive (heq ▸ hs)
  have hnotL : r ∉ L := fun hmem => hr.notLive (h.live r hmem)
  have hlive : (f.alloc.step (.allocate .schema)).live = insert r f.alloc.live := by
    rw [Allocation.step_allocate, hr.returned, Option.elim_some]
  have hpartitioned := h.ready.partitioned.allocate h.ready.pages (rfl : Dbtype.schema.hasBlock = true)
  unfold allocateNewBlock at hg
  have hreturned : ((f.page b s (f.pageBytes remainingSize) pos).alloc.file.allocateNewBlock .schema).1 = some r := hr.returned
  rw [hreturned] at hg
  obtain rfl := (Prod.mk.inj (Option.some.inj hg)).2
  have hpage : Allocation.IsPage (f.alloc.step (.allocate .schema)).file r :=
    isPage_of_live (f := { f with alloc := f.alloc.step (.allocate .schema) }) hpartitioned
      (by rw [hlive]; exact Finset.mem_insert_self _ _)
  have hpageSize : (f.alloc.step (.allocate .schema)).file.pageSize = f.alloc.file.pageSize := hr.pageSize
  refine ⟨⟨hpartitioned, Allocation.step_pages_ne_nil h.ready.partitioned h.ready.pages _, hpageSize ▸ h.ready.pageSize⟩,
    ⟨.cons hpage.ne_null ?_ .nil, fun a ha => ?_, fun a ha => ?_⟩, by have := h.fits; omega, h.inUse,
    fun a ha => hlive ▸ Finset.mem_insert_of_mem (h.live a ha), fun a ha => ?_, .inr ⟨rfl, hnotL, fun k hk => ?_⟩⟩
  · simp [next, setNextSchemaBlock, Function.update_of_ne hne]
  · rw [List.mem_singleton.mp ha]
    exact hlive ▸ Finset.mem_insert_self _ _
  · rw [List.mem_singleton.mp ha]
    exact decide_eq_true hr.block
  · rw [← h.page_memory a ha]
    have hner : a.1 ≠ r := fun heq => hnotL (heq ▸ ha)
    exact if_neg hner
  · rcases h.dest with ⟨-, hdest⟩ | ⟨-, -, hdest⟩
    · rw [Nat.add_assoc, hdest _ (by omega), hsize, cells_end]
    · rw [Nat.add_assoc, hdest _ (by omega)]

/-! ### What is written -/

/-- The buffer from `pos` on stands in the blocks of a chain from `s` on. The blocks of the old chain that are not in it are freed,
    and the other blocks are as they were. -/
structure Stored (b : VirtualBuffer) (m : Cell → UInt8) (dest : Nat → Option Cell) (f : SchemaFile) (s : Reference)
    (old : List Reference) (pos n : Nat) (f' : SchemaFile) : Prop where
  partitioned : Allocation.Partitioned f'.alloc
  chain : ∃ c, Chain f' s c ∧ ∀ r, r ∈ f'.alloc.live ↔ r ∈ c ∨ r ∈ f.alloc.live ∧ r ∉ old
  reads : ∃ fuel v, f'.getSchema fuel s = some v ∧
    v.bytes f' = (List.range n).map fun k => Copy.copied m b.source dest (pos + k)
  others : ∀ r ∈ f.alloc.live, r ∉ old → f'.nextSchemaBlock r = f.nextSchemaBlock r ∧ f'.size r = f.size r ∧
    f'.isSchema r = f.isSchema r ∧ ∀ i, f'.data (r, i) = f.data (r, i)

theorem bytes_cons (p : Vbuf) (b : VirtualBuffer) : VirtualBuffer.bytes f (p :: b) =
    ((List.range p.size).map fun k => (p.source k).read f.data) ++ b.bytes f := by
  simp only [VirtualBuffer.bytes, VirtualBuffer.size_cons, List.range_add, List.map_append, List.map_map]
  congr 1
  · refine List.map_congr_left fun k hk => ?_
    rw [VirtualBuffer.source, if_pos (List.mem_range.mp hk)]
  · refine List.map_congr_left fun k _ => ?_
    have hlt : ¬ p.size + k < p.size := Nat.not_lt.mpr (Nat.le_add_right _ _)
    simp [VirtualBuffer.source, hlt]

/-- The data of a block in front of the others. -/
theorem bytes_block (r : Reference) (n : Nat) (b : VirtualBuffer) : VirtualBuffer.bytes f (.block r 0 n :: b) =
    ((List.range n).map fun k => f.data (r, k)) ++ b.bytes f := by
  simp [bytes_cons, Vbuf.size, Vbuf.source, Source.read]

theorem bytes_nil : VirtualBuffer.bytes f [] = [] := rfl

/-- The blocks behind the last page are a chain of their own. -/
theorem Writing.behind (h : Writing b L m dest f s rest pos remainingSize) :
    Ready ((f.page b s (f.pageBytes remainingSize) pos).setNextSchemaBlock s nullFileAddr) ∧
      Chain ((f.page b s (f.pageBytes remainingSize) pos).setNextSchemaBlock s nullFileAddr) (f.nextSchemaBlock s) rest := by
  refine ⟨⟨h.ready.partitioned, h.ready.pages, h.ready.pageSize⟩, ?_⟩
  have hmem := (List.nodup_cons.mp h.chain.linked.nodup).1
  obtain ⟨next, k, hnext, hk, heq⟩ := h.chain.linked.eq_cons (h.chain.linked.ne_null List.mem_cons_self)
  obtain rfl := Option.some.inj hnext
  obtain rfl := (List.cons.inj heq).2
  refine ⟨hk.congr fun r hr => ?_, fun r hr => h.chain.live r (List.mem_cons_of_mem _ hr),
    fun r hr => h.chain.schema r (List.mem_cons_of_mem _ hr)⟩
  have hne : r ≠ s := fun heq => hmem (heq ▸ hr)
  exact congrArg some (Function.update_of_ne hne _ _)

/-- The last page is written, and the blocks behind it are freed. -/
theorem Writing.stored_last (h : Writing b L m dest f s rest pos remainingSize) (hlast : remainingSize ≤ f.sizePerPage) {fuel : Nat}
    (hrun : freeChain fuel ((f.page b s (f.pageBytes remainingSize) pos).setNextSchemaBlock s nullFileAddr) (f.nextSchemaBlock s) =
      some f') : Stored b m dest f s (s :: rest) pos remainingSize f' := by
  have hsize : f.pageBytes remainingSize = remainingSize := Nat.min_eq_right hlast
  obtain ⟨hready, hchain⟩ := h.behind
  have hnodup := h.chain.linked.nodup
  have hmem := (List.nodup_cons.mp hnodup).1
  have hs := h.chain.live s List.mem_cons_self
  rw [freeChain_eq hready hchain] at hrun
  split at hrun
  · obtain rfl := Option.some.inj hrun
    obtain ⟨hready', hfreed⟩ := hready.freeAll (List.nodup_cons.mp hnodup).2 hchain.live
    obtain ⟨hsizes, hnexts, hdata, -⟩ := freeAll_fields rest ((f.page b s (f.pageBytes remainingSize) pos).setNextSchemaBlock s nullFileAddr)
    have hschema := ((hfreed s).2 hs hmem).trans (h.chain.schema s List.mem_cons_self)
    have hnull : (freeAll rest ((f.page b s (f.pageBytes remainingSize) pos).setNextSchemaBlock s nullFileAddr)).nextSchemaBlock s =
        nullFileAddr := by
      rw [hnexts]
      exact Function.update_self _ _ _
    refine ⟨hready'.partitioned, ⟨[s], ⟨.cons (h.chain.linked.ne_null List.mem_cons_self) (congrArg some hnull) .nil, fun r hr => ?_,
      fun r hr => ?_⟩, fun r => ?_⟩, ⟨1, [.block s 0 remainingSize], ?_, ?_⟩, fun r hr hnot => ?_⟩
    · rw [List.mem_singleton.mp hr]
      exact (hfreed s).1.mpr ⟨hs, hmem⟩
    · rw [List.mem_singleton.mp hr]
      exact hschema
    · refine (hfreed r).1.trans ?_
      change r ∈ f.alloc.live ∧ r ∉ rest ↔ _
      rw [List.mem_singleton, List.mem_cons]
      by_cases hrs : r = s
      · simp [hrs, hs, hmem]
      · simp [hrs]
    · rw [getSchema, if_pos hnull, hsizes]
      congr 3
      exact (Function.update_self _ _ _).trans hsize
    · rw [bytes_block, bytes_nil, List.append_nil]
      refine List.map_congr_left fun k hk => ?_
      rw [hdata]
      exact h.page_copied (hsize.symm ▸ List.mem_range.mp hk)
    · obtain ⟨hne, hnotRest⟩ := not_or.mp (List.mem_cons.not.mp hnot)
      rw [hnexts, hsizes, hdata]
      exact ⟨Function.update_of_ne hne _ _, Function.update_of_ne hne _ _, (hfreed r).2 hr hnotRest, fun i => page_other hne⟩
  · cases hrun

/-- A page is written in front of what is written to the blocks behind it. -/
theorem Stored.cons {g : SchemaFile} {s' : Reference} {old' : List Reference} (h : Writing b L m dest f s rest pos remainingSize)
    (hlive : ∀ r, r ∈ g.alloc.live ∧ r ∉ old' ↔ r = s ∨ r ∈ f.alloc.live ∧ r ∉ s :: rest)
    (hnext : g.nextSchemaBlock s = s') (hs' : s' ≠ nullFileAddr) (hsize : g.size s = f.pageBytes remainingSize)
    (hschema : g.isSchema s = true)
    (hdata : ∀ k < f.pageBytes remainingSize, g.data (s, k) = Copy.copied m b.source dest (pos + k))
    (hothers : ∀ r ∈ f.alloc.live, r ∉ s :: rest → g.nextSchemaBlock r = f.nextSchemaBlock r ∧ g.size r = f.size r ∧
      g.isSchema r = f.isSchema r ∧ ∀ i, g.data (r, i) = f.data (r, i))
    (hstored : Stored b m dest g s' old' (pos + f.pageBytes remainingSize) (remainingSize - f.pageBytes remainingSize) f') :
    Stored b m dest f s (s :: rest) pos remainingSize f' := by
  obtain ⟨c, hchain, hc⟩ := hstored.chain
  obtain ⟨fuel, v, hget, hbytes⟩ := hstored.reads
  have hsg := (hlive s).mpr (.inl rfl)
  obtain ⟨hnext', hsize', hschema', hdata'⟩ := hstored.others s hsg.1 hsg.2
  rw [hnext] at hnext'
  rw [hsize] at hsize'
  refine ⟨hstored.partitioned, ⟨s :: c, ⟨.cons (h.chain.linked.ne_null List.mem_cons_self) (congrArg some hnext') hchain.linked,
    fun r hr => ?_, fun r hr => ?_⟩, fun r => ?_⟩, ⟨fuel + 1, .block s 0 (f.pageBytes remainingSize) :: v, ?_, ?_⟩, fun r hr hnot => ?_⟩
  · rcases List.mem_cons.mp hr with rfl | hr
    · exact (hc r).mpr (.inr hsg)
    · exact hchain.live r hr
  · rcases List.mem_cons.mp hr with rfl | hr
    · exact hschema'.trans hschema
    · exact hchain.schema r hr
  · rw [hc, hlive, or_left_comm, ← or_assoc, ← List.mem_cons (l := c)]
  · obtain ⟨_, k, -, -, rfl⟩ := hchain.linked.eq_cons hs'
    rw [getSchema, hnext', if_neg hs', if_pos (hchain.schema s' List.mem_cons_self), hget, hsize']
    rfl
  · have hle : f.pageBytes remainingSize ≤ remainingSize := Nat.min_le_right _ _
    rw [bytes_block, hbytes]
    conv_rhs => rw [← Nat.add_sub_cancel' hle, List.range_add, List.map_append, List.map_map]
    congr 1
    · refine List.map_congr_left fun k hk => ?_
      rw [hdata', hdata k (List.mem_range.mp hk)]
    · refine List.map_congr_left fun k _ => ?_
      rw [Function.comp_apply, Nat.add_assoc]
  · have hrg := (hlive r).mpr (.inr ⟨hr, hnot⟩)
    obtain ⟨hn, hz, hsch, hd⟩ := hstored.others r hrg.1 hrg.2
    obtain ⟨hn', hz', hsch', hd'⟩ := hothers r hr hnot
    exact ⟨hn.trans hn', hz.trans hz', hsch.trans hsch', fun i => (hd i).trans (hd' i)⟩

theorem Writing.stored_old {s' : Reference} (h : Writing b L m dest f s (s' :: rest) pos remainingSize) (hs' : s' ≠ nullFileAddr)
    (hnext : f.nextSchemaBlock s = s') (hstored : Stored b m dest (f.page b s (f.pageBytes remainingSize) pos) s' (s' :: rest)
      (pos + f.pageBytes remainingSize) (remainingSize - f.pageBytes remainingSize) f') :
    Stored b m dest f s (s :: s' :: rest) pos remainingSize f' := by
  have hs := h.chain.live s List.mem_cons_self
  have hmem := (List.nodup_cons.mp h.chain.linked.nodup).1
  refine .cons (g := f.page b s (f.pageBytes remainingSize) pos) h (fun r => ?_) hnext hs' (Function.update_self _ _ _)
    (h.chain.schema s List.mem_cons_self) (fun k hk => h.page_copied hk) (fun r _ hnot => ?_) hstored
  · change r ∈ f.alloc.live ∧ r ∉ s' :: rest ↔ _
    rw [List.mem_cons (a := r) (b := s), not_or]
    by_cases hrs : r = s
    · subst hrs
      exact iff_of_true ⟨hs, hmem⟩ (.inl rfl)
    · simp [hrs]
  · have hne := (not_or.mp (List.mem_cons.not.mp hnot)).1
    exact ⟨rfl, Function.update_of_ne hne _ _, rfl, fun i => page_other hne⟩

theorem Writing.stored_new {g : SchemaFile} (h : Writing b L m dest f s [] pos remainingSize)
    (hr : Allocation.HandedOut f.alloc .schema r) (hnull : r ≠ nullFileAddr)
    (hg : (f.page b s (f.pageBytes remainingSize) pos).allocateNewBlock = some (r, g))
    (hstored : Stored b m dest (g.setNextSchemaBlock s r) r [r] (pos + f.pageBytes remainingSize)
      (remainingSize - f.pageBytes remainingSize) f') : Stored b m dest f s [s] pos remainingSize f' := by
  have hs := h.chain.live s List.mem_cons_self
  have hlive : (f.alloc.step (.allocate .schema)).live = insert r f.alloc.live := by
    rw [Allocation.step_allocate, hr.returned, Option.elim_some]
  have hreturned : ((f.page b s (f.pageBytes remainingSize) pos).alloc.file.allocateNewBlock .schema).1 = some r := hr.returned
  unfold allocateNewBlock at hg
  rw [hreturned] at hg
  obtain rfl := (Prod.mk.inj (Option.some.inj hg)).2
  have hne : ∀ a ∈ f.alloc.live, a ≠ r := fun a ha heq => hr.notLive (heq ▸ ha)
  have hschema : ∀ a ∈ f.alloc.live, decide ((f.alloc.step (.allocate .schema)).file.getBlock a = some (.used .schema)) =
      f.isSchema a := by
    intro a ha
    have hblock : (f.alloc.step (.allocate .schema)).file.getBlock a = f.alloc.file.getBlock a := hr.others a ha
    rw [hblock]
    rfl
  refine .cons h (fun a => ?_) (Function.update_self _ _ _) hnull ?_ ?_ (fun k hk => ?_) (fun a ha hnot => ?_) hstored
  · change a ∈ (f.alloc.step (.allocate .schema)).live ∧ a ∉ [r] ↔ _
    rw [hlive, Finset.mem_insert, List.mem_singleton, List.mem_singleton]
    by_cases has : a = s
    · subst has
      exact iff_of_true ⟨.inr hs, hne a hs⟩ (.inl rfl)
    · have hkeep : a ∈ f.alloc.live → a ≠ r := hne a
      tauto
  · exact (Function.update_of_ne (hne s hs) _ _).trans (Function.update_self _ _ _)
  · exact (hschema s hs).trans (h.chain.schema s List.mem_cons_self)
  · rw [← h.page_copied hk]
    exact if_neg (hne s hs)
  · have has : a ≠ s := fun heq => hnot (heq ▸ List.mem_cons_self)
    refine ⟨?_, ?_, hschema a ha, fun i => ?_⟩
    · exact (Function.update_of_ne has _ _).trans (Function.update_of_ne (hne a ha) _ _)
    · exact (Function.update_of_ne (hne a ha) _ _).trans (Function.update_of_ne has _ _)
    · exact (if_neg (hne a ha)).trans (page_other has)

/-! ### Runs of the loop -/

/-- The four ways the loop goes on. -/
inductive Iteration (b : VirtualBuffer) (f : SchemaFile) (s : Reference) (pos remainingSize : Nat) : List Reference → Prop
  | last {rest : List Reference} : remainingSize ≤ f.sizePerPage →
      (∀ fuel, setSchemaFrom b (fuel + 1) f s pos remainingSize =
        freeChain fuel ((f.page b s (f.pageBytes remainingSize) pos).setNextSchemaBlock s nullFileAddr) (f.nextSchemaBlock s)) →
      Iteration b f s pos remainingSize rest
  | old {s' : Reference} {rest : List Reference} : f.sizePerPage < remainingSize → s' ≠ nullFileAddr → f.nextSchemaBlock s = s' →
      (∀ fuel, setSchemaFrom b (fuel + 1) f s pos remainingSize = setSchemaFrom b fuel (f.page b s (f.pageBytes remainingSize) pos) s'
        (pos + f.pageBytes remainingSize) (remainingSize - f.pageBytes remainingSize)) →
      Iteration b f s pos remainingSize (s' :: rest)
  | new (r : Reference) (g : SchemaFile) : f.sizePerPage < remainingSize → r ≠ nullFileAddr →
      Allocation.HandedOut f.alloc .schema r →
      (f.page b s (f.pageBytes remainingSize) pos).allocateNewBlock = some (r, g) → g.sizePerPage = f.sizePerPage →
      (∀ n, Allocation.Available f.alloc.file (n + 1) ↔ Allocation.Available g.alloc.file n) →
      (∀ fuel, setSchemaFrom b (fuel + 1) f s pos remainingSize = setSchemaFrom b fuel (g.setNextSchemaBlock s r) r
        (pos + f.pageBytes remainingSize) (remainingSize - f.pageBytes remainingSize)) →
      Iteration b f s pos remainingSize []
  | throws : f.sizePerPage < remainingSize → (∀ n, ¬ Allocation.Available f.alloc.file (n + 1)) →
      (∀ fuel, setSchemaFrom b (fuel + 1) f s pos remainingSize = none) → Iteration b f s pos remainingSize []

theorem allocateNewBlock_eq (hr : (f.alloc.file.allocateNewBlock .schema).1 = some r) :
    ∃ g, f.allocateNewBlock = some (r, g) ∧ g.alloc = f.alloc.step (.allocate .schema) := ⟨_, congrArg (Option.map _) hr, rfl⟩

theorem Writing.iteration (h : Writing b L m dest f s rest pos remainingSize) : Iteration b f s pos remainingSize rest := by
  have heq := h.setSchemaFrom_succ
  dsimp only at heq
  by_cases hlast : remainingSize ≤ f.sizePerPage
  · have hsize : f.pageBytes remainingSize = remainingSize := Nat.min_eq_right hlast
    simp only [if_pos (show remainingSize - f.pageBytes remainingSize = 0 by rw [hsize, Nat.sub_self])] at heq
    exact .last hlast heq
  have hmore := Nat.lt_of_not_le hlast
  have hsize : f.pageBytes remainingSize = f.sizePerPage := Nat.min_eq_left hmore.le
  have hrest : remainingSize - f.pageBytes remainingSize ≠ 0 := hsize ▸ Nat.sub_ne_zero_of_lt hmore
  simp only [if_neg hrest] at heq
  obtain ⟨next, k, hnext, hk, hlist⟩ := h.chain.linked.eq_cons (h.chain.linked.ne_null List.mem_cons_self)
  obtain rfl := Option.some.inj hnext
  obtain rfl := (List.cons.inj hlist).2
  by_cases hnull : f.nextSchemaBlock s = nullFileAddr
  · have hnil : rest = [] := by
      rw [hnull] at hk
      exact hk.null_nil
    subst hnil
    simp only [if_pos hnull] at heq
    have hcases := h.ready.partitioned.allocate_cases h.ready.pages (rfl : Dbtype.schema.isBlock = true)
    rcases hcases with ⟨r, hr, havailable⟩ | ⟨hnone, hnever⟩
    · have hpartitioned := h.ready.partitioned.allocate h.ready.pages (rfl : Dbtype.schema.hasBlock = true)
      have hlive : r ∈ (f.alloc.step (.allocate .schema)).live := by
        rw [Allocation.step_allocate, hr.returned]
        exact Finset.mem_insert_self _ _
      have hne := (isPage_of_live (f := { f with alloc := f.alloc.step (.allocate .schema) }) hpartitioned hlive).ne_null
      obtain ⟨g, hg, hstep⟩ := allocateNewBlock_eq (f := f.page b s (f.pageBytes remainingSize) pos) hr.returned
      have hfile : g.alloc.file = (f.alloc.file.allocateNewBlock .schema).2 := by
        rw [hstep]
        rfl
      refine .new r g hmore hne hr hg ?_ (fun n => by rw [hfile, havailable]) ?_
      · rw [sizePerPage, sizePerPage, hfile, hr.pageSize]
      · intro fuel
        rw [heq, hg, Option.bind_some]
    · have hnone' : ((f.page b s (f.pageBytes remainingSize) pos).alloc.file.allocateNewBlock .schema).1 = none := hnone
      refine .throws hmore hnever fun fuel => ?_
      rw [heq, allocateNewBlock, hnone', Option.map_none, Option.bind_none]
  · simp only [if_neg hnull] at heq
    obtain ⟨_, k, -, -, rfl⟩ := hk.eq_cons hnull
    have hschema : (f.page b s (f.pageBytes remainingSize) pos).isSchema (f.nextSchemaBlock s) = true :=
      h.chain.schema _ (List.mem_cons_of_mem _ List.mem_cons_self)
    simp only [if_pos hschema] at heq
    exact .old hmore hnull rfl heq

/-- The blocks that `n` bytes take. -/
def pagesNeeded (f : SchemaFile) (n : Nat) : Nat := (n - 1) / f.sizePerPage + 1

theorem Ready.sizePerPage_pos (h : Ready f) : 0 < f.sizePerPage := Nat.sub_pos_of_lt h.pageSize

theorem pagesNeeded_last {n : Nat} (hpos : 0 < f.sizePerPage) (hn : n ≤ f.sizePerPage) : f.pagesNeeded n = 1 := by
  rw [pagesNeeded, Nat.div_eq_of_lt (by omega)]

theorem pagesNeeded_more {n : Nat} (hpos : 0 < f.sizePerPage) (hn : f.sizePerPage < n) :
    f.pagesNeeded n = f.pagesNeeded (n - f.sizePerPage) + 1 := by
  have hsub : n - 1 = n - f.sizePerPage - 1 + f.sizePerPage := by omega
  rw [pagesNeeded, hsub, Nat.add_div_right _ hpos, pagesNeeded]

theorem pagesNeeded_setNext {g : SchemaFile} (h : g.sizePerPage = f.sizePerPage) (n : Nat) :
    (g.setNextSchemaBlock s r).pagesNeeded n = f.pagesNeeded n := by
  rw [pagesNeeded, pagesNeeded, ← h]
  rfl

/-- When the loop returns, the blocks that it needs were available, and the buffer is stored. -/
theorem Writing.of_return (h : Writing b L m dest f s rest pos remainingSize) {fuel : Nat}
    (hrun : setSchemaFrom b fuel f s pos remainingSize = some f') :
    Allocation.Available f.alloc.file (f.pagesNeeded remainingSize - (rest.length + 1)) ∧
      Stored b m dest f s (s :: rest) pos remainingSize f' := by
  induction fuel generalizing f s rest pos remainingSize with
  | zero => cases hrun
  | succ fuel ih =>
    have hpos := h.ready.sizePerPage_pos
    have hsize (hmore : f.sizePerPage < remainingSize) : f.pageBytes remainingSize = f.sizePerPage := Nat.min_eq_left hmore.le
    cases h.iteration with
    | last hlast heq =>
      rw [heq] at hrun
      refine ⟨?_, h.stored_last hlast hrun⟩
      obtain ⟨l, hl, -⟩ := h.ready.partitioned
      rw [pagesNeeded_last hpos hlast, Nat.sub_eq_zero_of_le (Nat.succ_le_succ (Nat.zero_le _))]
      exact ⟨l, hl, fun r hr => by simp at hr⟩
    | old hmore hs' hnext heq =>
      rw [heq] at hrun
      obtain ⟨havailable, hstored⟩ := ih (h.next_old hmore) hrun
      refine ⟨?_, h.stored_old hs' hnext hstored⟩
      rw [hsize hmore] at havailable
      rw [pagesNeeded_more hpos hmore, List.length_cons, Nat.add_sub_add_right]
      exact havailable
    | new r g hmore hne hr hg hpage havailable heq =>
      rw [heq] at hrun
      obtain ⟨hrest, hstored⟩ := ih (h.next_new hmore hr hg) hrun
      refine ⟨?_, h.stored_new hr hne hg hstored⟩
      rw [hsize hmore, pagesNeeded_setNext hpage] at hrest
      rw [pagesNeeded_more hpos hmore]
      exact (havailable _).mpr hrest
    | throws hmore hnever heq =>
      rw [heq] at hrun
      cases hrun

/-- When they are available, it returns. -/
theorem Writing.returns (h : Writing b L m dest f s rest pos remainingSize)
    (havailable : Allocation.Available f.alloc.file (f.pagesNeeded remainingSize - (rest.length + 1))) :
    ∃ fuel f', setSchemaFrom b fuel f s pos remainingSize = some f' := by
  induction remainingSize using Nat.strongRecOn generalizing f s rest pos with
  | ind remainingSize ih =>
    have hpos := h.ready.sizePerPage_pos
    have hsize (hmore : f.sizePerPage < remainingSize) : f.pageBytes remainingSize = f.sizePerPage := Nat.min_eq_left hmore.le
    cases h.iteration with
    | last hlast heq =>
      obtain ⟨hready, hchain⟩ := h.behind
      refine ⟨rest.length + 1 + 1, ?_⟩
      rw [heq, freeChain_eq hready hchain, if_pos (Nat.lt_succ_self _)]
      exact ⟨_, rfl⟩
    | old hmore hs' hnext heq =>
      rw [pagesNeeded_more hpos hmore, List.length_cons, Nat.add_sub_add_right] at havailable
      rw [← hsize hmore] at havailable
      obtain ⟨fuel, f', hrun⟩ := ih _ (by have := hsize hmore; omega) (h.next_old hmore) havailable
      exact ⟨fuel + 1, f', by rw [heq, hrun]⟩
    | new r g hmore hne hr hg hpage hiff heq =>
      rw [pagesNeeded_more hpos hmore, List.length_nil, Nat.zero_add, Nat.add_sub_cancel] at havailable
      have hrest : Allocation.Available (g.setNextSchemaBlock s r).alloc.file
          ((g.setNextSchemaBlock s r).pagesNeeded (remainingSize - f.pageBytes remainingSize) - 1) := by
        rw [pagesNeeded_setNext hpage, hsize hmore]
        exact (hiff _).mp havailable
      obtain ⟨fuel, f', hrun⟩ := ih _ (by have := hsize hmore; omega) (h.next_new hmore hr hg) hrest
      exact ⟨fuel + 1, f', by rw [heq, hrun]⟩
    | throws hmore hnever heq =>
      rw [pagesNeeded_more hpos hmore, List.length_nil, Nat.zero_add, Nat.add_sub_cancel] at havailable
      exact absurd havailable (hnever _)

/-! ### Schemata -/

/-- `set_schema()` returns, `get_schema()` gives the bytes of the buffer, and the pages stay partitioned: the blocks of the old
    chain that are not in the new one are free, and no block of the new chain is. -/
def Stores (b : VirtualBuffer) (s : Reference) (old : List Reference) (f : SchemaFile) : Prop :=
  ∃ fuel f', f.setSchema fuel b s = some f' ∧ (∃ fuel v, f'.getSchema fuel s = some v ∧ v.bytes f' = b.bytes f) ∧
    Allocation.Partitioned f'.alloc ∧ ∃ c, Chain f' s c ∧ ∀ r, r ∈ f'.alloc.live ↔ r ∈ c ∨ r ∈ f.alloc.live ∧ r ∉ old

/-- The blocks that a buffer refers to are in use. -/
def InUse (f : SchemaFile) (b : VirtualBuffer) : Prop := ∀ r offset size, Vbuf.block r offset size ∈ b → r ∈ f.alloc.live

/-- The cells that the buffer is copied to, as far as they are cells of the old chain. -/
def chainCells (f : SchemaFile) (old : List Reference) (k : Nat) : Option Cell := (cells f.sizePerPage old)[k]?

theorem InUse.source (h : InUse f b) {k : Nat} {a : Cell} (ha : b.source k = .cell a) : a.1 ∈ f.alloc.live := by
  induction b generalizing k with
  | nil => cases ha
  | cons p b ih =>
    unfold VirtualBuffer.source at ha
    split at ha
    · cases p with
      | data bytes => cases ha
      | block r offset size =>
        cases ha
        exact h r offset size List.mem_cons_self
    · exact ih (fun r offset size hmem => h r offset size (List.mem_cons_of_mem _ hmem)) ha

theorem nodup_cells (n : Nat) (h : l.Nodup) : (cells n l).Nodup := by
  refine List.nodup_flatMap.mpr ⟨fun r _ => ?_, h.imp fun {r r'} hne => ?_⟩
  · refine List.nodup_range.map fun i j heq => ?_
    exact (Prod.mk.inj heq).2
  · intro a ha ha'
    obtain ⟨i, -, rfl⟩ := List.mem_map.mp ha
    obtain ⟨j, -, heq⟩ := List.mem_map.mp ha'
    exact hne (Prod.mk.inj heq).1.symm

theorem chainCells_inj (h : l.Nodup) (i j : Nat) (a : Cell) (hi : f.chainCells l i = some a) (hj : f.chainCells l j = some a) :
    i = j := by
  obtain ⟨hlt, -⟩ := List.getElem?_eq_some_iff.mp hi
  exact (List.getElem?_inj hlt (nodup_cells _ h)).mp (hi.trans hj.symm)

theorem getSchema_unique {fuel fuel' : Nat} {v v' : VirtualBuffer} (h : f.getSchema fuel s = some v)
    (h' : f.getSchema fuel' s = some v') : v = v' := by
  induction fuel generalizing fuel' s v v' with
  | zero => cases h
  | succ fuel ih =>
    cases fuel' with
    | zero => cases h'
    | succ fuel' =>
      unfold getSchema at h h'
      dsimp only at h h'
      split at h
      · rename_i hnull
        rw [if_pos hnull] at h'
        exact (Option.some.inj h).symm.trans (Option.some.inj h')
      · rename_i hnull
        rw [if_neg hnull] at h'
        split at h
        · rename_i hschema
          rw [if_pos hschema] at h'
          obtain ⟨w, hw, rfl⟩ := Option.map_eq_some_iff.mp h
          obtain ⟨w', hw', rfl⟩ := Option.map_eq_some_iff.mp h'
          rw [ih hw hw']
        · cases h

theorem writing_start (hready : Ready f) (hchain : Chain f s (s :: rest)) (hb : InUse f b) {n : Nat} (hn : n ≤ b.size) :
    Writing b f.alloc.live f.data (f.chainCells (s :: rest)) f s rest 0 n :=
  ⟨hready, hchain, by omega, fun _ _ _ ha => hb.source ha, fun _ hr => hr, fun _ _ => rfl,
    .inl ⟨hchain.live, fun k _ => by rw [Nat.zero_add, chainCells]⟩⟩

/-- What is stored is the buffer when all of it is copied and nothing is disturbed. -/
theorem copied_eq_bytes_iff (h : l.Nodup) {n : Nat} :
    ((List.range n).map fun k => Copy.copied f.data b.source (f.chainCells l) (0 + k)) = b.bytes f ↔
      n = b.size ∧ Copy.Undisturbed f.data b.source (f.chainCells l) b.size := by
  simp only [Nat.zero_add, VirtualBuffer.bytes]
  constructor
  · intro heq
    obtain rfl : n = b.size := by simpa using congrArg List.length heq
    refine ⟨rfl, (Copy.copied_eq_iff (chainCells_inj h)).mp fun k hk => ?_⟩
    exact List.map_inj_left.mp heq k (List.mem_range.mpr hk)
  · rintro ⟨rfl, hundisturbed⟩
    exact List.map_congr_left fun k hk => (Copy.copied_eq_iff (chainCells_inj h)).mpr hundisturbed k (List.mem_range.mp hk)

theorem Stores.storable (hready : Ready f) (hchain : Chain f s (s :: rest)) (hb : InUse f b) (h : Stores b s (s :: rest) f) :
    b.size < 2 ^ 32 ∧ Allocation.Available f.alloc.file (f.pagesNeeded b.size - (s :: rest).length) ∧
      Copy.Undisturbed f.data b.source (f.chainCells (s :: rest)) b.size := by
  obtain ⟨fuel, f', hrun, ⟨fuel', v, hget, hbytes⟩, -⟩ := h
  obtain ⟨havailable, hstored⟩ := (writing_start hready hchain hb (Nat.mod_le _ _)).of_return hrun
  obtain ⟨fuel'', w, hget', hcopied⟩ := hstored.reads
  rw [getSchema_unique hget' hget, hbytes] at hcopied
  obtain ⟨hsize, hundisturbed⟩ := (copied_eq_bytes_iff hchain.linked.nodup).mp hcopied.symm
  rw [hsize] at havailable
  exact ⟨hsize ▸ Nat.mod_lt _ (by decide), havailable, hundisturbed⟩

/-- A buffer is stored exactly when its size is a `std::uint32_t`, the blocks that it needs were never in use, and it refers to no
    byte of the old chain that is overwritten with another one before it is copied. -/
theorem stores_iff (hready : Ready f) (hchain : Chain f s (s :: rest)) (hb : InUse f b) : Stores b s (s :: rest) f ↔
    b.size < 2 ^ 32 ∧ Allocation.Available f.alloc.file (f.pagesNeeded b.size - (s :: rest).length) ∧
      Copy.Undisturbed f.data b.source (f.chainCells (s :: rest)) b.size := by
  refine ⟨Stores.storable hready hchain hb, ?_⟩
  rintro ⟨hsize, havailable, hundisturbed⟩
  have hwriting := writing_start hready hchain hb (n := b.size) le_rfl
  obtain ⟨fuel, f', hrun⟩ := hwriting.returns havailable
  obtain ⟨-, hpartitioned, hnew, ⟨fuel', v, hget, hcopied⟩, -⟩ := hwriting.of_return hrun
  refine ⟨fuel, f', ?_, ⟨fuel', v, hget, ?_⟩, hpartitioned, hnew⟩
  · rw [setSchema, Nat.mod_eq_of_lt hsize]
    exact hrun
  · rw [hcopied]
    exact (copied_eq_bytes_iff hchain.linked.nodup).mpr ⟨rfl, hundisturbed⟩

/-! ### Files with one block and with a block that was freed -/

/-- A file whose `SCHM` blocks are new. -/
def newBlocks (alloc : Allocation) : SchemaFile where
  alloc := alloc
  size _ := 0
  nextSchemaBlock _ := nullFileAddr
  data _ := 0

theorem chain_newBlocks {a : Allocation} (hnull : s ≠ nullFileAddr) (hlive : s ∈ a.live)
    (hschema : a.file.getBlock s = some (.used .schema)) : Chain (newBlocks a) s [s] := by
  refine ⟨.cons hnull rfl .nil, fun r hr => ?_, fun r hr => ?_⟩
  · rw [List.mem_singleton.mp hr]
    exact hlive
  · rw [List.mem_singleton.mp hr]
    exact decide_eq_true hschema

theorem size_data (bytes : List UInt8) : VirtualBuffer.size [.data bytes] = bytes.length := by
  simp [VirtualBuffer.size, Vbuf.size]

theorem source_data (bytes : List UInt8) (k : Nat) : VirtualBuffer.source [.data bytes] k = .value (bytes.getD k 0) := by
  unfold VirtualBuffer.source
  split
  · rfl
  · rename_i hk
    rw [VirtualBuffer.source, List.getD_eq_getElem?_getD, List.getElem?_eq_none (Nat.le_of_not_lt hk), Option.getD_none]

theorem inUse_data (f : SchemaFile) (bytes : List UInt8) : InUse f [.data bytes] := by
  intro r offset size hmem
  simp at hmem

def oneBlock : Allocation := (Allocation.start 4096 (Nat.succ_pos 4095)).step (.allocate .schema)

theorem partitioned_oneBlock : Allocation.Partitioned oneBlock :=
  (Allocation.partitioned_start 4096 (Nat.succ_pos 4095)).allocate (Allocation.start_pages_ne_nil 4096 (Nat.succ_pos 4095)) rfl

/-- Three bytes fit in the block. -/
theorem stores_iff_oneBlock : Stores [.data [1, 2, 3]] 4096 [4096] (newBlocks oneBlock) := by
  have hready : Ready (newBlocks oneBlock) := ⟨partitioned_oneBlock, by decide, by decide⟩
  refine (stores_iff hready (chain_newBlocks (by decide) (by decide) (by decide)) (inUse_data _ _)).mpr ⟨by decide, ?_, ?_⟩
  · obtain ⟨l, hl, -⟩ := partitioned_oneBlock
    exact ⟨l, hl, fun r hr => by cases hr⟩
  · intro k hk i hi a hsrc
    rw [source_data] at hsrc
    cases hsrc

/-- A second block was in use and is free again. -/
def freedBlock : Allocation := (oneBlock.step (.allocate .schema)).step (.free 8192)

/-- A schema that takes two blocks cannot be stored: the second block would be the one that was freed. -/
theorem not_stores : ¬ ∀ (f : SchemaFile) (b : VirtualBuffer) (s : Reference) (rest : List Reference), Ready f →
    Chain f s (s :: rest) → InUse f b → Stores b s (s :: rest) f := by
  intro hall
  have htwo : Allocation.Partitioned (oneBlock.step (.allocate .schema)) := partitioned_oneBlock.allocate (by decide) rfl
  have hready : Ready (newBlocks freedBlock) := ⟨htwo.free (by decide), by decide, by decide⟩
  have hchain : Chain (newBlocks freedBlock) 4096 [4096] := chain_newBlocks (by decide) (by decide) (by decide)
  have hb := inUse_data (newBlocks freedBlock) (List.replicate 5000 0)
  obtain ⟨-, havailable, -⟩ := (hall _ _ _ _ hready hchain hb).storable hready hchain hb
  have hpage : (newBlocks freedBlock).sizePerPage = 4076 := by decide
  rw [pagesNeeded, size_data, List.length_replicate, hpage] at havailable
  have hthrows : (freedBlock.file.allocateNewBlock .schema).1 = none := by
    have hpage : Allocation.IsPage (oneBlock.step (.allocate .schema)).file 8192 := ⟨2, by decide, by decide, by decide⟩
    have hused : (oneBlock.step (.allocate .schema)).file.getBlock 8192 = some (.used .schema) := by decide
    exact congrArg Prod.fst (Allocation.allocateNewBlock_freeBlock hpage hused .schema)
  rcases hready.partitioned.allocate_cases hready.pages (rfl : Dbtype.schema.isBlock = true) with ⟨r, hr, -⟩ | ⟨-, hnever⟩
  · have hreturned := hr.returned.symm.trans hthrows
    cases hreturned
  · exact hnever 0 havailable

end SchemaFile
end Snapwebsites.Snapdatabase
