import Mathlib.Data.Finset.Erase
import Mathlib.Data.Finset.Insert
import Snapwebsites.Lib.LinkedList
import Snapwebsites.Lib.Trace
import Snapwebsites.Snapdatabase.SchemaList

/-! # The blocks of a table file

`allocate_new_block()` and `free_block()` of a table. A file is a number of pages of one size, and page 0 holds the header with
the reference to the first free block; a free block holds the reference to the next one. What a block in use holds behind its
type is left out, and so is the mapping of the pages in memory. `append_free_block()` adds one page. -/

namespace Snapwebsites.Snapdatabase

inductive Dbtype
  | unknown
  | snapDatabaseTable | externalIndex | bloomFilter
  | blob | data | entryIndex | freeBlock | freeSpace | indexPointers | indirectIndex | primaryIndex | secondaryIndex | schema
  | schemaList | topIndex | topIndirectIndex
  deriving DecidableEq

namespace Dbtype

def isFile : Dbtype → Bool
  | .snapDatabaseTable | .externalIndex | .bloomFilter => true
  | _ => false

/-- Whether `allocate_block()` has a case for the type. -/
def hasBlock : Dbtype → Bool
  | .unknown | .schemaList => false
  | _ => true

/-- A block that is neither a file nor free. -/
def isBlock (type : Dbtype) : Bool := type.hasBlock && !type.isFile && type != .freeBlock

end Dbtype

/-- A page. The version is the one of the structure of the block. -/
inductive Page
  | free (version : Version) (nextFreeBlock : Reference)
  | used (type : Dbtype)
  deriving DecidableEq

/-- The version of the structure of a `FREE` block. -/
def freeBlockVersion : Version := { major := 0, minor := 1 }

/-- `firstFreeBlock` stands in the header. -/
structure TableFile where
  pageSize : Nat
  pageSize_pos : 0 < pageSize
  pages : List Page
  firstFreeBlock : Reference

namespace TableFile

def getSize (f : TableFile) : Nat := f.pages.length * f.pageSize

/-- `get_block()`; nothing when the reference is not inside the file. -/
def getBlock (f : TableFile) (offset : Reference) : Option Page := f.pages[offset / f.pageSize]?

def setPage (offset : Reference) (page : Page) (f : TableFile) : TableFile :=
  { f with pages := f.pages.set (offset / f.pageSize) page }

def setFirstFreeBlock (offset : Reference) (f : TableFile) : TableFile := { f with firstFreeBlock := offset }

def appendFreeBlock (f : TableFile) (nextFreeBlock : Reference) : TableFile :=
  { f with pages := f.pages ++ [.free freeBlockVersion nextFreeBlock] }

/-- 16 pages: the first one is for the block that is allocated, and each of the others leads to the one behind it. -/
def appendFreeBlocks (offset : Reference) (f : TableFile) : TableFile :=
  let next (idx : Nat) : Reference := offset + f.pageSize * 2 + idx * f.pageSize
  ((List.range 14).foldl (fun f idx => f.appendFreeBlock (next idx)) (f.appendFreeBlock nullFileAddr)).appendFreeBlock nullFileAddr

/-- `allocate_block()` for a page that is free or gets free: its type changes. -/
def allocateBlock (type : Dbtype) (offset : Reference) (f : TableFile) : Option Reference × TableFile :=
  if type.hasBlock then (some offset, f.setPage offset (.used type)) else (none, f)

/-- `allocate_new_block()`; no reference when it throws, and the file is what it has made of it. The block at the head of the
    list must be a free block of the version that the program knows. -/
def allocateNewBlock (type : Dbtype) (f : TableFile) : Option Reference × TableFile :=
  if type = .freeBlock then (none, f)
  else if f.getSize = 0 then
    if type.isFile then (f.appendFreeBlocks 0).allocateBlock type 0 else (none, f)
  else if type.isFile then (none, f)
  else
    let offset := f.firstFreeBlock
    if offset = nullFileAddr then
      let offset := f.getSize
      ((f.appendFreeBlocks offset).setFirstFreeBlock (offset + f.pageSize)).allocateBlock type offset
    else
      match f.getBlock offset with
      | some (.free version next) =>
        if version = freeBlockVersion then (f.setFirstFreeBlock next).allocateBlock type offset else (none, f)
      | _ => (none, f)

/-- The version of a page that is made a free block: a page whose type changes loses its version. -/
def freedVersion (offset : Reference) (f : TableFile) : Version :=
  match f.getBlock offset with
  | some (.free version _) => version
  | _ => .null

/-- `free_block()`. -/
def freeBlock (offset : Reference) (f : TableFile) : TableFile :=
  (f.setPage offset (.free (f.freedVersion offset) f.firstFreeBlock)).setFirstFreeBlock offset

/-- What `open_file()` makes of a new file. -/
def create (pageSize : Nat) (pageSize_pos : 0 < pageSize) : TableFile :=
  let f : TableFile := { pageSize, pageSize_pos, pages := [], firstFreeBlock := nullFileAddr }
  (f.allocateNewBlock .snapDatabaseTable).2.setFirstFreeBlock pageSize

end TableFile

/-! ### Runs -/

/-- A file and the blocks that were handed out and not freed. -/
structure Allocation where
  file : TableFile
  live : Finset Reference

inductive BlockEvent
  | allocate (type : Dbtype)
  | free (offset : Reference)

namespace Allocation

def step (s : Allocation) : BlockEvent → Allocation
  | .allocate type =>
    let (offset, file) := s.file.allocateNewBlock type
    { file, live := offset.elim s.live fun offset => insert offset s.live }
  | .free offset => { file := s.file.freeBlock offset, live := s.live.erase offset }

def start (pageSize : Nat) (pageSize_pos : 0 < pageSize) : Allocation :=
  { file := .create pageSize pageSize_pos, live := ∅ }

/-- Only blocks that are live are freed. -/
def FreesLive (s : Allocation) : BlockEvent → Prop
  | .allocate _ => True
  | .free offset => offset ∈ s.live

def next (f : TableFile) (offset : Reference) : Option Reference :=
  match f.getBlock offset with
  | some (.free _ next) => some next
  | _ => none

/-- The free list of the header. -/
def FreeList (f : TableFile) (l : List Reference) : Prop := Linked (next f) nullFileAddr f.firstFreeBlock l

/-- The place of a page other than page 0. -/
def IsPage (f : TableFile) (offset : Reference) : Prop := ∃ i, 0 < i ∧ i < f.pages.length ∧ offset = i * f.pageSize

/-- The free list is finite and without duplicates, and a page is either in it or live. -/
def Partitioned (s : Allocation) : Prop :=
  ∃ l, FreeList s.file l ∧ l.Nodup ∧ (∀ offset ∈ l, offset ∉ s.live) ∧
    ∀ offset, IsPage s.file offset ↔ offset ∈ l ∨ offset ∈ s.live

/-- No live block is handed out, and the pages are partitioned afterwards. -/
def Sound (s : Allocation) (e : BlockEvent) : Prop :=
  (∀ type offset, e = .allocate type → (s.file.allocateNewBlock type).1 = some offset → offset ∉ s.live) ∧ Partitioned (s.step e)

/-- The type that is allocated has a block, or the call throws before it takes a page, because the first free block is one
    that was in use. -/
def Made (s : Allocation) : BlockEvent → Prop
  | .allocate type => type.hasBlock = true ∨ s.file.firstFreeBlock ≠ nullFileAddr ∧
      ∀ next, s.file.getBlock s.file.firstFreeBlock ≠ some (.free freeBlockVersion next)
  | .free _ => True

/-! ### The pages -/

variable {f : TableFile} {s : Allocation} {l : List Reference} {live : Finset Reference} {offset : Reference} {type : Dbtype}

theorem div_pageSize (f : TableFile) (i : Nat) : i * f.pageSize / f.pageSize = i := Nat.mul_div_cancel i f.pageSize_pos

theorem IsPage.div (h : IsPage f offset) : 0 < offset / f.pageSize ∧ offset / f.pageSize < f.pages.length ∧
    offset = offset / f.pageSize * f.pageSize := by
  obtain ⟨i, hpos, hlt, rfl⟩ := h
  rw [div_pageSize]
  exact ⟨hpos, hlt, rfl⟩

theorem IsPage.ne_null (h : IsPage f offset) : offset ≠ nullFileAddr := by
  rintro rfl
  have hpos := h.div.1
  simp [nullFileAddr] at hpos

/-- Two pages are the same when they have the same number. -/
theorem IsPage.eq_of_div (h : IsPage f offset) {r : Reference} (hr : IsPage f r) (heq : r / f.pageSize = offset / f.pageSize) :
    r = offset := by
  rw [hr.div.2.2, h.div.2.2, heq]

theorem getBlock_setPage (f : TableFile) (offset r : Reference) (page : Page) (h : r / f.pageSize ≠ offset / f.pageSize) :
    (f.setPage offset page).getBlock r = f.getBlock r := by
  unfold TableFile.setPage TableFile.getBlock
  exact List.getElem?_set_ne (Ne.symm h)

theorem getBlock_setPage_self (f : TableFile) (page : Page) (h : IsPage f offset) :
    (f.setPage offset page).getBlock offset = some page := by
  unfold TableFile.setPage TableFile.getBlock
  exact List.getElem?_set_self h.div.2.1

@[simp] theorem isPage_setPage {page : Page} {r : Reference} : IsPage (f.setPage r page) offset ↔ IsPage f offset := by
  simp [IsPage, TableFile.setPage]

@[simp] theorem isPage_setFirstFreeBlock {r : Reference} : IsPage (f.setFirstFreeBlock r) offset ↔ IsPage f offset := Iff.rfl

theorem freeList_of_linked {r : Reference} (h : Linked (next f) nullFileAddr r l) : FreeList (f.setFirstFreeBlock r) l := h

theorem FreeList.setPage (h : FreeList f l) {page : Page} (hne : ∀ r ∈ l, r / f.pageSize ≠ offset / f.pageSize) :
    FreeList (f.setPage offset page) l := by
  refine Linked.congr h fun r hr => ?_
  unfold next
  rw [getBlock_setPage f offset r page (hne r hr)]

/-! ### New pages -/

theorem appendFreeBlock_fold (refs : List Nat) (link : Nat → Reference) :
    ∀ f : TableFile, refs.foldl (fun f idx => f.appendFreeBlock (link idx)) f =
      { f with pages := f.pages ++ refs.map fun idx => .free freeBlockVersion (link idx) } := by
  induction refs with
  | nil => simp
  | cons idx refs ih =>
    intro f
    rw [List.foldl_cons, ih]
    simp [TableFile.appendFreeBlock]

/-- The reference in the `i`-th of 16 new pages. -/
def newLink (offset pageSize i : Nat) : Reference := if 0 < i ∧ i < 15 then offset + (i + 1) * pageSize else nullFileAddr

theorem appendFreeBlocks_eq (f : TableFile) (offset : Reference) : f.appendFreeBlocks offset =
    { f with pages := f.pages ++ (List.range 16).map fun i => .free freeBlockVersion (newLink offset f.pageSize i) } := by
  have hlink (idx : Nat) : offset + f.pageSize * 2 + idx * f.pageSize = offset + (idx + 2) * f.pageSize := by
    rw [Nat.add_assoc, Nat.mul_comm f.pageSize 2, ← Nat.add_mul, Nat.add_comm 2 idx]
  simp only [TableFile.appendFreeBlocks, hlink, appendFreeBlock_fold]
  simp [TableFile.appendFreeBlock, List.range_succ, newLink, nullFileAddr]

theorem getBlock_appendFreeBlocks (f : TableFile) (offset : Reference) {i : Nat} (hi : i < 16) :
    (f.appendFreeBlocks offset).getBlock ((f.pages.length + i) * f.pageSize) =
      some (.free freeBlockVersion (newLink offset f.pageSize i)) := by
  rw [appendFreeBlocks_eq, TableFile.getBlock]
  simp only
  rw [div_pageSize, List.getElem?_append_right (Nat.le_add_right _ _), Nat.add_sub_cancel_left, List.getElem?_map,
    List.getElem?_range hi, Option.map_some]

/-- The pages behind the first one of 16 new pages. -/
def newList (f : TableFile) : List Reference := (List.range 15).map fun i => (f.pages.length + 1 + i) * f.pageSize

theorem mem_newList {r : Reference} : r ∈ newList f ↔ ∃ i, f.pages.length < i ∧ i < f.pages.length + 16 ∧
    r = i * f.pageSize := by
  simp only [newList, List.mem_map, List.mem_range]
  constructor
  · rintro ⟨i, hi, rfl⟩
    exact ⟨_, by omega, by omega, rfl⟩
  · rintro ⟨i, hlt, hi, rfl⟩
    exact ⟨i - (f.pages.length + 1), by omega, by congr 1; omega⟩

/-- What leads to the pages behind the first one, from the header and from one another. -/
def newReference (f : TableFile) (i : Nat) : Reference :=
  if i < 15 then (f.pages.length + 1 + i) * f.pageSize else nullFileAddr

theorem newReference_ne_null {i : Nat} (hi : i < 15) : newReference f i ≠ nullFileAddr := by
  rw [newReference, if_pos hi, Nat.add_right_comm]
  exact Nat.ne_of_gt (Nat.mul_pos (Nat.succ_pos _) f.pageSize_pos)

theorem next_newReference {i : Nat} (hi : i < 15) :
    next (f.appendFreeBlocks f.getSize) (newReference f i) = some (newReference f (i + 1)) := by
  have hblock := getBlock_appendFreeBlocks f f.getSize (Nat.succ_lt_succ hi)
  rw [newReference, if_pos hi, next, Nat.add_assoc, Nat.add_comm 1 i, hblock, newReference, newLink]
  by_cases hlast : i + 1 < 15
  · have hadd : f.pages.length + (i + 1 + 1) = f.pages.length + 1 + (i + 1) := by omega
    rw [if_pos hlast, if_pos ⟨i.succ_pos, hlast⟩, TableFile.getSize, ← Nat.add_mul, hadd]
  · rw [if_neg hlast, if_neg fun h => hlast h.2]

/-- The new pages are linked, whatever stands in the header. -/
theorem linked_newList (f : TableFile) :
    Linked (next (f.appendFreeBlocks f.getSize)) nullFileAddr (f.getSize + f.pageSize) (newList f) := by
  have hhead : f.getSize + f.pageSize = newReference f 0 := by
    simp [newReference, TableFile.getSize, Nat.add_mul]
  have hlist : newList f = (List.range 15).map (newReference f) :=
    List.map_congr_left fun i hi => (if_pos (List.mem_range.mp hi)).symm
  rw [hhead, hlist]
  exact Linked.of_range (fun i hi => newReference_ne_null hi) (if_neg (Nat.lt_irrefl 15)) fun i hi => next_newReference hi

theorem isPage_appendFreeBlocks (f : TableFile) (hne : f.pages ≠ []) (r offset : Reference) :
    IsPage (f.appendFreeBlocks r) offset ↔ offset ∈ newList f ∨ offset = f.getSize ∨ IsPage f offset := by
  have hpos := List.length_pos_of_ne_nil hne
  rw [appendFreeBlocks_eq, mem_newList]
  simp only [IsPage, List.length_append, List.length_map, List.length_range, TableFile.getSize]
  constructor
  · rintro ⟨i, hi, hlt, rfl⟩
    rcases Nat.lt_trichotomy i f.pages.length with h | rfl | h
    · exact .inr (.inr ⟨i, hi, h, rfl⟩)
    · exact .inr (.inl rfl)
    · exact .inl ⟨i, h, hlt, rfl⟩
  · rintro (⟨i, h, hlt, rfl⟩ | rfl | ⟨i, hi, h, rfl⟩)
    · exact ⟨i, by omega, hlt, rfl⟩
    · exact ⟨_, hpos, by omega, rfl⟩
    · exact ⟨i, hi, by omega, rfl⟩

/-! ### Allocating and freeing -/

/-- A page that is taken out of the free list and is not handed out yet. -/
def Taken (f : TableFile) (live : Finset Reference) (offset : Reference) : Prop :=
  ∃ l, FreeList f l ∧ offset ∉ l ∧ offset ∉ live ∧ (∀ r ∈ l, r ∉ live) ∧ ∀ r, IsPage f r ↔ r ∈ l ∨ r = offset ∨ r ∈ live

/-- Such a page is lost when its type has no block. -/
theorem Taken.partitioned_iff (h : Taken f live offset) : Partitioned
    { file := (f.allocateBlock type offset).2, live := (f.allocateBlock type offset).1.elim live fun r => insert r live } ↔
      type.hasBlock = true := by
  obtain ⟨l, hlist, hmem, hlive, hdisjoint, hpages⟩ := h
  have hpage : IsPage f offset := (hpages offset).mpr (.inr (.inl rfl))
  cases hblock : type.hasBlock with
  | true =>
    refine iff_of_true ⟨l, ?_, hlist.nodup, fun r hr => ?_, fun r => ?_⟩ rfl
    · rw [TableFile.allocateBlock, if_pos hblock]
      exact hlist.setPage fun r hr heq => hmem (hpage.eq_of_div ((hpages r).mpr (.inl hr)) heq ▸ hr)
    · simp only [TableFile.allocateBlock, hblock, if_true, Option.elim_some, Finset.mem_insert, not_or]
      exact ⟨fun heq => hmem (heq ▸ hr), hdisjoint r hr⟩
    · simp [TableFile.allocateBlock, hblock, hpages]
  | false =>
    refine iff_of_false ?_ Bool.false_ne_true
    rintro ⟨k, hk, -, -, hall⟩
    simp only [TableFile.allocateBlock, hblock, Bool.false_eq_true, if_false, Option.elim_none] at hk hall
    rcases (hall offset).mp hpage with hin | hin
    · exact hmem (hk.unique hlist ▸ hin)
    · exact hlive hin

/-- When the list is empty, the first one of the new pages is taken. -/
theorem Partitioned.taken_new (h : Partitioned s) (hne : s.file.pages ≠ []) (hnull : s.file.firstFreeBlock = nullFileAddr) :
    Taken ((s.file.appendFreeBlocks s.file.getSize).setFirstFreeBlock (s.file.getSize + s.file.pageSize)) s.live
      s.file.getSize := by
  obtain ⟨l, hlist, -, -, hpages⟩ := h
  have hempty : l = [] := by
    unfold FreeList at hlist
    rw [hnull] at hlist
    exact hlist.null_nil
  subst hempty
  simp only [List.not_mem_nil, false_or] at hpages
  have hold : ∀ r ∈ s.live, r < s.file.getSize := by
    intro r hr
    obtain ⟨i, -, hlt, rfl⟩ := (hpages r).mpr hr
    exact Nat.mul_lt_mul_of_pos_right hlt s.file.pageSize_pos
  have hnew : ∀ r ∈ newList s.file, s.file.getSize < r := by
    intro r hr
    obtain ⟨i, hlt, -, rfl⟩ := mem_newList.mp hr
    exact Nat.mul_lt_mul_of_pos_right hlt s.file.pageSize_pos
  refine ⟨newList s.file, freeList_of_linked (linked_newList s.file), fun hmem => Nat.lt_irrefl _ (hnew _ hmem), fun hmem => Nat.lt_irrefl _ (hold _ hmem),
    fun r hr hmem => Nat.lt_asymm (hold r hmem) (hnew r hr), fun r => ?_⟩
  rw [isPage_setFirstFreeBlock, isPage_appendFreeBlocks _ hne, hpages]

/-- Otherwise its head is taken. -/
theorem Partitioned.taken_head (h : Partitioned s) (hne : s.file.firstFreeBlock ≠ nullFileAddr) : ∃ version link,
    s.file.getBlock s.file.firstFreeBlock = some (.free version link) ∧
      Taken (s.file.setFirstFreeBlock link) s.live s.file.firstFreeBlock := by
  obtain ⟨l, hlist, -, hdisjoint, hpages⟩ := h
  obtain ⟨link, k, hlink, hk, rfl⟩ := hlist.eq_cons hne
  have hmem := (List.nodup_cons.mp hlist.nodup).1
  have htaken : Taken (s.file.setFirstFreeBlock link) s.live s.file.firstFreeBlock := by
    refine ⟨k, freeList_of_linked hk, hmem, hdisjoint _ List.mem_cons_self, fun r hr => hdisjoint r (List.mem_cons_of_mem _ hr), fun r => ?_⟩
    rw [isPage_setFirstFreeBlock, hpages, List.mem_cons, or_comm (a := r = _), or_assoc]
  unfold next at hlink
  split at hlink
  · rename_i version _ hblock
    cases hlink
    exact ⟨version, link, hblock, htaken⟩
  · cases hlink

/-- A call throws and changes nothing, or it takes a page. -/
theorem Partitioned.allocateNewBlock_cases (h : Partitioned s) (hne : s.file.pages ≠ []) (type : Dbtype) :
    (s.file.allocateNewBlock type = (none, s.file) ∧ Made s (.allocate type)) ∨
    ∃ f offset, Taken f s.live offset ∧ f.pages ≠ [] ∧ s.file.allocateNewBlock type = f.allocateBlock type offset ∧
      (Made s (.allocate type) ↔ type.hasBlock = true) := by
  unfold TableFile.allocateNewBlock
  have hsize : s.file.getSize ≠ 0 :=
    Nat.ne_of_gt (Nat.mul_pos (List.length_pos_of_ne_nil hne) s.file.pageSize_pos)
  by_cases hfree : type = .freeBlock
  · rw [if_pos hfree]
    exact .inl ⟨rfl, .inl (by rw [hfree]; rfl)⟩
  by_cases hfile : type.isFile = true
  · rw [if_neg hfree, if_neg hsize, if_pos hfile]
    exact .inl ⟨rfl, .inl (by cases type <;> first | rfl | cases hfile)⟩
  rw [if_neg hfree, if_neg hsize, if_neg hfile]
  by_cases hnull : s.file.firstFreeBlock = nullFileAddr
  · simp only [if_pos hnull]
    refine .inr ⟨_, _, h.taken_new hne hnull, ?_, rfl, fun h => h.resolve_right fun h => h.1 hnull, .inl⟩
    rw [appendFreeBlocks_eq]
    exact List.append_ne_nil_of_left_ne_nil hne _
  · obtain ⟨version, link, hblock, htaken⟩ := h.taken_head hnull
    simp only [if_neg hnull, hblock]
    by_cases hversion : version = freeBlockVersion
    · rw [if_pos hversion]
      refine .inr ⟨_, _, htaken, hne, rfl, fun h => h.resolve_right fun h => h.2 link ?_, .inl⟩
      rw [hblock, hversion]
    · rw [if_neg hversion]
      refine .inl ⟨rfl, .inr ⟨hnull, fun next heq => hversion ?_⟩⟩
      rw [hblock] at heq
      cases heq
      rfl

theorem step_allocate (s : Allocation) (type : Dbtype) : s.step (.allocate type) =
    { file := (s.file.allocateNewBlock type).2
      live := (s.file.allocateNewBlock type).1.elim s.live fun offset => insert offset s.live } := rfl

theorem allocateBlock_eq_some {r : Reference} (h : (f.allocateBlock type offset).1 = some r) : r = offset := by
  unfold TableFile.allocateBlock at h
  split at h
  · exact (Option.some.inj h).symm
  · cases h

theorem Partitioned.sound_allocate_iff (h : Partitioned s) (hne : s.file.pages ≠ []) :
    Sound s (.allocate type) ↔ Made s (.allocate type) := by
  unfold Sound
  rw [step_allocate]
  rcases h.allocateNewBlock_cases hne type with ⟨heq, hmade⟩ | ⟨f, offset, htaken, -, heq, hmade⟩
  · refine iff_of_true ⟨fun type' r hevent hr => ?_, ?_⟩ hmade
    · cases hevent
      rw [heq] at hr
      cases hr
    · rw [heq]
      exact h
  · rw [hmade, ← htaken.partitioned_iff, heq]
    refine and_iff_right fun type' r hevent hr => ?_
    cases hevent
    rw [heq] at hr
    obtain ⟨-, -, -, hlive, -⟩ := htaken
    rw [allocateBlock_eq_some hr]
    exact hlive

theorem Partitioned.allocate (h : Partitioned s) (hne : s.file.pages ≠ []) (htype : type.hasBlock = true) :
    Partitioned (s.step (.allocate type)) := ((h.sound_allocate_iff hne).mpr (.inl htype)).2

/-- A live block that is freed is the new head of the list. -/
theorem Partitioned.free (h : Partitioned s) (hlive : offset ∈ s.live) : Partitioned (s.step (.free offset)) := by
  obtain ⟨l, hlist, hnodup, hdisjoint, hpages⟩ := h
  have hpage : IsPage s.file offset := (hpages offset).mpr (.inr hlive)
  have hmem : offset ∉ l := fun hmem => hdisjoint offset hmem hlive
  have hnext : next (s.file.freeBlock offset) offset = some s.file.firstFreeBlock := by
    have hblock := getBlock_setPage_self s.file (.free (s.file.freedVersion offset) s.file.firstFreeBlock) hpage
    unfold next
    change (match (s.file.setPage offset _).getBlock offset with | some (.free _ next) => some next | _ => none) = _
    rw [hblock]
  have htail : Linked (next (s.file.freeBlock offset)) nullFileAddr s.file.firstFreeBlock l :=
    FreeList.setPage hlist fun r hr heq => hmem (hpage.eq_of_div ((hpages r).mpr (.inl hr)) heq ▸ hr)
  refine ⟨offset :: l, .cons hpage.ne_null hnext htail, List.nodup_cons.mpr ⟨hmem, hnodup⟩, fun r hr => ?_, fun r => ?_⟩
  · simp only [step, Finset.mem_erase, not_and]
    rcases List.mem_cons.mp hr with rfl | hr
    · exact fun hne => absurd rfl hne
    · exact fun _ => hdisjoint r hr
  · simp only [step, TableFile.freeBlock, isPage_setFirstFreeBlock, isPage_setPage, hpages, List.mem_cons, Finset.mem_erase]
    by_cases heq : r = offset
    · simp [heq, hlive]
    · simp [heq]

theorem step_pages_ne_nil (h : Partitioned s) (hne : s.file.pages ≠ []) (e : BlockEvent) : (s.step e).file.pages ≠ [] := by
  cases e with
  | allocate type =>
    rw [step_allocate]
    rcases h.allocateNewBlock_cases hne type with ⟨heq, -⟩ | ⟨f, offset, -, hf, heq, -⟩
    · rw [heq]
      exact hne
    · rw [heq, TableFile.allocateBlock]
      split
      · simpa [TableFile.setPage] using hf
      · exact hf
  | free offset => simpa [step, TableFile.freeBlock, TableFile.setFirstFreeBlock, TableFile.setPage] using hne

/-! ### From a new file -/

/-- A file without pages. -/
def noPages (pageSize : Nat) (pageSize_pos : 0 < pageSize) : TableFile :=
  { pageSize, pageSize_pos, pages := [], firstFreeBlock := nullFileAddr }

theorem start_file (pageSize : Nat) (pageSize_pos : 0 < pageSize) : (start pageSize pageSize_pos).file =
    (((noPages pageSize pageSize_pos).appendFreeBlocks 0).setFirstFreeBlock pageSize).setPage 0 (.used .snapDatabaseTable) := by
  simp [start, TableFile.create, TableFile.allocateNewBlock, noPages, TableFile.getSize, Dbtype.isFile, TableFile.allocateBlock,
    Dbtype.hasBlock, TableFile.setFirstFreeBlock, TableFile.setPage]

theorem partitioned_start (pageSize : Nat) (pageSize_pos : 0 < pageSize) : Partitioned (start pageSize pageSize_pos) := by
  have hlinked := linked_newList (noPages pageSize pageSize_pos)
  have hsize : (noPages pageSize pageSize_pos).getSize = 0 := Nat.zero_mul pageSize
  rw [hsize, Nat.zero_add] at hlinked
  have hlist : FreeList (start pageSize pageSize_pos).file (newList (noPages pageSize pageSize_pos)) := by
    rw [start_file]
    refine FreeList.setPage (freeList_of_linked hlinked) fun r hr heq => ?_
    obtain ⟨i, hi, -, rfl⟩ := mem_newList.mp hr
    have hdiv : i * pageSize / pageSize = 0 / pageSize := heq
    rw [Nat.mul_div_cancel i pageSize_pos, Nat.zero_div] at hdiv
    exact Nat.ne_of_gt hi hdiv
  refine ⟨_, hlist, hlist.nodup, fun r _ => Finset.notMem_empty r, fun r => ?_⟩
  rw [start_file, isPage_setPage, isPage_setFirstFreeBlock, appendFreeBlocks_eq, mem_newList]
  simp [IsPage, noPages, start]

theorem start_pages_ne_nil (pageSize : Nat) (pageSize_pos : 0 < pageSize) : (start pageSize pageSize_pos).file.pages ≠ [] := by
  simp [start_file, appendFreeBlocks_eq, TableFile.setPage, TableFile.setFirstFreeBlock]

/-- In a run that frees live blocks only, no live block is handed out and the pages stay partitioned exactly when each
    type that takes a page has a block. -/
theorem sound_iff_made (pageSize : Nat) (pageSize_pos : 0 < pageSize) (es : List BlockEvent)
    (h : Trace.Along step FreesLive (start pageSize pageSize_pos) es) :
    Trace.Along step Sound (start pageSize pageSize_pos) es ↔ Trace.Along step Made (start pageSize pageSize_pos) es := by
  have hcongr : Trace.Along step (fun s e => FreesLive s e ∧ Sound s e) (start pageSize pageSize_pos) es ↔
      Trace.Along step (fun s e => FreesLive s e ∧ Made s e) (start pageSize pageSize_pos) es := by
    refine Trace.along_congr_of (I := fun s => Partitioned s ∧ s.file.pages ≠ [])
      ⟨partitioned_start pageSize pageSize_pos, start_pages_ne_nil pageSize pageSize_pos⟩
      (fun s e hs he => ⟨he.2.2, step_pages_ne_nil hs.1 hs.2 e⟩) fun s e hs => and_congr_right fun he => ?_
    cases e with
    | allocate type => exact hs.1.sound_allocate_iff hs.2
    | free offset => exact iff_of_true ⟨fun _ _ hevent => (by cases hevent), hs.1.free he⟩ trivial
  rw [Trace.along_and, Trace.along_and] at hcongr
  simpa only [h, true_and] using hcongr

/-- A block is allocated and freed. -/
theorem sound_iff_made_schema : Trace.Along step Sound (start 4096 (Nat.succ_pos 4095)) [.allocate .schema, .free 4096] ↔
    Trace.Along step Made (start 4096 (Nat.succ_pos 4095)) [.allocate .schema, .free 4096] := by
  have hlive : 4096 ∈ ((start 4096 (Nat.succ_pos 4095)).step (.allocate .schema)).live := by decide
  exact sound_iff_made 4096 (Nat.succ_pos 4095) _ ⟨trivial, hlive, trivial⟩

/-- The page of a list of schemata is lost. -/
theorem not_sound : ¬ ∀ pageSize pageSize_pos es, Trace.Along step FreesLive (start pageSize pageSize_pos) es →
    Trace.Along step Sound (start pageSize pageSize_pos) es := by
  intro hall
  have h := (hall 4096 (Nat.succ_pos 4095) [.allocate .schemaList] (And.intro trivial trivial)).1
  rw [(partitioned_start _ _).sound_allocate_iff (start_pages_ne_nil _ _)] at h
  obtain hblock | ⟨-, hhead⟩ := h
  · cases hblock
  · exact hhead 8192 (by decide)

theorem getBlock_freeBlock {page : Dbtype} (hpage : IsPage f offset) (hused : f.getBlock offset = some (.used page)) :
    (f.freeBlock offset).getBlock offset = some (.free .null f.firstFreeBlock) := by
  have hversion : f.freedVersion offset = .null := by
    unfold TableFile.freedVersion
    rw [hused]
  rw [← hversion]
  exact getBlock_setPage_self f _ hpage

/-- After a block that was in use is freed, every call throws: the block has no version. -/
theorem allocateNewBlock_freeBlock {page : Dbtype} (hpage : IsPage f offset) (hused : f.getBlock offset = some (.used page))
    (type : Dbtype) : (f.freeBlock offset).allocateNewBlock type = (none, f.freeBlock offset) := by
  have hhead : (f.freeBlock offset).firstFreeBlock = offset := rfl
  have hversion : Version.null ≠ freeBlockVersion := by simp [Version.null, freeBlockVersion]
  have hsize : (f.freeBlock offset).getSize ≠ 0 := by
    have hlength : (f.freeBlock offset).pages.length = f.pages.length := List.length_set
    unfold TableFile.getSize
    rw [hlength]
    exact Nat.ne_of_gt (Nat.mul_pos (Nat.lt_of_le_of_lt (Nat.zero_le _) hpage.div.2.1) f.pageSize_pos)
  unfold TableFile.allocateNewBlock
  simp only [hhead, getBlock_freeBlock hpage hused, if_neg hsize, if_neg hpage.ne_null, if_neg hversion, ite_self]

/-! ### Blocks that can be allocated -/

/-- A free block as `append_free_block()` makes it. -/
def NeverUsed (f : TableFile) (offset : Reference) : Prop := ∃ next, f.getBlock offset = some (.free freeBlockVersion next)

/-- The next `n` free blocks were never in use; there are always more when the list ends. -/
def Available (f : TableFile) (n : Nat) : Prop := ∃ l, FreeList f l ∧ ∀ r ∈ l.take n, NeverUsed f r

/-- A block that is handed out: it is none of the live ones, and these are what they were. -/
structure HandedOut (s : Allocation) (type : Dbtype) (offset : Reference) : Prop where
  returned : (s.file.allocateNewBlock type).1 = some offset
  notLive : offset ∉ s.live
  block : (s.file.allocateNewBlock type).2.getBlock offset = some (.used type)
  others : ∀ r ∈ s.live, (s.file.allocateNewBlock type).2.getBlock r = s.file.getBlock r
  pageSize : (s.file.allocateNewBlock type).2.pageSize = s.file.pageSize

theorem allocateNewBlock_block (htype : type.isBlock = true) (hne : f.pages ≠ []) : f.allocateNewBlock type =
    if f.firstFreeBlock = nullFileAddr then
      (some f.getSize, ((f.appendFreeBlocks f.getSize).setFirstFreeBlock (f.getSize + f.pageSize)).setPage f.getSize (.used type))
    else
      match f.getBlock f.firstFreeBlock with
      | some (.free version next) =>
        if version = freeBlockVersion then (some f.firstFreeBlock, (f.setFirstFreeBlock next).setPage f.firstFreeBlock (.used type))
        else (none, f)
      | _ => (none, f) := by
  simp only [Dbtype.isBlock, Bool.and_eq_true, Bool.not_eq_true', bne_iff_ne, ne_eq] at htype
  obtain ⟨⟨hblock, hfile⟩, hfree⟩ := htype
  have hsize : f.getSize ≠ 0 := Nat.ne_of_gt (Nat.mul_pos (List.length_pos_of_ne_nil hne) f.pageSize_pos)
  simp [TableFile.allocateNewBlock, TableFile.allocateBlock, hfree, hfile, hblock, hsize]

@[simp] theorem getBlock_setFirstFreeBlock (f : TableFile) (r offset : Reference) :
    (f.setFirstFreeBlock r).getBlock offset = f.getBlock offset := rfl

@[simp] theorem pageSize_setFirstFreeBlock (f : TableFile) (r : Reference) : (f.setFirstFreeBlock r).pageSize = f.pageSize := rfl

@[simp] theorem pageSize_appendFreeBlocks (f : TableFile) (r : Reference) : (f.appendFreeBlocks r).pageSize = f.pageSize := by
  rw [appendFreeBlocks_eq]

theorem getBlock_appendFreeBlocks_old (h : IsPage f offset) (r : Reference) :
    (f.appendFreeBlocks r).getBlock offset = f.getBlock offset := by
  rw [appendFreeBlocks_eq, TableFile.getBlock, TableFile.getBlock]
  exact List.getElem?_append_left h.div.2.1

theorem available_iff (h : FreeList f l) {n : Nat} : Available f n ↔ ∀ r ∈ l.take n, NeverUsed f r := by
  constructor
  · rintro ⟨k, hk, hused⟩
    rwa [h.unique hk]
  · exact fun hused => ⟨l, h, hused⟩

theorem neverUsed_setPage {page : Page} {r : Reference} (hpage : IsPage f offset) (hr : IsPage f r) (hne : r ≠ offset) :
    NeverUsed (f.setPage offset page) r ↔ NeverUsed f r := by
  unfold NeverUsed
  rw [getBlock_setPage f offset r page fun heq => hne (hpage.eq_of_div hr heq)]

/-- A page that is taken is given its type: the live blocks stay as they are. -/
theorem Taken.handedOut (h : Taken f s.live offset) (heq : s.file.allocateNewBlock type = (some offset, f.setPage offset (.used type)))
    (hold : ∀ r ∈ s.live, f.getBlock r = s.file.getBlock r) (hsize : f.pageSize = s.file.pageSize) : HandedOut s type offset := by
  obtain ⟨l, -, -, hlive, -, hpages⟩ := h
  have hpage : IsPage f offset := (hpages offset).mpr (.inr (.inl rfl))
  refine ⟨by rw [heq], hlive, ?_, fun r hr => ?_, ?_⟩
  · rw [heq]
    exact getBlock_setPage_self f _ hpage
  · have hne : r ≠ offset := fun heq => hlive (heq ▸ hr)
    rw [heq, ← hold r hr]
    exact getBlock_setPage f offset r _ fun hdiv => hne (hpage.eq_of_div ((hpages r).mpr (.inr (.inr hr))) hdiv)
  · rw [heq, ← hsize]
    rfl

/-- A page that is taken leaves the free blocks behind it as they are. -/
theorem Taken.available (h : Taken f live offset) (hlist : FreeList f l) {page : Page} {n : Nat} :
    Available (f.setPage offset page) n ↔ ∀ r ∈ l.take n, NeverUsed f r := by
  obtain ⟨k, hk, hmem, -, -, hpages⟩ := h
  obtain rfl := hlist.unique hk
  have hpage : IsPage f offset := (hpages offset).mpr (.inr (.inl rfl))
  have hin : ∀ r ∈ l, IsPage f r := fun r hr => (hpages r).mpr (.inl hr)
  have hne : ∀ r ∈ l, r ≠ offset := fun r hr heq => hmem (heq ▸ hr)
  have hlinked : FreeList (f.setPage offset page) l :=
    hlist.setPage fun r hr hdiv => hne r hr (hpage.eq_of_div (hin r hr) hdiv)
  rw [available_iff hlinked]
  refine forall₂_congr fun r hr => ?_
  exact neverUsed_setPage hpage (hin r (List.mem_of_mem_take hr)) (hne r (List.mem_of_mem_take hr))

theorem neverUsed_newList {r : Reference} (hr : r ∈ newList f) : NeverUsed (f.appendFreeBlocks f.getSize) r := by
  obtain ⟨i, hlt, hi, rfl⟩ := mem_newList.mp hr
  have hblock := getBlock_appendFreeBlocks f f.getSize (i := i - f.pages.length) (by omega)
  rw [Nat.add_sub_cancel' hlt.le] at hblock
  exact ⟨_, hblock⟩

/-- A block is handed out when the first free one was never in use, and the free ones behind it stay; otherwise the call throws. -/
theorem Partitioned.allocate_cases (h : Partitioned s) (hne : s.file.pages ≠ []) (htype : type.isBlock = true) :
    (∃ r, HandedOut s type r ∧ ∀ n, Available s.file (n + 1) ↔ Available (s.file.allocateNewBlock type).2 n) ∨
    (s.file.allocateNewBlock type).1 = none ∧ ∀ n, ¬ Available s.file (n + 1) := by
  have heq := allocateNewBlock_block htype hne
  have hpage : ∀ r ∈ s.live, IsPage s.file r := by
    obtain ⟨l, -, -, -, hpages⟩ := h
    exact fun r hr => (hpages r).mpr (.inr hr)
  by_cases hnull : s.file.firstFreeBlock = nullFileAddr
  · have htaken := h.taken_new hne hnull
    rw [if_pos hnull] at heq
    have hempty : FreeList s.file [] := by
      unfold FreeList
      rw [hnull]
      exact .nil
    have hnew : HandedOut s type s.file.getSize := by
      refine htaken.handedOut heq (fun r hr => ?_) ?_
      · rw [getBlock_setFirstFreeBlock, getBlock_appendFreeBlocks_old (hpage r hr)]
      · rw [pageSize_setFirstFreeBlock, pageSize_appendFreeBlocks]
    refine .inl ⟨_, hnew, fun n => iff_of_true ⟨[], hempty, fun r hr => by simp at hr⟩ ?_⟩
    rw [heq]
    refine (htaken.available (freeList_of_linked (linked_newList s.file))).mpr fun r hr => ?_
    obtain ⟨next, hnext⟩ := neverUsed_newList (List.mem_of_mem_take hr)
    exact ⟨next, by rw [getBlock_setFirstFreeBlock, hnext]⟩
  · obtain ⟨version, link, hblock, htaken⟩ := h.taken_head hnull
    obtain ⟨l, hlist, -⟩ := h
    obtain ⟨link', k, hlink, hk, rfl⟩ := hlist.eq_cons hnull
    obtain rfl : link' = link := by
      rw [next, hblock] at hlink
      exact (Option.some.inj hlink).symm
    rw [if_neg hnull, hblock] at heq
    by_cases hversion : version = freeBlockVersion
    · simp only [if_pos hversion] at heq
      have hused : NeverUsed s.file s.file.firstFreeBlock := ⟨link', by rw [hblock, hversion]⟩
      refine .inl ⟨_, htaken.handedOut heq (fun r _ => rfl) rfl, fun n => ?_⟩
      rw [heq, available_iff hlist, List.take_succ_cons, List.forall_mem_cons, htaken.available (freeList_of_linked hk)]
      exact and_iff_right hused
    · simp only [if_neg hversion] at heq
      refine .inr ⟨by rw [heq], fun n havailable => ?_⟩
      obtain ⟨next, hnext⟩ := (available_iff hlist).mp havailable s.file.firstFreeBlock (by simp)
      rw [hblock] at hnext
      cases hnext
      exact hversion rfl

end Allocation
end Snapwebsites.Snapdatabase
