import Snapwebsites.Loadavg.LoadavgFile
import Snapwebsites.Snapdatabase.Blocks

/-! # The file of a table, as bytes

`append_free_block()` writes the start of a page and then either the rest of it or, for a sparse file, has the system extend the file.
The rest that is written is four bytes too long: it was not reduced by the size of the version. On a sparse file the call is the one of
the pages (`Holds.appendFreeBlock`). -/

namespace Snapwebsites.Snapdatabase

open Loadavg (littleEndian littleEndian_length)

/-- What a file depends on in the system: the size of its pages and the largest size of a file, which an `off_t` holds. -/
structure FileSystem where
  pageSize : Nat
  pageSize_ge : 4096 ≤ pageSize
  maxFileSize : Nat
  maxFileSize_lt : maxFileSize < 2 ^ 63

/-- `set_page_size()`: the size of the pages of a file, as a number of pages of the system. -/
def FileSystem.filePageSize (sys : FileSystem) (pageSize : UInt64) : Nat :=
  let count := (pageSize.toNat + sys.pageSize - 1) % 2 ^ 64 / sys.pageSize
  if count ≤ 1 then sys.pageSize else count * sys.pageSize

/-- A file that is open. -/
structure Dbfile where
  pageSize : Nat
  sparse : Bool
  content : Bytes

namespace Dbfile

/-- `BLOCK_TYPE_FREE_BLOCK`: the characters of `FREE`. -/
def freeBlockMagic : Bytes := [0x46, 0x52, 0x45, 0x45]

/-- How many bytes `write()` writes at the end of the file. -/
def writable (sys : FileSystem) (f : Dbfile) : Nat := min 0x7ffff000 (sys.maxFileSize - f.content.length)

/-- `write_data()`; nothing when it throws. -/
def writeData (sys : FileSystem) (b : Bytes) (f : Dbfile) : Option Dbfile :=
  if b.length ≤ f.writable sys then some { f with content := f.content ++ b } else none

/-- `ftruncate()`, which fails where the size is not one of an `off_t`, or is too large. -/
def ftruncate (sys : FileSystem) (length : Nat) (f : Dbfile) : Dbfile :=
  let length := length % 2 ^ 64
  if 2 ^ 63 ≤ length ∨ sys.maxFileSize < length then f
  else { f with content := f.content.take length ++ List.replicate (length - f.content.length) 0 }

/-- `append_free_block()`, with where the block is; nothing when it throws. -/
def appendFreeBlock (sys : FileSystem) (previousBlockOffset : UInt64) (f : Dbfile) : Option (Nat × Dbfile) := do
  let p := f.content.length
  let f ← f.writeData sys freeBlockMagic
  let f ← f.writeData sys (littleEndian 4 ({ major := 0, minor := 1 : Version }).toBinary.toNat)
  let f ← f.writeData sys (littleEndian 8 previousBlockOffset.toNat)
  if f.sparse then some (p, f.ftruncate sys (p + f.pageSize))
  else do
    let f ← f.writeData sys (List.replicate (f.pageSize - 4 - 8) 0)
    some (p, f)

/-- Some calls, with where their blocks are. -/
def appendFreeBlocks (sys : FileSystem) : List UInt64 → Dbfile → Option (List Nat × Dbfile)
  | [], f => some ([], f)
  | next :: l, f => do
    let (p, f) ← f.appendFreeBlock sys next
    let (offsets, f) ← appendFreeBlocks sys l f
    some (p :: offsets, f)

/-- A file that is open and empty. -/
def empty (sys : FileSystem) (pageSize : UInt64) (sparse : Bool) : Dbfile :=
  { pageSize := sys.filePageSize pageSize, sparse, content := [] }

/-- A page of a free block: what it starts with. -/
structure FreePage (content : Bytes) (offset : Nat) (next : UInt64) : Prop where
  magic : (content.drop offset).take 4 = freeBlockMagic
  next : (content.drop (offset + 8)).take 8 = littleEndian 8 next.toNat

/-- The calls on an empty file give it a page each. -/
structure Grows (sys : FileSystem) (pageSize : UInt64) (sparse : Bool) (nexts : List UInt64) (offsets : List Nat) (f : Dbfile) :
    Prop where
  run : appendFreeBlocks sys nexts (empty sys pageSize sparse) = some (offsets, f)
  size : f.content.length = nexts.length * sys.filePageSize pageSize
  offsets : offsets = (List.range nexts.length).map (· * sys.filePageSize pageSize)
  pages : ∀ (i : Nat) (next : UInt64), nexts[i]? = some next → FreePage f.content (i * sys.filePageSize pageSize) next

section
variable {sys : FileSystem} {pageSize next : UInt64} {sparse : Bool} {f f' : Dbfile} {b : Bytes} {l : List UInt64} {p : Nat}
variable {offsets : List Nat}

theorem filePageSize_ge (sys : FileSystem) (pageSize : UInt64) : 4096 ≤ sys.filePageSize pageSize := by
  have hge := sys.pageSize_ge
  unfold FileSystem.filePageSize
  dsimp only
  split
  · exact hge
  · rename_i hcount
    exact hge.trans (Nat.le_mul_of_pos_left _ (by omega))

theorem writeData_eq_some :
    f.writeData sys b = some f' ↔ b.length ≤ f.writable sys ∧ f' = { f with content := f.content ++ b } := by
  unfold writeData
  split
  · rename_i hle
    rw [Option.some.injEq]
    exact ⟨fun h => ⟨hle, h.symm⟩, fun h => h.2.symm⟩
  · rename_i hlt
    exact iff_of_false (fun h => by cases h) fun h => hlt h.1

/-- What every block starts with. -/
def freeBlockStart (next : UInt64) : Bytes :=
  freeBlockMagic ++ littleEndian 4 ({ major := 0, minor := 1 : Version }).toBinary.toNat ++ littleEndian 8 next.toNat

theorem length_freeBlockStart (next : UInt64) : (freeBlockStart next).length = 16 := by
  rw [freeBlockStart, List.length_append, List.length_append, littleEndian_length, littleEndian_length]
  rfl

/-- The start of a block is written where there is room for all of it. -/
theorem appendFreeBlock_eq (sys : FileSystem) (next : UInt64) (f : Dbfile) : f.appendFreeBlock sys next =
    if f.content.length + 16 ≤ sys.maxFileSize then
      if f.sparse then
        some (f.content.length, { f with content := f.content ++ freeBlockStart next }.ftruncate sys (f.content.length + f.pageSize))
      else
        ({ f with content := f.content ++ freeBlockStart next }.writeData sys (List.replicate (f.pageSize - 4 - 8) 0)).map
          (f.content.length, ·)
    else none := by
  have hmagic : freeBlockMagic.length = 4 := rfl
  have hsome : f.content.length + 16 ≤ sys.maxFileSize ↔
      4 ≤ f.writable sys ∧ 4 ≤ { f with content := f.content ++ freeBlockMagic }.writable sys ∧
        8 ≤ { f with content := f.content ++ freeBlockMagic ++
          littleEndian 4 ({ major := 0, minor := 1 : Version }).toBinary.toNat }.writable sys := by
    simp only [writable, List.length_append, littleEndian_length, hmagic]
    omega
  unfold appendFreeBlock writeData
  rw [hmagic, littleEndian_length, littleEndian_length]
  by_cases hroom : f.content.length + 16 ≤ sys.maxFileSize
  · obtain ⟨h₁, h₂, h₃⟩ := hsome.mp hroom
    have hstart : f.content ++ freeBlockStart next = f.content ++ freeBlockMagic ++
        littleEndian 4 ({ major := 0, minor := 1 : Version }).toBinary.toNat ++ littleEndian 8 next.toNat := by
      rw [freeBlockStart, List.append_assoc, List.append_assoc, List.append_assoc]
    simp only [if_pos hroom, if_pos h₁, if_pos h₂, if_pos h₃, Option.bind_eq_bind, Option.bind_some, hstart]
    split
    · rfl
    · split <;> rfl
  · rw [if_neg hroom]
    by_cases h₁ : 4 ≤ f.writable sys
    · rw [if_pos h₁]
      by_cases h₂ : 4 ≤ { f with content := f.content ++ freeBlockMagic }.writable sys
      · have h₃ := fun h₃ => hroom (hsome.mpr ⟨h₁, h₂, h₃⟩)
        simp only [Option.bind_eq_bind, Option.bind_some, if_pos h₂, if_neg h₃, Option.bind_none]
      · simp only [Option.bind_eq_bind, Option.bind_some, if_neg h₂, Option.bind_none]
    · simp only [Option.bind_eq_bind, if_neg h₁, Option.bind_none]

theorem ftruncate_length_le (sys : FileSystem) (n : Nat) (h : f.content.length ≤ sys.maxFileSize) :
    (f.ftruncate sys n).content.length ≤ sys.maxFileSize := by
  unfold ftruncate
  dsimp only
  split
  · exact h
  · rw [List.length_append, List.length_take, List.length_replicate]
    omega

/-- A page of a sparse file. -/
def freeBlockPage (pageSize : Nat) (next : UInt64) : Bytes := freeBlockStart next ++ List.replicate (pageSize - 16) 0

theorem length_freeBlockPage {n : Nat} (h : 16 ≤ n) (next : UInt64) : (freeBlockPage n next).length = n := by
  rw [freeBlockPage, List.length_append, length_freeBlockStart, List.length_replicate, Nat.add_sub_cancel' h]

/-- A call on a sparse file adds one page where there is room for it. -/
theorem appendFreeBlock_sparse (hsparse : f.sparse = true) (hpage : 16 ≤ f.pageSize)
    (hroom : f.content.length + f.pageSize ≤ sys.maxFileSize) :
    f.appendFreeBlock sys next = some (f.content.length, { f with content := f.content ++ freeBlockPage f.pageSize next }) := by
  have hsize := sys.maxFileSize_lt
  have hlength : (f.content ++ freeBlockStart next).length = f.content.length + 16 := by
    rw [List.length_append, length_freeBlockStart]
  have hmod : (f.content.length + f.pageSize) % 2 ^ 64 = f.content.length + f.pageSize := Nat.mod_eq_of_lt (by omega)
  rw [appendFreeBlock_eq, if_pos (by omega), if_pos hsparse, ftruncate]
  simp only [hmod]
  rw [if_neg (by omega), List.take_of_length_le (by omega), hlength, freeBlockPage, List.append_assoc, Nat.add_sub_add_left]

/-- What a call leaves of a file. -/
theorem appendFreeBlock_cases (h : f.appendFreeBlock sys next = some (p, f')) : p = f.content.length ∧
    f'.pageSize = f.pageSize ∧ f'.sparse = f.sparse ∧ (f.sparse = true → f'.content.length ≤ sys.maxFileSize) ∧
      (f.sparse = false → f'.content.length = f.content.length + 16 + (f.pageSize - 4 - 8)) := by
  rw [appendFreeBlock_eq] at h
  split at h
  · rename_i hroom
    split at h
    · rename_i hsparse
      obtain ⟨rfl, rfl⟩ := Prod.mk.inj (Option.some.inj h)
      refine ⟨rfl, ?_, ?_, fun _ => ftruncate_length_le sys _ ?_, fun hfull => by rw [hfull] at hsparse; cases hsparse⟩
      · unfold ftruncate
        dsimp only
        split <;> rfl
      · unfold ftruncate
        dsimp only
        split <;> rfl
      · rw [List.length_append, length_freeBlockStart]
        exact hroom
    · rename_i hsparse
      obtain ⟨f'', hwrite, heq⟩ := Option.map_eq_some_iff.mp h
      obtain ⟨rfl, rfl⟩ := Prod.mk.inj heq
      obtain ⟨-, rfl⟩ := writeData_eq_some.mp hwrite
      refine ⟨rfl, rfl, rfl, fun hsparse' => absurd hsparse' hsparse, fun _ => ?_⟩
      rw [List.length_append, List.length_append, length_freeBlockStart, List.length_replicate]
  · cases h

/-! ### Some calls -/

theorem appendFreeBlocks_cons : appendFreeBlocks sys (next :: l) f = some (offsets, f') ↔ ∃ p f₁ rest,
    f.appendFreeBlock sys next = some (p, f₁) ∧ appendFreeBlocks sys l f₁ = some (rest, f') ∧ offsets = p :: rest := by
  rw [appendFreeBlocks]
  simp only [Option.bind_eq_bind, Option.bind_eq_some_iff, Prod.exists, Option.some.injEq, Prod.mk.injEq]
  constructor
  · rintro ⟨p, f₁, h, rest, f₂, h', rfl, rfl⟩
    exact ⟨p, f₁, rest, h, h', rfl⟩
  · rintro ⟨p, f₁, rest, h, h', rfl⟩
    exact ⟨p, f₁, h, rest, f', h', rfl, rfl⟩

/-- Where the pages are that calls add to a sparse file. -/
def pageOffsets (pageSize start k : Nat) : List Nat := (List.range k).map fun i => start + i * pageSize

theorem pageOffsets_succ (pageSize start k : Nat) :
    pageOffsets pageSize start (k + 1) = start :: pageOffsets pageSize (start + pageSize) k := by
  rw [pageOffsets, List.range_succ_eq_map, List.map_cons, List.map_map, Nat.zero_mul, Nat.add_zero, pageOffsets]
  refine congrArg (start :: ·) (List.map_congr_left fun i _ => ?_)
  rw [Function.comp_apply, Nat.succ_mul]
  omega

/-- The pages of a sparse file stand one behind the other. -/
theorem appendFreeBlocks_sparse (hsparse : f.sparse = true) (hpage : 16 ≤ f.pageSize)
    (hroom : f.content.length + l.length * f.pageSize ≤ sys.maxFileSize) : appendFreeBlocks sys l f =
      some (pageOffsets f.pageSize f.content.length l.length,
        { f with content := f.content ++ l.flatMap (freeBlockPage f.pageSize) }) := by
  induction l generalizing f with
  | nil => rw [List.flatMap_nil, List.append_nil]; rfl
  | cons next l ih =>
    rw [List.length_cons, Nat.succ_mul] at hroom
    have hlength : (f.content ++ freeBlockPage f.pageSize next).length = f.content.length + f.pageSize := by
      rw [List.length_append, length_freeBlockPage hpage]
    have hrest := ih (f := { f with content := f.content ++ freeBlockPage f.pageSize next }) hsparse hpage (by dsimp only; omega)
    simp only [hlength, List.append_assoc] at hrest
    rw [List.length_cons, pageOffsets_succ, List.flatMap_cons]
    exact appendFreeBlocks_cons.mpr ⟨_, _, _, appendFreeBlock_sparse hsparse hpage (by omega), hrest, rfl⟩

/-- A sparse file stays below the largest size. -/
theorem appendFreeBlocks_le (hsparse : f.sparse = true) (hsize : f.content.length ≤ sys.maxFileSize)
    (h : appendFreeBlocks sys l f = some (offsets, f')) : f'.content.length ≤ sys.maxFileSize := by
  induction l generalizing f offsets with
  | nil =>
    cases h
    exact hsize
  | cons next l ih =>
    obtain ⟨p, f₁, rest, hcall, hrest, -⟩ := appendFreeBlocks_cons.mp h
    obtain ⟨-, -, hsparse', hle, -⟩ := appendFreeBlock_cases hcall
    exact ih (hsparse'.trans hsparse) (hle hsparse) hrest

/-- Where the rest of a page is written, each page takes four bytes more. -/
theorem appendFreeBlocks_full (hfull : f.sparse = false) (hpage : 16 ≤ f.pageSize)
    (h : appendFreeBlocks sys l f = some (offsets, f')) : f'.content.length = f.content.length + l.length * (f.pageSize + 4) := by
  induction l generalizing f offsets with
  | nil =>
    cases h
    rw [List.length_nil, Nat.zero_mul, Nat.add_zero]
  | cons next l ih =>
    obtain ⟨p, f₁, rest, hcall, hrest, -⟩ := appendFreeBlocks_cons.mp h
    obtain ⟨-, hpageSize, hsparse, -, hlength⟩ := appendFreeBlock_cases hcall
    rw [ih (hsparse.trans hfull) (hpageSize ▸ hpage) hrest, hlength hfull, hpageSize, List.length_cons, Nat.succ_mul]
    omega

theorem length_flatMap_pages {n : Nat} (hn : 16 ≤ n) (l : List UInt64) : (l.flatMap (freeBlockPage n)).length = l.length * n := by
  induction l with
  | nil => rw [List.flatMap_nil, List.length_nil, List.length_nil, Nat.zero_mul]
  | cons next l ih =>
    rw [List.flatMap_cons, List.length_append, ih, length_freeBlockPage hn, List.length_cons, Nat.succ_mul, Nat.add_comm]

theorem drop_flatMap_pages {n : Nat} (hn : 16 ≤ n) (l : List UInt64) (i : Nat) :
    (l.flatMap (freeBlockPage n)).drop (i * n) = (l.drop i).flatMap (freeBlockPage n) := by
  induction i generalizing l with
  | zero => rw [Nat.zero_mul, List.drop_zero, List.drop_zero]
  | succ i ih =>
    cases l with
    | nil => rw [List.flatMap_nil, List.drop_nil, List.drop_nil, List.flatMap_nil]
    | cons next l =>
      have hstart : (freeBlockPage n next).length ≤ (i + 1) * n := by
        rw [length_freeBlockPage hn, Nat.succ_mul]
        exact Nat.le_add_left ..
      rw [List.flatMap_cons, List.drop_append, List.drop_of_length_le hstart, List.nil_append, List.drop_succ_cons, ← ih,
        length_freeBlockPage hn, Nat.succ_mul, Nat.add_sub_cancel]

theorem freePage_append {content : Bytes} {n offset : Nat} (rest : Bytes) (h : content.drop offset = freeBlockPage n next ++ rest) :
    FreePage content offset next := by
  have hstart : freeBlockPage n next ++ rest = freeBlockMagic ++
      (littleEndian 4 ({ major := 0, minor := 1 : Version }).toBinary.toNat ++ (littleEndian 8 next.toNat ++
        (List.replicate (n - 16) 0 ++ rest))) := by
    rw [freeBlockPage, freeBlockStart, List.append_assoc, List.append_assoc, List.append_assoc]
  have hmagic : (freeBlockMagic ++ littleEndian 4 ({ major := 0, minor := 1 : Version }).toBinary.toNat).length = 8 := by
    rw [List.length_append, littleEndian_length]
    rfl
  rw [hstart] at h
  constructor
  · rw [h, List.take_left' (show freeBlockMagic.length = 4 from rfl)]
  · rw [← List.drop_drop, h, ← List.append_assoc, List.drop_left' hmagic, List.take_left' (littleEndian_length 8 _)]

@[simp] theorem empty_pageSize : (empty sys pageSize sparse).pageSize = sys.filePageSize pageSize := rfl

@[simp] theorem empty_sparse : (empty sys pageSize sparse).sparse = sparse := rfl

@[simp] theorem empty_content : (empty sys pageSize sparse).content = [] := rfl

/-- The calls add a page each exactly where the file is sparse, as far as files of the system go. -/
theorem grows_iff (sys : FileSystem) (pageSize : UInt64) (sparse : Bool) (nexts : List UInt64) :
    (∃ offsets f, Grows sys pageSize sparse nexts offsets f) ↔
      nexts = [] ∨ (sparse = true ∧ nexts.length * sys.filePageSize pageSize ≤ sys.maxFileSize) := by
  have hpage : 16 ≤ sys.filePageSize pageSize := le_trans (by decide) (filePageSize_ge sys pageSize)
  constructor
  · rintro ⟨offsets, f, hgrows⟩
    cases sparse with
    | true =>
      refine .inr ⟨rfl, ?_⟩
      rw [← hgrows.size]
      exact appendFreeBlocks_le rfl (Nat.zero_le _) hgrows.run
    | false =>
      have hlength := appendFreeBlocks_full rfl hpage hgrows.run
      rw [hgrows.size, empty_pageSize, empty_content, List.length_nil, Nat.zero_add, Nat.mul_add] at hlength
      exact .inl (List.length_eq_zero_iff.mp (by omega))
  · rintro (rfl | ⟨rfl, hroom⟩)
    · exact ⟨[], empty sys pageSize sparse, rfl, (Nat.zero_mul _).symm, rfl, fun i next hnext => by cases hnext⟩
    · have hrun : appendFreeBlocks sys nexts (empty sys pageSize true) = some _ := appendFreeBlocks_sparse rfl hpage
        (by rwa [empty_content, List.length_nil, Nat.zero_add])
      simp only [empty_pageSize, empty_sparse, empty_content, List.length_nil, List.nil_append] at hrun
      refine ⟨_, _, hrun, length_flatMap_pages hpage nexts, ?_, fun i next hnext => ?_⟩
      · simp only [pageOffsets, Nat.zero_add]
      · obtain ⟨hi, hget⟩ := List.getElem?_eq_some_iff.mp hnext
        refine freePage_append (n := sys.filePageSize pageSize)
          ((nexts.drop (i + 1)).flatMap (freeBlockPage (sys.filePageSize pageSize))) ?_
        rw [drop_flatMap_pages hpage, List.drop_eq_getElem_cons hi, hget, List.flatMap_cons]

/-- A system with pages of four kilobytes and files of up to a terabyte. -/
def fileSystem : FileSystem where
  pageSize := 4096
  pageSize_ge := by decide
  maxFileSize := 2 ^ 40
  maxFileSize_lt := by decide

/-- The first page of a file that is not sparse is too long. -/
theorem not_grows : ¬∃ offsets f, Grows fileSystem 4096 false [0] offsets f := by
  rintro ⟨offsets, f, hgrows⟩
  have hlength := appendFreeBlocks_full rfl (le_trans (by decide) (filePageSize_ge fileSystem 4096)) hgrows.run
  rw [hgrows.size, empty_pageSize, empty_content, List.length_nil, List.length_singleton, Nat.one_mul] at hlength
  omega

/-! ### The pages -/

theorem FreePage.append {content : Bytes} {offset : Nat} (h : FreePage content offset next) (hle : offset + 16 ≤ content.length)
    (rest : Bytes) : FreePage (content ++ rest) offset next := by
  constructor
  · rw [List.drop_append_of_le_length (by omega), List.take_append_of_le_length (by rw [List.length_drop]; omega), h.magic]
  · rw [List.drop_append_of_le_length (by omega), List.take_append_of_le_length (by rw [List.length_drop]; omega), h.next]

/-- The file has the pages, and their free blocks are written in it. -/
structure Holds (t : TableFile) (f : Dbfile) : Prop where
  pageSize : f.pageSize = t.pageSize
  size : f.content.length = t.getSize
  free : ∀ (i : Nat) (v : Version) (next : UInt64),
    t.pages[i]? = some (.free v next.toNat) → FreePage f.content (i * t.pageSize) next

/-- A call on a sparse file with room for a page adds the page. -/
theorem Holds.appendFreeBlock {t : TableFile} (h : Holds t f) (hsparse : f.sparse = true) (hpage : 16 ≤ t.pageSize)
    (hroom : t.getSize + t.pageSize ≤ sys.maxFileSize) (next : UInt64) :
    ∃ f', f.appendFreeBlock sys next = some (t.getSize, f') ∧ f'.sparse = true ∧ Holds (t.appendFreeBlock next.toNat) f' := by
  have hcall : f.appendFreeBlock sys next = some _ := appendFreeBlock_sparse hsparse (h.pageSize ▸ hpage)
    (by rw [h.size, h.pageSize]; exact hroom)
  have hlength : (freeBlockPage f.pageSize next).length = t.pageSize := by
    rw [length_freeBlockPage (h.pageSize ▸ hpage), h.pageSize]
  rw [h.size] at hcall
  refine ⟨_, hcall, hsparse, h.pageSize, ?_, fun i v next' hget => ?_⟩
  · rw [List.length_append, h.size, hlength]
    simp only [TableFile.getSize, TableFile.appendFreeBlock, List.length_append, List.length_singleton, Nat.succ_mul]
  · rcases Nat.lt_or_ge i t.pages.length with hi | hi
    · have hold : t.pages[i]? = some (.free v next'.toNat) := by rwa [TableFile.appendFreeBlock, List.getElem?_append_left hi] at hget
      have hplace : (i + 1) * t.pageSize ≤ t.getSize := Nat.mul_le_mul_right _ hi
      rw [Nat.succ_mul] at hplace
      exact (h.free i v next' hold).append (by rw [h.size]; omega) _
    · rw [TableFile.appendFreeBlock, List.getElem?_append_right hi, List.getElem?_singleton] at hget
      split at hget
      · rename_i hlast
        obtain ⟨-, hnext⟩ := Page.free.inj (Option.some.inj hget)
        obtain rfl := UInt64.toNat_inj.mp hnext
        have hplace : (i * (t.appendFreeBlock next.toNat).pageSize) = f.content.length := by
          rw [h.size, TableFile.getSize, Nat.le_antisymm (Nat.le_of_sub_eq_zero hlast) hi]
          rfl
        refine freePage_append (n := f.pageSize) [] ?_
        rw [hplace, List.drop_left', List.append_nil]
        rfl
      · cases hget

end

end Dbfile

end Snapwebsites.Snapdatabase
