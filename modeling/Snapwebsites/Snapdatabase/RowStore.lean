import Snapwebsites.Snapdatabase.FreeSpace
import Snapwebsites.Snapdatabase.Row

/-! # Rows in `DATA` blocks

`row_insert()` copies a row to an extent, and `get_row()` reads it back: it takes the size from the meta data in front of the row.
That size includes the meta data. -/

namespace Snapwebsites.Snapdatabase

/-- The bytes of the file. -/
abbrev Memory := Reference → UInt8

namespace Memory

/-- `memcpy()` to the file. -/
def copyTo (r : Reference) (blob : Bytes) (m : Memory) : Memory :=
  fun a => if r ≤ a ∧ a < r + blob.length then blob.getD (a - r) 0 else m a

def read (m : Memory) (r : Reference) (size : Nat) : Bytes := (List.range size).map fun i => m (r + i)

/-- The meta data of a header stands in the file. -/
def Shows (m : Memory) (h : FreeSpaceHeap) (r : Reference) : Prop :=
  (∀ i < 3, (m (r + i)).toNat = (h.link r).size / 256 ^ i % 256) ∧ m (r + 3) = if (h.link r).allocated then 1 else 0

theorem read_add (m : Memory) (r : Reference) (n k : Nat) : m.read r (n + k) = m.read r n ++ m.read (r + n) k := by
  unfold read
  rw [List.range_add, List.map_append, List.map_map]
  congr 1
  refine List.map_congr_left fun i _ => ?_
  rw [Function.comp_apply, Nat.add_assoc]

theorem read_copyTo (r : Reference) (blob : Bytes) (m : Memory) : (m.copyTo r blob).read r blob.length = blob := by
  refine List.ext_getElem (by simp [read]) fun i hi hi' => ?_
  simp [read, copyTo, hi']

theorem read_copyTo_behind (r : Reference) (blob : Bytes) (m : Memory) (k : Nat) :
    (m.copyTo r blob).read (r + blob.length) k = m.read (r + blob.length) k := by
  refine List.map_congr_left fun i _ => if_neg ?_
  simp

end Memory

/-- What `row_insert()` does with the data of a row; nothing when it throws. `m` is what the file holds when `get_free_space()` has
    returned. -/
def rowInsertData (s : RowSchema) (row : Row) (t : BlockFreeSpace) (m : Memory) :
    Option (FreeSpaceT × BlockFreeSpace × Memory) := do
  let blob ← row.toBinary s
  let f ← (t.getFreeSpace (UInt32.ofNat blob.length)).1
  if blob.length ≤ f.size then some (f, (t.getFreeSpace (UInt32.ofNat blob.length)).2, m.copyTo f.reference blob) else none

/-- `get_row()`. -/
def getRow (convert : Nat → Bytes → Option Row) (s : RowSchema) (t : BlockFreeSpace) (m : Memory) (r : Reference) : Option Row :=
  Row.fromBinary convert s (m.read r (t.heap.link (r - metaSize)).size)

namespace BlockFreeSpace
variable {t t' : BlockFreeSpace} {f : FreeSpaceT} {m n : Nat}

/-- Listing an extent changes no size. -/
theorem linkSpace_size {h h' : FreeSpaceHeap} {a r : Reference} (hrun : h.linkSpace a r = some h') (x : Reference) :
    (h'.link x).size = (h.link x).size := by
  rw [FreeSpaceHeap.linkSpace, Option.map_eq_some_iff] at hrun
  obtain ⟨d, -, rfl⟩ := hrun
  have hset (l : FreeSpaceLink) (w : Span) (hl : l.size = (h.link r).size) : ((h.setLink r l w).link x).size = (h.link x).size := by
    change (Function.update h.link r l x).size = _
    rw [Function.update_apply]
    split
    · rename_i heq
      rw [heq, hl]
    · rfl
  dsimp only [FreeSpaceHeap.setFreeSpace]
  split
  · exact hset _ _ rfl
  · exact (FreeSpaceHeap.setPrevious_keeps ..).1.trans (hset _ _ rfl)

/-- The extent that is returned has its size in front of it. -/
theorem takeExact_size (h : t.takeExact m = (some f, t')) : (t'.heap.link (f.reference - metaSize)).size = f.size := by
  unfold takeExact at h
  dsimp only at h
  split at h
  · cases h
  · cases h
    rw [Nat.add_sub_cancel, setMeta_link, if_pos rfl]

theorem takeLarger_size (h : t.takeLarger m n = (some f, t')) : (t'.heap.link (f.reference - metaSize)).size = f.size := by
  unfold takeLarger at h
  dsimp only at h
  split at h
  · cases h
  · split at h
    · split at h
      · cases h
      · rename_i h₂ hrun
        cases h
        rw [Nat.add_sub_cancel, setMeta_link, if_pos rfl]
        dsimp only
        rw [linkSpace_size hrun, setMeta_link, if_pos rfl]
    · cases h
      rw [Nat.add_sub_cancel, setMeta_link, if_pos rfl]

theorem takeNew_size (h : t.takeNew m = (some f, t')) (htotal : 8 ∣ t.totalSpace) (hm : 8 ∣ m) (hle : m ≤ t.totalSpace)
    (hlt : m < spaceLimit) : (t'.heap.link (f.reference - metaSize)).size = f.size := by
  unfold takeNew at h
  dsimp only at h
  split at h
  · cases h
  · split at h
    · split at h
      · cases h
      · cases h
        rw [Nat.add_sub_cancel, setMeta_link, if_pos rfl]
        exact Nat.sub_sub_self hle
    · rename_i hroom
      cases h
      rw [Nat.add_sub_cancel, setMeta_link, if_pos rfl]
      rw [metaSize] at hroom
      have heq : t.totalSpace = m := by omega
      dsimp only
      rw [heq, Nat.mod_eq_of_lt hlt]

theorem getFreeSpace_size {k : UInt32} (h : t.getFreeSpace k = (some f, t')) (htotal : 8 ∣ t.totalSpace) :
    (t'.heap.link (f.reference - metaSize)).size = f.size := by
  by_cases hm : t.Admitted (sizeWithMeta k)
  · rw [getFreeSpace_admitted hm] at h
    cases hfound : t.findSpace (sizeWithMeta k) with
    | none =>
      rw [hfound] at h
      exact takeNew_size h htotal (sizeWithMeta_dvd k) hm.2.1 hm.2.2
    | some d =>
      rw [hfound, Option.elim_some] at h
      split at h
      · exact takeExact_size h
      · exact takeLarger_size h
  · rw [getFreeSpace_refused hm] at h
    cases h

end BlockFreeSpace

section
variable {s : RowSchema} {row : Row} {t t' : BlockFreeSpace} {m m' : Memory} {f : FreeSpaceT} {blob : Bytes}

theorem rowInsertData_eq (h : rowInsertData s row t m = some (f, t', m')) (hblob : row.toBinary s = some blob) :
    t.getFreeSpace (UInt32.ofNat blob.length) = (some f, t') ∧ blob.length ≤ f.size ∧ m' = m.copyTo f.reference blob := by
  unfold rowInsertData at h
  simp only [hblob, Option.bind_eq_bind, Option.bind_some, Option.bind_eq_some_iff] at h
  obtain ⟨f', hf', h⟩ := h
  split at h
  · rename_i hle
    cases h
    exact ⟨Prod.ext hf' rfl, hle, rfl⟩
  · cases h

end

/-! ### A row whose extent is full -/

/-- A file in which the headers stand at multiples of 8, and nothing else. -/
def showHeaders (h : FreeSpaceHeap) : Memory := fun a =>
  if a % 8 < 3 then UInt8.ofNat ((h.link (a - a % 8)).size / 256 ^ (a % 8))
  else if a % 8 = 3 ∧ (h.link (a - a % 8)).allocated = true then 1 else 0

theorem shows_showHeaders (h : FreeSpaceHeap) {r : Reference} (hr : 8 ∣ r) : (showHeaders h).Shows h r := by
  have hmod (i : Nat) (hi : i < 8) : (r + i) % 8 = i := by
    obtain ⟨j, rfl⟩ := hr
    rw [Nat.mul_add_mod, Nat.mod_eq_of_lt hi]
  refine ⟨fun i hi => ?_, ?_⟩
  · rw [showHeaders, hmod i (Nat.lt_trans hi (by decide)), if_pos hi, Nat.add_sub_cancel, UInt8.toNat_ofNat']
  · rw [showHeaders, hmod 3 (by decide), if_neg (by decide), Nat.add_sub_cancel]
    simp only [true_and]

theorem stringVersion_lt : 65536 < 256 ^ 4 := by decide

/-- One column, which has short strings. -/
def stringSchema : RowSchema := .assign 65536 stringVersion_lt [.p8string]

def stringRow (string : Bytes) : Row := (∅ : Row).insert firstColumnId { string }

theorem noFloat_stringRow (string : Bytes) : Row.NoFloat stringSchema (stringRow string).entries := by
  intro e he type htype
  obtain rfl : e = (firstColumnId, { string }) := List.mem_singleton.mp he
  obtain rfl : type = .p8string := (Option.some.inj htype).symm
  rfl

theorem inRange_stringRow (string : Bytes) : (stringRow string).InRange stringSchema := by
  intro e he type htype
  obtain rfl : e = (firstColumnId, { string }) := List.mem_singleton.mp he
  obtain rfl : type = .p8string := (Option.some.inj htype).symm
  trivial

open BlockFreeSpace Spaces

/-- The first extent of a new table, for rows of 12 bytes. -/
def firstExtent : BlockFreeSpace := ((new firstSpace 4096).table.clear.takeNew 16).2

theorem getFreeSpace_first (n : UInt32) (hn : sizeWithMeta n = 16) :
    (new firstSpace 4096).table.getFreeSpace n = (some { reference := 8204, size := 16 }, firstExtent) := by
  rw [getFreeSpace_admitted (by rw [hn]; decide), fresh_firstSpace.findSpace, Option.elim_none, hn]
  exact Prod.ext rfl rfl

theorem rowInsertData_first {string blob : Bytes} (hblob : (stringRow string).toBinary stringSchema = some blob)
    (hsize : sizeWithMeta (UInt32.ofNat blob.length) = 16) (hle : blob.length ≤ 16) (m : Memory) :
    rowInsertData stringSchema (stringRow string) (new firstSpace 4096).table m =
      some ({ reference := 8204, size := 16 }, firstExtent, m.copyTo 8204 blob) := by
  have hspace := getFreeSpace_first _ hsize
  unfold rowInsertData
  simp only [hblob, hspace, Option.bind_eq_bind, Option.bind_some]
  exact if_pos hle

end Snapwebsites.Snapdatabase
