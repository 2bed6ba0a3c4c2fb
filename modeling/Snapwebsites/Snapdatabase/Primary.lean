import Mathlib.Data.List.NodupEquivFin
import Snapwebsites.Snapdatabase.Insert

/-! # The primary index

`row_insert()` puts each row in an `EIDX` block of its own, and the place of that block in the slot that the last
bits of the key choose. So a slot holds the last row that was inserted in it (`Slotted`), with its position in its
`INDR` block as the OID. The primary index is a map of the keys that were inserted to their OIDs exactly as long as
no two keys have one slot and all rows are in one `INDR` block (`primary_isMap_iff`). -/

namespace Snapwebsites.Snapdatabase.Table
open Program

variable {t t' u : Table}

/-! ### The indirect index leaves the primary index alone -/

theorem KeepsPrimary.allocated (b : Block) : KeepsPrimary t (t.allocated b) := ⟨.allocated b, rfl, rfl⟩

theorem KeepsPrimary.setBlock {offset : Reference} {b b' : Block} (hb : t.block offset = some b)
    (hkind : b.isIndirect = true) : KeepsPrimary t (t.setBlock offset b') :=
  ⟨.setBlock hb (by simp [hkind]), rfl, rfl⟩

/-- A program that reads a block and goes on keeps what it keeps from there. -/
theorem getBlock_keeps {α : Type} {offset : Reference} {f : Block → Program Table α}
    (h : ∀ b, t.block offset = some b → KeepsPrimary t ((f b).exec t)) :
    KeepsPrimary t ((getBlock offset >>= f).exec t) := by
  refine exec_bind_keeps KeepsPrimary.trans (by rw [getBlock_exec]; exact KeepsPrimary.refl t) fun b u hyields => ?_
  obtain ⟨rfl, hblk⟩ := getBlock_of_yields hyields
  exact h b hblk

theorem setBlockLevel_keeps (offset : Reference) (level : Nat) (t : Table) :
    KeepsPrimary t ((setBlockLevel offset level).exec t) := by
  refine getBlock_keeps fun b hblk => ?_
  cases b with
  | topIndirectIndex l refs => exact KeepsPrimary.setBlock hblk rfl
  | indirectIndex | primaryIndex | topIndex | entryIndex => exact KeepsPrimary.refl t

theorem topSetReference_keeps (offset : Reference) (id : Nat) (reference : Reference) (t : Table) :
    KeepsPrimary t ((topSetReference offset id reference).exec t) := by
  unfold topSetReference
  rw [exec_bind (Yields.get t)]
  refine getBlock_keeps fun b hblk => ?_
  cases b with
  | topIndirectIndex level refs =>
    by_cases hposition : (topPosition (topIndirectMaxCount t.pageSize) level id).1 ≥ topIndirectMaxCount t.pageSize
    · simp only [if_pos hposition]
      exact KeepsPrimary.refl t
    · simp only [if_neg hposition]
      exact KeepsPrimary.setBlock hblk rfl
  | indirectIndex | primaryIndex | topIndex | entryIndex => exact KeepsPrimary.refl t

theorem indirectSetReference_keeps (offset : Reference) (id : Nat) (reference : Reference) (t : Table) :
    KeepsPrimary t ((indirectSetReference offset id reference).exec t) := by
  unfold indirectSetReference
  rw [exec_bind (Yields.get t)]
  refine getBlock_keeps fun b hblk => ?_
  cases b with
  | indirectIndex refs =>
    by_cases hid : decrement id ≥ indirectMaxCount t.pageSize
    · simp only [if_pos hid]
      exact KeepsPrimary.refl t
    · simp only [if_neg hid]
      exact KeepsPrimary.setBlock hblk rfl
  | topIndirectIndex | primaryIndex | topIndex | entryIndex => exact KeepsPrimary.refl t

theorem allocateNewBlock_keeps (b : Block) (t : Table) : KeepsPrimary t ((allocateNewBlock b).exec t) :=
  KeepsPrimary.allocated b

/-- The end of a search that made a `TIND` block: a new `INDR` block under it. -/
theorem attach_keeps (topTind : Reference) (positionOid : Nat) (t : Table) :
    KeepsPrimary t ((do
      let indr ← allocateNewBlock newIndirectIndex
      let positionOid ← topSetReference topTind positionOid indr
      pure (indr, positionOid) : Program Table (Reference × Nat)).exec t) := by
  refine exec_bind_keeps KeepsPrimary.trans (allocateNewBlock_keeps _ t) fun indr u _ => ?_
  exact exec_bind_keeps KeepsPrimary.trans (topSetReference_keeps _ _ _ u) fun _ u _ => KeepsPrimary.refl u

theorem cascade_keeps : ∀ (level : Nat) (parentTind : Reference) (positionOid : Nat) (topTind : Reference) (t : Table),
    KeepsPrimary t ((cascade level parentTind positionOid topTind).exec t)
  | 0, _, _, _, t => KeepsPrimary.refl t
  | level + 1, parentTind, positionOid, topTind, t => by
    refine exec_bind_keeps KeepsPrimary.trans (setBlockLevel_keeps _ _ t) fun _ t' _ => ?_
    refine exec_bind_keeps KeepsPrimary.trans (topSetReference_keeps _ _ _ t') fun positionOid u _ => ?_
    split
    · exact KeepsPrimary.refl u
    · exact exec_bind_keeps KeepsPrimary.trans (allocateNewBlock_keeps _ u) fun next u _ => cascade_keeps level _ _ _ u

theorem splitIndirect_keeps (parent : Option (Reference × Nat)) (offset : Reference) (positionOid : Nat) (t : Table) :
    KeepsPrimary t ((splitIndirect parent offset positionOid).exec t) := by
  refine exec_bind_keeps KeepsPrimary.trans (allocateNewBlock_keeps _ t) fun topTind t' _ => ?_
  refine exec_bind_keeps KeepsPrimary.trans ?_ fun topTind u _ => ?_
  · cases parent with
    | none =>
      refine exec_bind_keeps KeepsPrimary.trans (setBlockLevel_keeps _ _ t') fun _ u _ => ?_
      exact (Extends.rooted _).toKeepsPrimary
    | some parent =>
      refine getBlock_keeps fun b hblk => ?_
      cases b with
      | topIndirectIndex level refs =>
        dsimp only
        split
        · exact KeepsPrimary.refl t'
        · exact cascade_keeps _ _ _ _ t'
      | indirectIndex | primaryIndex | topIndex | entryIndex => exact KeepsPrimary.refl t'
  · exact exec_bind_keeps KeepsPrimary.trans (topSetReference_keeps _ _ _ u) fun _ u _ => attach_keeps _ _ u

theorem growTop_keeps (parent : Option (Reference × Nat)) (offset : Reference) (level positionOid : Nat) (t : Table) :
    KeepsPrimary t ((growTop parent offset level positionOid).exec t) := by
  unfold growTop
  by_cases hlevel : level ≥ 255
  · cases parent <;> simp only [if_pos hlevel] <;> exact KeepsPrimary.refl t
  · have hrest : ∀ (topTind : Reference) (u : Table), KeepsPrimary u ((do
        let _ ← topSetReference topTind (positionOid - 1) offset
        let indr ← allocateNewBlock newIndirectIndex
        let positionOid ← topSetReference topTind positionOid indr
        pure (indr, positionOid) : Program Table (Reference × Nat)).exec u) := fun topTind u =>
      exec_bind_keeps KeepsPrimary.trans (topSetReference_keeps _ _ _ u) fun _ u _ => attach_keeps _ _ u
    cases parent with
    | none =>
      simp only [if_neg hlevel]
      refine exec_bind_keeps KeepsPrimary.trans (allocateNewBlock_keeps _ t) fun topTind t' _ => ?_
      refine exec_bind_keeps KeepsPrimary.trans (setBlockLevel_keeps _ _ t') fun _ u _ => ?_
      exact exec_bind_keeps KeepsPrimary.trans (Extends.rooted _).toKeepsPrimary fun _ u _ => hrest topTind u
    | some parent =>
      simp only [if_neg hlevel]
      refine exec_bind_keeps KeepsPrimary.trans (allocateNewBlock_keeps _ t) fun topTind t' _ => ?_
      refine exec_bind_keeps KeepsPrimary.trans (setBlockLevel_keeps _ _ t') fun _ u _ => ?_
      refine exec_bind_keeps KeepsPrimary.trans ?_ fun _ u _ => hrest topTind u
      exact exec_bind_keeps KeepsPrimary.trans (topSetReference_keeps _ _ _ u) fun _ u _ => KeepsPrimary.refl u

theorem descend_keeps (mustExist : Bool) : ∀ (fuel : Nat) (parent : Option (Reference × Nat)) (offset : Reference)
    (positionOid : Nat) (t : Table), KeepsPrimary t ((descend mustExist fuel parent offset positionOid).exec t)
  | 0, _, _, _, t => KeepsPrimary.refl t
  | fuel + 1, parent, offset, positionOid, t => by
    unfold descend
    rw [exec_bind (Yields.get t)]
    refine getBlock_keeps fun b hblk => ?_
    cases b with
    | topIndirectIndex level refs =>
      dsimp only
      split
      · exact KeepsPrimary.refl t
      · split
        · exact attach_keeps _ _ t
        · split
          · exact growTop_keeps _ _ _ _ t
          · exact descend_keeps mustExist fuel _ _ _ t
    | indirectIndex refs =>
      dsimp only
      split
      · exact splitIndirect_keeps _ _ _ t
      · exact KeepsPrimary.refl t
    | primaryIndex | topIndex | entryIndex => exact KeepsPrimary.refl t

theorem findIndirect_keeps (mustExist : Bool) (oid : Nat) (t : Table) :
    KeepsPrimary t ((findIndirect mustExist oid).exec t) := by
  unfold findIndirect
  rw [exec_bind (Yields.get t)]
  split
  · split
    · exact KeepsPrimary.refl t
    · refine exec_bind_keeps KeepsPrimary.trans (allocateNewBlock_keeps _ t) fun indr t' _ => ?_
      exact (Extends.rooted _).toKeepsPrimary
  · exact descend_keeps _ _ _ _ _ t

theorem allocateOid_keeps (t : Table) : KeepsPrimary t (allocateOid.exec t) := by
  unfold allocateOid
  rw [exec_bind (Yields.get t)]
  split
  · exact KeepsPrimary.refl t
  · exact ⟨⟨rfl, le_rfl, fun _ _ h _ _ => h⟩, rfl, rfl⟩

/-! ### Entries -/

/-- The entry of a row with a key of 16 bytes. -/
def entryOf (key : MurmurKey) (oid : Nat) : Entry := { complete := true, oid, key := key.bytes }

theorem addEntry_nil {pageSize positionOid : Nat} {key : MurmurKey} {entries : List Entry}
    (h : addEntry pageSize (1 + 8 + 16) [] key.bytes positionOid = some entries) :
    57 ≤ pageSize ∧ entries = [entryOf key positionOid] := by
  have hlen := key.length_eq
  have htake : key.bytes.take 16 = key.bytes := List.take_of_length_le hlen.le
  unfold addEntry at h
  by_cases hroom : (pageSize - entryIndexSize) / (1 + 8 + 16) = 0
  · simp [bisect, hroom] at h
  · simp [bisect, hroom, hlen, htake] at h
    refine ⟨?_, h.symm⟩
    unfold entryIndexSize at hroom
    omega

theorem findEntry_entryOf (key key' : MurmurKey) (oid : Nat) :
    findEntry (1 + 8 + 16) [entryOf key' oid] key.bytes = if key' = key then oid else nullFileAddr := by
  have htake : ∀ k : MurmurKey, k.bytes.take 16 = k.bytes := fun k => List.take_of_length_le k.length_eq.le
  have hkey : key' = key ↔ key'.bytes = key.bytes := by
    cases key
    cases key'
    exact MurmurKey.mk.injEq .. ▸ Iff.rfl
  cases hcmp : compare key'.bytes key.bytes with
  | eq => simp [findEntry, bisect, memcmp, entryOf, key.length_eq, htake, hkey, Std.compare_eq_iff_eq.mp hcmp]
  | lt | gt =>
    have hne : key'.bytes ≠ key.bytes := fun h => by
      rw [Std.compare_eq_iff_eq.mpr h] at hcmp
      cases hcmp
    simp [findEntry, bisect, memcmp, entryOf, key.length_eq, htake, hcmp, hkey, hne]

/-! ### Slots -/

/-- What the reference of a slot leads to, for the last row of the slot. -/
def HasEntry (t : Table) : Option (MurmurKey × Nat) → Reference → Prop
  | none, ref => ref = nullFileAddr
  | some (key, oid), ref => nullFileAddr < ref ∧ ref < t.pageSize * t.used ∧
      t.block ref = some (.entryIndex (1 + 8 + 16) [entryOf key oid])

/-- The reference of a slot: that of slot 0 is in the header. -/
def slotReference (referenceZero : Reference) (refs : Nat → Reference) (slot : Nat) : Reference :=
  if slot = 0 then referenceZero else refs slot

/-- The `PIDX` block has `refs`, and its slots lead to the last row of each slot. -/
structure Holding (last : Nat → Option (MurmurKey × Nat)) (refs : Nat → Reference) (t : Table) : Prop where
  pos : nullFileAddr < t.primaryIndexBlock
  lt : t.primaryIndexBlock < t.pageSize * t.used
  block : t.block t.primaryIndexBlock = some (.primaryIndex refs)
  entry : ∀ slot, HasEntry t (last slot) (slotReference t.primaryIndexReferenceZero refs slot)

/-- The last row of each slot, with its OID in the primary index. -/
structure Slots (last : Nat → Option (MurmurKey × Nat)) (t : Table) : Prop where
  used : 1 ≤ t.used
  holding : (t.primaryIndexBlock = nullFileAddr ∧ t.primaryIndexReferenceZero = nullFileAddr ∧ ∀ slot, last slot = none) ∨
    ∃ refs, Holding last refs t

variable {last : Nat → Option (MurmurKey × Nat)} {refs : Nat → Reference}

theorem HasEntry.keeps {entry : Option (MurmurKey × Nat)} {ref : Reference} (h : HasEntry t entry ref)
    (hkeeps : KeepsBlocks (fun b => b.isIndirect = false) t t') : HasEntry t' entry ref := by
  cases entry with
  | none => exact h
  | some entry =>
    obtain ⟨hpos, hlt, hblk⟩ := h
    refine ⟨hpos, lt_of_lt_of_le hlt ?_, hkeeps.block _ _ hblk rfl hlt⟩
    rw [hkeeps.pageSize]
    exact Nat.mul_le_mul_left _ hkeeps.used

theorem Holding.keeps (h : Holding last refs t) (hkeeps : KeepsPrimary t t') : Holding last refs t' where
  pos := hkeeps.primaryIndexBlock ▸ h.pos
  lt := by
    rw [hkeeps.primaryIndexBlock, hkeeps.pageSize]
    exact lt_of_lt_of_le h.lt (Nat.mul_le_mul_left _ hkeeps.used)
  block := by
    rw [hkeeps.primaryIndexBlock]
    exact hkeeps.block _ _ h.block rfl h.lt
  entry slot := by
    rw [hkeeps.primaryIndexReferenceZero]
    exact (h.entry slot).keeps hkeeps.toKeepsBlocks

theorem Slots.keeps (h : Slots last t) (hkeeps : KeepsPrimary t t') : Slots last t' := by
  refine ⟨h.used.trans hkeeps.used, ?_⟩
  obtain ⟨hnull, hzero, hnone⟩ | ⟨refs, hholding⟩ := h.holding
  · exact .inl ⟨hkeeps.primaryIndexBlock.trans hnull, hkeeps.primaryIndexReferenceZero.trans hzero, hnone⟩
  · exact .inr ⟨refs, hholding.keeps hkeeps⟩

theorem create_slots (pageSize used : Nat) : Slots (fun _ => none) (create pageSize used) :=
  ⟨Nat.le_add_left 1 used, .inl ⟨rfl, rfl, fun _ => rfl⟩⟩

/-! ### A row in the primary index -/

theorem primaryIndexBlockCreated_yields (h : Slots last t) (hpage : 0 < t.pageSize) :
    ∃ t' refs, Yields primaryIndexBlockCreated t t'.primaryIndexBlock t' ∧ Holding last refs t' ∧
      t'.pageSize = t.pageSize ∧ t.used ≤ t'.used := by
  obtain ⟨hnull, hzero, hnone⟩ | ⟨refs, hholding⟩ := h.holding
  · refine ⟨{ t.allocated newPrimaryIndex with primaryIndexBlock := t.pageSize * t.used }, fun _ => nullFileAddr, ?_, ?_,
      rfl, Nat.le_succ _⟩
    · refine (Yields.get t).bind ?_
      rw [if_pos hnull]
      rfl
    · refine ⟨Nat.mul_pos hpage h.used, Nat.mul_lt_mul_of_pos_left (Nat.lt_succ_self _) hpage, allocated_block_self _, ?_⟩
      intro slot
      rw [hnone slot]
      change slotReference t.primaryIndexReferenceZero _ slot = nullFileAddr
      rw [hzero]
      exact ite_self _
  · refine ⟨t, refs, (Yields.get t).bind ?_, hholding, rfl, le_rfl⟩
    rw [if_neg hholding.pos.ne']
    rfl

/-- The new `EIDX` block of a row. -/
theorem newEntryIndex_of_yields {key : MurmurKey} {positionOid : Nat} {offset : Reference}
    (h : Yields (newEntryIndex key.bytes positionOid) t offset t') : 57 ≤ t.pageSize ∧ offset = t.pageSize * t.used ∧
      t'.used = t.used + 1 ∧ t'.block offset = some (.entryIndex (1 + 8 + 16) [entryOf key positionOid]) ∧ KeepsPrimary t t' := by
  unfold newEntryIndex Yields at h
  rw [(allocateNewBlock_yields _ t).run_bind, (Yields.modify _ _).run_bind, (Yields.get _).run_bind] at h
  cases hadd : addEntry t.pageSize (1 + 8 + 16) [] key.bytes positionOid with
  | none =>
    simp only [setBlock_pageSize, allocated_pageSize, hadd] at h
    cases h
  | some entries =>
    simp only [setBlock_pageSize, allocated_pageSize, hadd] at h
    obtain ⟨hpage, rfl⟩ := addEntry_nil hadd
    cases h
    refine ⟨hpage, rfl, rfl, setBlock_block_self _, ⟨rfl, Nat.le_succ _, ?_⟩, rfl, rfl⟩
    intro a blk hblk _ ha
    rw [setBlock_block_of_ne ha.ne, setBlock_block_of_ne ha.ne, allocated_block_of_ne ha.ne, hblk]

theorem Holding.set_zero (h : Holding last refs t) {entry : MurmurKey × Nat} {offset : Reference}
    (hentry : HasEntry t (some entry) offset) :
    Holding (Function.update last 0 (some entry)) refs { t with primaryIndexReferenceZero := offset } := by
  refine ⟨h.pos, h.lt, h.block, ?_⟩
  intro slot
  by_cases hslot : slot = 0
  · rw [hslot, Function.update_self]
    exact hentry
  · have hother := h.entry slot
    rw [slotReference, if_neg hslot] at hother
    rw [Function.update_of_ne hslot, slotReference, if_neg hslot]
    exact hother.keeps ⟨rfl, le_rfl, fun _ _ h _ _ => h⟩

theorem Holding.set (h : Holding last refs t) {entry : MurmurKey × Nat} {offset : Reference} {slot : Nat}
    (hentry : HasEntry t (some entry) offset) (hslot : slot ≠ 0) :
    Holding (Function.update last slot (some entry)) (Function.update refs slot offset)
      (t.setBlock t.primaryIndexBlock (.primaryIndex (Function.update refs slot offset))) := by
  -- the blocks of the entries are not the `PIDX` block
  have hkeeps : ∀ {e ref}, HasEntry t e ref →
      HasEntry (t.setBlock t.primaryIndexBlock (.primaryIndex (Function.update refs slot offset))) e ref := by
    intro e ref he
    cases e with
    | none => exact he
    | some e =>
      obtain ⟨hpos, hlt, hblk⟩ := he
      refine ⟨hpos, hlt, ?_⟩
      rw [setBlock_block_of_ne, hblk]
      rintro rfl
      rw [h.block] at hblk
      cases hblk
  refine ⟨h.pos, h.lt, setBlock_block_self _, ?_⟩
  intro slot'
  by_cases hslot' : slot' = slot
  · rw [hslot', Function.update_self, slotReference, if_neg hslot, Function.update_self]
    exact hkeeps hentry
  · have hother := h.entry slot'
    rw [Function.update_of_ne hslot']
    unfold slotReference at hother ⊢
    rw [Function.update_of_ne hslot']
    exact hkeeps hother

theorem setTopIndex_holding (h : Holding last refs t) {key : MurmurKey} {oid : Nat} {offset : Reference}
    (hentry : HasEntry t (some (key, oid)) offset)
    (hyields : Yields (setTopIndex t.primaryIndexBlock key.bytes offset) t ⟨⟩ t') :
    t'.pageSize = t.pageSize ∧ t'.used = t.used ∧
      ∃ refs', Holding (Function.update last (keyToIndex t.pageSize key.bytes) (some (key, oid))) refs' t' := by
  unfold setTopIndex Yields at hyields
  rw [(Yields.get t).run_bind] at hyields
  by_cases hslot : keyToIndex t.pageSize key.bytes = 0
  · rw [if_pos hslot] at hyields
    cases hyields
    rw [hslot]
    exact ⟨rfl, rfl, refs, h.set_zero hentry⟩
  · rw [if_neg hslot, (getBlock_yields h.block).run_bind] at hyields
    cases hyields
    exact ⟨rfl, rfl, _, h.set hentry hslot⟩

/-- A row that the primary index accepts is the last one of its slot. -/
theorem insertPrimary_slots (h : Slots last t) {row : RowData} {positionOid : Nat}
    (hyields : Yields (insertPrimary row positionOid) t ⟨⟩ t') : 57 ≤ t.pageSize ∧ t'.pageSize = t.pageSize ∧
      Slots (Function.update last (keyToIndex t.pageSize row.key.bytes) (some (row.key, positionOid))) t' := by
  unfold insertPrimary at hyields
  split at hyields
  · obtain ⟨primary, t₁, hprimary, hyields⟩ := hyields.of_bind
    obtain ⟨offset, t₂, hnew, hset⟩ := hyields.of_bind
    have hpage₁ : t₁.pageSize = t.pageSize := by
      have := (primaryIndexBlockCreated_keeps t).pageSize
      rwa [hprimary.exec] at this
    obtain ⟨hpage, rfl, hused₂, hblk, hkeeps⟩ := newEntryIndex_of_yields hnew
    obtain ⟨t₁', refs, hprimary', hholding, -, hused₁⟩ := primaryIndexBlockCreated_yields h (by omega)
    cases hprimary.symm.trans hprimary'
    have hpos : 0 < t₁.pageSize * t₁.used := Nat.mul_pos (by omega) (h.used.trans hused₁)
    have hentry : HasEntry t₂ (some (row.key, positionOid)) (t₁.pageSize * t₁.used) := by
      refine ⟨hpos, ?_, hblk⟩
      rw [hkeeps.pageSize, hused₂]
      exact Nat.mul_lt_mul_of_pos_left (Nat.lt_succ_self _) (by omega)
    rw [← hkeeps.primaryIndexBlock] at hset
    obtain ⟨hpage₃, hused₃, refs', hholding'⟩ := setTopIndex_holding (hholding.keeps hkeeps) hentry hset
    rw [hkeeps.pageSize, hpage₁] at hholding' hpage₃
    refine ⟨hpage₁ ▸ hpage, hpage₃, ?_, .inr ⟨refs', hholding'⟩⟩
    rw [hused₃]
    exact (h.used.trans hused₁).trans hkeeps.used
  · cases hyields

/-! ### Lookups -/

/-- The OID that `read_primary()` finds for a key, if any; nothing when it throws. -/
def found (t : Table) (key : MurmurKey) : Option (Option Nat) := (t.readPrimary key.bytes).map Prod.fst

/-- `read_primary()` finds the last row of a slot, and no other. -/
theorem found_eq (h : Slots last t) (key : MurmurKey) :
    t.found key = some (match last (keyToIndex t.pageSize key.bytes) with
      | some (key', oid) => if key' = key ∧ oid ≠ nullFileAddr then some oid else none
      | none => none) := by
  obtain ⟨hnull, -, hnone⟩ | ⟨refs, hholding⟩ := h.holding
  · simp [found, readPrimary, hnull, hnone]
  · have hne := hholding.pos.ne'
    have htop : t.getTopIndex t.primaryIndexBlock key.bytes =
        some (slotReference t.primaryIndexReferenceZero refs (keyToIndex t.pageSize key.bytes)) := by
      unfold getTopIndex slotReference
      split
      · rfl
      · rw [hholding.block]
    obtain ⟨fuel, hused⟩ : ∃ fuel, t.used = fuel + 1 := ⟨t.used - 1, by have := h.used; omega⟩
    have hentry := hholding.entry (keyToIndex t.pageSize key.bytes)
    cases hlast : last (keyToIndex t.pageSize key.bytes) with
    | none =>
      rw [hlast] at hentry
      simp [found, readPrimary, hne, htop, show slotReference _ _ _ = nullFileAddr from hentry]
    | some entry =>
      obtain ⟨key', oid⟩ := entry
      rw [hlast] at hentry
      obtain ⟨hpos, -, hblk⟩ := hentry
      by_cases hkey : key' = key
      · by_cases hoid : oid = nullFileAddr
        · simp [found, readPrimary, hne, htop, hpos.ne', hused, readTopIndexes, hblk, findEntry_entryOf, hkey, hoid]
        · simp [found, readPrimary, hne, htop, hpos.ne', hused, readTopIndexes, hblk, findEntry_entryOf, hkey, hoid]
      · simp [found, readPrimary, hne, htop, hpos.ne', hused, readTopIndexes, hblk, findEntry_entryOf, hkey]

/-! ### Any number of rows -/

/-- The slot of a row. -/
def slotOf (pageSize : Nat) (row : RowData) : Nat := keyToIndex pageSize row.key.bytes

/-- What `row_insert()` does to the primary index for a row that it accepts. -/
theorem rowInsert_of_yields {row : RowData} {oid : Nat} (h : Yields (rowInsert row) t oid t') :
    ∃ positionOid u, KeepsPrimary t u ∧ Yields (insertPrimary row positionOid) u ⟨⟩ t' ∧
      ∀ rows n, Indexed rows n t → n + 1 < 2 ^ 64 → positionOid = n % indirectMaxCount t.pageSize + 1 ∧ oid = n + 1 := by
  obtain ⟨⟨oid', mustExist⟩, t₁, halloc, h⟩ := h.of_bind
  obtain ⟨⟨indr, positionOid⟩, t₂, hfind, h⟩ := h.of_bind
  obtain ⟨⟨⟩, t₃, hused, h⟩ := h.of_bind
  obtain ⟨⟨⟩, t₄, hset, h⟩ := h.of_bind
  obtain ⟨⟨⟩, t₅, hprimary, h⟩ := h.of_bind
  cases h
  have hkeeps : KeepsPrimary t t₄ := by
    have h₁ := allocateOid_keeps t
    have h₂ := findIndirect_keeps mustExist oid t₁
    have h₄ := indirectSetReference_keeps indr positionOid row.blob t₃
    rw [halloc.exec] at h₁
    rw [hfind.exec] at h₂
    rw [hset.exec] at h₄
    have h₃ : KeepsPrimary t₂ t₃ := by
      cases hused
      exact ⟨⟨rfl, Nat.le_add_right .., fun _ _ h _ _ => h⟩, rfl, rfl⟩
    exact ((h₁.trans h₂).trans h₃).trans h₄
  refine ⟨positionOid, t₄, hkeeps, hprimary, ?_⟩
  intro rows n hindexed hlt
  cases halloc.symm.trans (allocateOid_yields hindexed hlt)
  obtain ⟨indr', positionOid', t₂', hfind', hextends, hready⟩ := findIndirect_yields hindexed.numbered hlt
  cases hfind.symm.trans hfind'
  have hposition := hready.position
  rw [hextends.pageSize] at hposition
  exact ⟨hposition, rfl⟩

/-- A row that is accepted is the last one of its slot. -/
theorem rowInsert_slots (h : Slots last t) {row : RowData} {oid : Nat} (hyields : Yields (rowInsert row) t oid t') :
    57 ≤ t.pageSize ∧ t'.pageSize = t.pageSize ∧ ∃ positionOid,
      Slots (Function.update last (slotOf t.pageSize row) (some (row.key, positionOid))) t' ∧
      ∀ rows n, Indexed rows n t → n + 1 < 2 ^ 64 → positionOid = n % indirectMaxCount t.pageSize + 1 ∧ oid = n + 1 := by
  obtain ⟨positionOid, u, hkeeps, hprimary, hposition⟩ := rowInsert_of_yields hyields
  obtain ⟨hlarge, hpage, hslots⟩ := insertPrimary_slots (h.keeps hkeeps) hprimary
  rw [hkeeps.pageSize] at hlarge hpage hslots
  exact ⟨hlarge, hpage, positionOid, hslots, hposition⟩

/-- All rows of a list are accepted, one after the other. -/
def Accepted (list : List RowData) (t : Table) : Prop :=
  ∀ i (hi : i < list.length), ((rowInsert list[i]).value (insertAll (list.take i) t)).isSome

/-- The last of the first `k` rows with a slot, with its OID in the primary index. -/
def LastIn (pageSize : Nat) (list : List RowData) (k slot : Nat) : Option (MurmurKey × Nat) → Prop
  | none => ∀ i (hi : i < list.length), i < k → slotOf pageSize list[i] ≠ slot
  | some (key, oid) => ∃ i, ∃ hi : i < list.length, i < k ∧ slotOf pageSize list[i] = slot ∧ list[i].key = key ∧
      (∀ j (hj : j < list.length), i < j → j < k → slotOf pageSize list[j] ≠ slot) ∧
      (list.length < 2 ^ 64 → oid = i % indirectMaxCount pageSize + 1)

/-- The primary index after the first `k` rows. -/
def Slotted (pageSize : Nat) (list : List RowData) (k : Nat) (t : Table) : Prop :=
  t.pageSize = pageSize ∧ ∃ last, Slots last t ∧ ∀ slot, LastIn pageSize list k slot (last slot)

variable {pageSize used k : Nat} {list : List RowData}

theorem lastIn_update (hk : k < list.length) {slot oid : Nat} (h : LastIn pageSize list k slot (last slot))
    (hoid : list.length < 2 ^ 64 → oid = k % indirectMaxCount pageSize + 1) :
    LastIn pageSize list (k + 1) slot
      (Function.update last (slotOf pageSize list[k]) (some (list[k].key, oid)) slot) := by
  by_cases hslot : slot = slotOf pageSize list[k]
  · rw [hslot, Function.update_self]
    exact ⟨k, hk, Nat.lt_succ_self k, rfl, rfl, fun j _ hkj hj => absurd hkj (by omega), hoid⟩
  · rw [Function.update_of_ne hslot]
    -- the new row has another slot
    have hnew : ∀ j (hj : j < list.length), ¬ j < k → j < k + 1 → slotOf pageSize list[j] ≠ slot := by
      intro j hj hkj hjk
      obtain rfl : j = k := by omega
      exact fun h => hslot h.symm
    cases hlast : last slot with
    | none =>
      rw [hlast] at h
      intro i hi hik
      by_cases hlt : i < k
      · exact h i hi hlt
      · exact hnew i hi hlt hik
    | some entry =>
      rw [hlast] at h
      obtain ⟨i, hi, hik, hslot', hkey, hafter, hoid'⟩ := h
      refine ⟨i, hi, by omega, hslot', hkey, ?_, hoid'⟩
      intro j hj hij hjk
      by_cases hlt : j < k
      · exact hafter j hj hij hlt
      · exact hnew j hj hlt hjk

theorem insertAll_take_succ (hk : k < list.length) (t : Table) :
    insertAll (list.take (k + 1)) t = (rowInsert list[k]).exec (insertAll (list.take k) t) := by
  rw [insertAll, List.take_succ_eq_append_getElem hk, List.foldl_append]
  rfl

theorem two_le_count (h : 57 ≤ pageSize) : 2 ≤ indirectMaxCount pageSize := by
  have hcount : indirectMaxCount pageSize = (pageSize - 16) / 8 := rfl
  omega

theorem insertAll_slotted (haccepted : Accepted list (create pageSize used)) :
    ∀ k ≤ list.length, Slotted pageSize list k (insertAll (list.take k) (create pageSize used)) := by
  intro k
  induction k with
  | zero => exact fun _ => ⟨rfl, _, create_slots pageSize used, fun slot i _ hi => absurd hi (Nat.not_lt_zero i)⟩
  | succ k ih =>
    intro hk
    obtain ⟨hpage, last, hslots, hlast⟩ := ih (Nat.le_of_succ_le hk)
    obtain ⟨oid, hoid⟩ := Option.isSome_iff_exists.mp (haccepted k hk)
    obtain ⟨hlarge, hpage', positionOid, hslots', hposition⟩ := rowInsert_slots hslots (yields_of_value hoid)
    rw [hpage] at hlarge hpage' hslots' hposition
    rw [insertAll_take_succ hk]
    refine ⟨hpage', _, hslots', fun slot => lastIn_update hk (hlast slot) fun hlt => ?_⟩
    exact (hposition _ k (insertAll_create (two_le_count hlarge) (Nat.le_of_succ_le hk) hlt) (by omega)).1

/-- After the whole list, a lookup finds what `LastIn` says of the slot of the key. -/
theorem found_insertAll (haccepted : Accepted list (create pageSize used)) (key : MurmurKey) :
    ∃ entry, LastIn pageSize list list.length (keyToIndex pageSize key.bytes) entry ∧
      (insertAll list (create pageSize used)).found key = some (match entry with
        | some (key', oid) => if key' = key ∧ oid ≠ nullFileAddr then some oid else none
        | none => none) := by
  have h := insertAll_slotted haccepted list.length le_rfl
  rw [List.take_length] at h
  obtain ⟨hpage, last, hslots, hlast⟩ := h
  refine ⟨_, hlast _, ?_⟩
  rw [found_eq hslots, hpage]

theorem keyToIndex_lt (pageSize : Nat) (key : Bytes) : keyToIndex pageSize key < 2 ^ 32 :=
  lt_of_lt_of_le (Nat.mod_lt _ (Nat.two_pow_pos _)) (Nat.pow_le_pow_right Nat.zero_lt_two (min_le_right ..))

theorem length_le_of_slots (h : (list.map (slotOf pageSize)).Nodup) : list.length ≤ 2 ^ 32 := by
  have hsub : list.map (slotOf pageSize) ⊆ List.range (2 ^ 32) := by
    intro slot hslot
    obtain ⟨row, -, rfl⟩ := List.mem_map.mp hslot
    exact List.mem_range.mpr (keyToIndex_lt ..)
  have hle := (List.subperm_of_subset h hsub).length_le
  rwa [List.length_map, List.length_range] at hle

/-- A row that is accepted was in a page with room for an entry, and got the next OID. -/
theorem accepted_row (haccepted : Accepted list (create pageSize used)) {i : Nat} (hi : i < list.length) :
    2 ≤ indirectMaxCount pageSize ∧ ∃ oid, (rowInsert list[i]).value (insertAll (list.take i) (create pageSize used)) = some oid ∧
      (list.length < 2 ^ 64 → oid = i + 1) := by
  obtain ⟨hpage, last, hslots, -⟩ := insertAll_slotted haccepted i hi.le
  obtain ⟨oid, hoid⟩ := Option.isSome_iff_exists.mp (haccepted i hi)
  obtain ⟨hlarge, -, _, -, hposition⟩ := rowInsert_slots hslots (yields_of_value hoid)
  rw [hpage] at hlarge
  have hcount := two_le_count hlarge
  exact ⟨hcount, oid, hoid, fun hlt => (hposition _ i (insertAll_create hcount hi.le hlt) (by omega)).2⟩

/-- The primary index is a map from the keys that were inserted to the OIDs that their rows were given. -/
structure IsMap (list : List RowData) (t : Table) : Prop where
  inserted : ∀ i (hi : i < list.length) oid, (rowInsert list[i]).value (insertAll (list.take i) t) = some oid →
    (insertAll list t).found list[i].key = some (some oid)
  others : ∀ key, (∀ row ∈ list, row.key ≠ key) → (insertAll list t).found key = some none

/-- A key that was never inserted is not found. -/
theorem found_other (haccepted : Accepted list (create pageSize used)) {key : MurmurKey}
    (hkey : ∀ row ∈ list, row.key ≠ key) : (insertAll list (create pageSize used)).found key = some none := by
  obtain ⟨entry, hentry, hfound⟩ := found_insertAll haccepted key
  rw [hfound]
  match entry with
  | none => rfl
  | some (key', oid) =>
    obtain ⟨i, hi, -, -, hkey', -⟩ := hentry
    have hne : key' ≠ key := fun h => hkey _ (List.getElem_mem hi) (hkey'.trans h)
    simp [hne]

theorem nodup_map_iff {α : Type} {f : RowData → α} : (list.map f).Nodup ↔
    ∀ i j (hi : i < list.length) (hj : j < list.length), i < j → f list[i] ≠ f list[j] := by
  rw [List.Nodup, List.pairwise_map, List.pairwise_iff_getElem]

theorem eq_of_slotOf (h : (list.map (slotOf pageSize)).Nodup) {i j : Nat} (hi : i < list.length) (hj : j < list.length)
    (heq : slotOf pageSize list[i] = slotOf pageSize list[j]) : i = j := by
  rcases Nat.lt_trichotomy i j with hij | hij | hij
  · exact absurd heq (nodup_map_iff.mp h i j hi hj hij)
  · exact hij
  · exact absurd heq.symm (nodup_map_iff.mp h j i hj hi hij)

theorem isMap_of_slots (haccepted : Accepted list (create pageSize used)) (hslots : (list.map (slotOf pageSize)).Nodup)
    (hle : list.length ≤ indirectMaxCount pageSize) : IsMap list (create pageSize used) := by
  have hlt : list.length < 2 ^ 64 := lt_of_le_of_lt (length_le_of_slots hslots) (by decide)
  refine ⟨?_, fun key hkey => found_other haccepted hkey⟩
  intro i hi oid hoid
  obtain ⟨-, oid', hvalue, hnext⟩ := accepted_row haccepted hi
  cases hoid.symm.trans hvalue
  obtain rfl := hnext hlt
  obtain ⟨entry, hentry, hfound⟩ := found_insertAll haccepted list[i].key
  rw [hfound]
  match entry with
  | none => exact absurd rfl (hentry i hi hi)
  | some (key', oid) =>
    obtain ⟨j, hj, -, hslot, rfl, -, hoid'⟩ := hentry
    obtain rfl : j = i := eq_of_slotOf hslots hj hi hslot
    have hposition := hoid' hlt
    rw [Nat.mod_eq_of_lt (lt_of_lt_of_le hi hle)] at hposition
    subst hposition
    simp [nullFileAddr]

/-- Of two rows in one slot, the first is lost. -/
theorem found_first (haccepted : Accepted list (create pageSize used)) (hkeys : (list.map RowData.key).Nodup) {i j : Nat}
    (hi : i < list.length) (hj : j < list.length) (hij : i < j)
    (hslot : slotOf pageSize list[i] = slotOf pageSize list[j]) :
    (insertAll list (create pageSize used)).found list[i].key = some none := by
  obtain ⟨entry, hentry, hfound⟩ := found_insertAll haccepted list[i].key
  rw [hfound]
  match entry with
  | none => rfl
  | some (key', oid) =>
    obtain ⟨m, hm, -, -, rfl, hafter, -⟩ := hentry
    have hjm : j ≤ m := Nat.le_of_not_lt fun hmj => hafter j hj hmj hj hslot.symm
    have hne : list[m].key ≠ list[i].key := (nodup_map_iff.mp hkeys i m hi hm (by omega)).symm
    simp [hne]

theorem slots_of_isMap (haccepted : Accepted list (create pageSize used)) (hkeys : (list.map RowData.key).Nodup)
    (h : IsMap list (create pageSize used)) : (list.map (slotOf pageSize)).Nodup := by
  rw [nodup_map_iff]
  intro i j hi hj hij hslot
  obtain ⟨oid, hoid⟩ := Option.isSome_iff_exists.mp (haccepted i hi)
  have hfound := h.inserted i hi oid hoid
  rw [found_first haccepted hkeys hi hj hij hslot] at hfound
  cases hfound

/-- The last row of a map is in the first `INDR` block. -/
theorem length_of_isMap (haccepted : Accepted list (create pageSize used)) (hkeys : (list.map RowData.key).Nodup)
    (h : IsMap list (create pageSize used)) : list.length ≤ indirectMaxCount pageSize := by
  have hslots := slots_of_isMap haccepted hkeys h
  have hlt : list.length < 2 ^ 64 := lt_of_le_of_lt (length_le_of_slots hslots) (by decide)
  by_contra hgt
  have hi : list.length - 1 < list.length := by omega
  obtain ⟨hcount, oid, hoid, hnext⟩ := accepted_row haccepted hi
  obtain rfl := hnext hlt
  have hfound := h.inserted _ hi _ hoid
  obtain ⟨entry, hentry, hfound'⟩ := found_insertAll haccepted list[list.length - 1].key
  rw [hfound'] at hfound
  match entry with
  | none => cases hfound
  | some (key', oid) =>
    obtain ⟨i, hi', -, -, rfl, -, hoid'⟩ := hentry
    by_cases hread : list[i].key = list[list.length - 1].key ∧ oid ≠ nullFileAddr
    · simp only [if_pos hread, Option.some.injEq] at hfound
      have hposition := hoid' hlt
      have := Nat.mod_lt i (lt_of_lt_of_le Nat.zero_lt_two hcount)
      omega
    · simp [hread] at hfound

/-- The primary index is a map as long as no two keys have one slot and all rows are in the first `INDR` block. -/
theorem primary_isMap_iff (haccepted : Accepted list (create pageSize used)) (hkeys : (list.map RowData.key).Nodup) :
    IsMap list (create pageSize used) ↔
      (list.map (slotOf pageSize)).Nodup ∧ list.length ≤ indirectMaxCount pageSize :=
  ⟨fun h => ⟨slots_of_isMap haccepted hkeys h, length_of_isMap haccepted hkeys h⟩,
    fun h => isMap_of_slots haccepted h.1 h.2⟩

/-! ### Rows that are accepted -/

theorem newEntryIndex_accepts (hpage : 57 ≤ t.pageSize) (key : MurmurKey) (positionOid : Nat) :
    ∃ offset t', Yields (newEntryIndex key.bytes positionOid) t offset t' := by
  have hroom : ¬ (t.pageSize - entryIndexSize) / (1 + 8 + 16) = 0 := by
    unfold entryIndexSize
    omega
  have hadd : ∃ entries, addEntry t.pageSize (1 + 8 + 16) [] key.bytes positionOid = some entries := by
    simp [addEntry, bisect, hroom]
  obtain ⟨entries, hadd⟩ := hadd
  refine ⟨t.pageSize * t.used, _, yields_of_value ?_⟩
  unfold newEntryIndex Program.value
  rw [(allocateNewBlock_yields _ t).run_bind, (Yields.modify _ _).run_bind, (Yields.get _).run_bind]
  simp only [setBlock_pageSize, allocated_pageSize, hadd]
  rfl

theorem setTopIndex_accepts (h : Holding last refs t) (key : MurmurKey) (offset : Reference) :
    ∃ t', Yields (setTopIndex t.primaryIndexBlock key.bytes offset) t ⟨⟩ t' := by
  refine ⟨_, yields_of_value ?_⟩
  unfold setTopIndex Program.value
  rw [(Yields.get t).run_bind]
  by_cases hslot : keyToIndex t.pageSize key.bytes = 0
  · rw [if_pos hslot]
    rfl
  · rw [if_neg hslot, (getBlock_yields h.block).run_bind]
    rfl

/-- The primary index accepts a row for which the cursor found no top index. -/
theorem insertPrimary_accepts (h : Slots last t) (hpage : 57 ≤ t.pageSize) {row : RowData}
    (hrow : row.indexReferences = []) (positionOid : Nat) : ∃ t', Yields (insertPrimary row positionOid) t ⟨⟩ t' := by
  obtain ⟨t₁, refs, hprimary, hholding, hpage₁, -⟩ := primaryIndexBlockCreated_yields h (by omega)
  obtain ⟨offset, t₂, hnew⟩ := newEntryIndex_accepts (hpage₁ ▸ hpage) row.key positionOid
  obtain ⟨-, -, -, -, hkeeps⟩ := newEntryIndex_of_yields hnew
  obtain ⟨t₃, hset⟩ := setTopIndex_accepts (hholding.keeps hkeeps) row.key offset
  rw [hkeeps.primaryIndexBlock] at hset
  refine ⟨t₃, ?_⟩
  rw [insertPrimary, hrow]
  exact hprimary.bind (hnew.bind hset)

theorem rowInsert_accepts (h : Slots last t) (hpage : 57 ≤ t.pageSize) {rows : Nat → Reference} {n : Nat}
    (hindexed : Indexed rows n t) (hlt : n + 1 < 2 ^ 64) {row : RowData} (hblob : row.blob = rows (n + 1))
    (hrow : row.indexReferences = []) : (rowInsert row).value t = some (n + 1) := by
  obtain ⟨u, hextends, -, hrun⟩ := rowInsert_run hindexed hlt hblob
  have hkeeps : KeepsPrimary t u := by
    have hnumbered : KeepsPrimary t t.numbered := ⟨⟨rfl, le_rfl, fun _ _ h _ _ => h⟩, rfl, rfl⟩
    exact hnumbered.trans hextends.toKeepsPrimary
  obtain ⟨t', hprimary⟩ := insertPrimary_accepts (h.keeps hkeeps) (hkeeps.pageSize.symm ▸ hpage) hrow
    (n % indirectMaxCount t.pageSize + 1)
  rw [Program.value, hrun, hprimary.run_bind]
  rfl

/-- All rows are accepted when an entry fits in a page. -/
theorem accepted_of_empty (hpage : 57 ≤ pageSize) (hlt : list.length < 2 ^ 64)
    (hrows : ∀ row ∈ list, row.indexReferences = []) : Accepted list (create pageSize used) := by
  have hvalue : ∀ {k last}, (hk : k < list.length) → Slots last (insertAll (list.take k) (create pageSize used)) →
      (insertAll (list.take k) (create pageSize used)).pageSize = pageSize →
      (rowInsert list[k]).value (insertAll (list.take k) (create pageSize used)) = some (k + 1) := by
    intro k last hk hslots hsize
    refine rowInsert_accepts hslots (hsize.symm ▸ hpage) (insertAll_create (two_le_count hpage) hk.le hlt) (by omega) ?_
      (hrows _ (List.getElem_mem hk))
    simp [blobs, List.getElem?_eq_getElem hk]
  have hstep : ∀ k ≤ list.length, (insertAll (list.take k) (create pageSize used)).pageSize = pageSize ∧
      ∃ last, Slots last (insertAll (list.take k) (create pageSize used)) := by
    intro k
    induction k with
    | zero => exact fun _ => ⟨rfl, _, create_slots pageSize used⟩
    | succ k ih =>
      intro hk
      obtain ⟨hsize, last, hslots⟩ := ih (Nat.le_of_succ_le hk)
      obtain ⟨-, hsize', _, hslots', -⟩ := rowInsert_slots hslots (yields_of_value (hvalue hk hslots hsize))
      rw [insertAll_take_succ hk]
      exact ⟨hsize'.trans hsize, _, hslots'⟩
  intro k hk
  obtain ⟨hsize, last, hslots⟩ := hstep k hk.le
  rw [hvalue hk hslots hsize]
  rfl

theorem primary_isMap_two : IsMap [rowOfByte 1 8192, rowOfByte 2 8256] (create 4096 1) :=
  (primary_isMap_iff (accepted_of_empty (by decide) (by simp) (by simp [rowOfByte])) (by decide)).mpr
    ⟨by decide +kernel, by decide⟩

/-- The last 9 bits of a key choose its slot in a page of 4096 bytes: of two keys with different first bytes, the first
    is lost. -/
theorem primary_not_isMap : ¬ ∀ (pageSize used : Nat) (list : List RowData), Accepted list (create pageSize used) →
    (list.map RowData.key).Nodup → IsMap list (create pageSize used) := by
  intro h
  have hmap := h 4096 1 [rowOfByte 1 8192, { key := ⟨2 :: List.replicate 15 1, rfl⟩, blob := 8256 }]
    (accepted_of_empty (by decide) (by simp) (by simp [rowOfByte])) (by decide)
  have hslots := slots_of_isMap (accepted_of_empty (by decide) (by simp) (by simp [rowOfByte])) (by decide) hmap
  revert hslots
  decide +kernel

end Snapwebsites.Snapdatabase.Table
