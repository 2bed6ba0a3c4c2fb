import Snapwebsites.Snapdatabase.Indirect

/-! # Inserting rows

`row_insert()` on a table whose indirect index holds the rows from 1 to `n`: it gives the row the OID `n + 1`,
puts its reference in the indirect index (`rowInsert_run`) and goes on to the primary index, which leaves the
indirect index alone, whether it throws or not. So after any number of insertions the indirect index maps each OID
to the reference that was stored with it (`getIndirectReference_insertAll`). -/

namespace Snapwebsites.Snapdatabase.Table
open Program

variable {rows : Nat → Reference} {n R : Nat} {t t' : Table} {place : Reference → Option (Nat × Nat)}

/-- The indirect index holds the rows from 1 to `n`. -/
structure Maps (rows : Nat → Reference) (n : Nat) (t : Table) : Prop where
  two_le : 2 ≤ indirectMaxCount t.pageSize
  used : 1 ≤ t.used
  placed : (n = 0 ∧ t.indirectIndex = nullFileAddr) ∨ ∃ R place, Placed rows n t R place

/-- The indirect index holds the rows from 1 to `n`, and `n + 1` is the next OID. -/
structure Indexed (rows : Nat → Reference) (n : Nat) (t : Table) : Prop extends Maps rows n t where
  firstFreeOid : t.firstFreeOid = 0
  lastOid : t.lastOid = (n + 1) % 2 ^ 64

theorem create_indexed {pageSize : Nat} (used : Nat) (h : 2 ≤ indirectMaxCount pageSize) :
    Indexed rows 0 (create pageSize used) :=
  ⟨⟨h, Nat.le_add_left 1 used, .inl ⟨rfl, rfl⟩⟩, rfl, rfl⟩

/-- What keeps the blocks of the indirect index keeps what it holds. -/
theorem Maps.frame (h : Maps rows n t) (hpage : t'.pageSize = t.pageSize) (hroot : t'.indirectIndex = t.indirectIndex)
    (hused : t.used ≤ t'.used)
    (hblock : ∀ a blk, t.block a = some blk → blk.isIndirect = true → a < t.pageSize * t.used → t'.block a = some blk) :
    Maps rows n t' := by
  refine ⟨hpage ▸ h.two_le, h.used.trans hused, ?_⟩
  obtain ⟨hn, hnull⟩ | ⟨R, place, hplaced⟩ := h.placed
  · exact .inl ⟨hn, hroot.trans hnull⟩
  · refine .inr ⟨R, place, hplaced.frame hpage hroot hused ?_⟩
    intro a p ha
    have hlt := (hplaced.address a p ha).2
    obtain ⟨refs, hblk⟩ | ⟨refs, hblk⟩ := hplaced.cases ha
    · rw [hblk, hblock a _ hblk rfl hlt]
    · rw [hblk, hblock a _ hblk rfl hlt]

/-! ### The indirect index -/

theorem Maps.pageSize_pos (h : Maps rows n t) : 1 < t.pageSize * t.used := by
  have hpage : 2 ≤ t.pageSize := by
    by_contra hlt
    have h0 : indirectMaxCount t.pageSize = 0 := by
      have : t.pageSize = 0 ∨ t.pageSize = 1 := by omega
      obtain h0 | h1 := this
      · rw [h0]
        rfl
      · rw [h1]
        rfl
    have := h.two_le
    omega
  exact lt_of_lt_of_le hpage (Nat.le_mul_of_pos_right _ h.used)

/-- The first row makes the root. -/
theorem placed_first (h : Maps rows 0 t) {y : Reference} {refs : Nat → Reference} (hy : missingFileAddr < y)
    (hpage : t'.pageSize = t.pageSize) (hroot : t'.indirectIndex = y) (hused : y < t'.pageSize * t'.used)
    (hnew : t'.block y = some (.indirectIndex refs)) (hrow : refs 0 = rows 1) :
    Placed rows 1 t' 0 (Function.update (fun _ => none) y (some (0, 0))) := by
  have hone : ∀ {a p}, Function.update (fun _ => none) y (some ((0 : Nat), (0 : Nat))) a = some p → a = y ∧ p = (0, 0) := by
    intro a p ha
    by_cases hay : a = y
    · subst hay
      rw [Function.update_self] at ha
      exact ⟨rfl, (Option.some.inj ha).symm⟩
    · rw [Function.update_of_ne hay] at ha
      cases ha
  have hcount := h.two_le
  rw [← hpage] at hcount
  constructor
  · exact hcount
  · rw [hroot, Function.update_self]
  · exact fun _ _ => rfl
  · rw [Nat.zero_add, Nat.pow_one]
    omega
  · exact .inl rfl
  · exact Nat.pos_of_ne_zero fun h0 => by simp [h0] at hused
  · intro a p ha
    obtain ⟨rfl, -⟩ := hone ha
    exact ⟨hy, hused⟩
  · intro a L b ha
    obtain ⟨-, hp⟩ := hone ha
    cases hp
    exact ⟨le_rfl, Nat.zero_lt_one, Nat.dvd_zero _⟩
  · intro a L b ha
    obtain ⟨rfl, hp⟩ := hone ha
    cases hp
    refine ⟨_, hnew, .inl rfl, ?_⟩
    intro i _ hi
    obtain rfl : i = 0 := by omega
    exact hrow
  · intro a a' p ha ha'
    rw [(hone ha).1, (hone ha').1]
  · intro a L b refs' a' L' b' ha _ ha' hlt
    obtain ⟨-, hp⟩ := hone ha
    obtain ⟨-, hp'⟩ := hone ha'
    cases hp
    cases hp'
    exact absurd hlt (lt_irrefl _)

theorem findIndirect_yields (h : Maps rows n t) (hlt : n + 1 < 2 ^ 64) : ∃ indr positionOid t',
    Yields (findIndirect false (n + 1)) t (indr, positionOid) t' ∧ Extends t t' ∧ Ready rows n t' indr positionOid := by
  obtain ⟨rfl, hnull⟩ | ⟨R, place, hplaced⟩ := h.placed
  · refine ⟨t.pageSize * t.used, 1, (t.allocated newIndirectIndex).rooted (t.pageSize * t.used), (Yields.get t).bind ?_,
      (Extends.allocated newIndirectIndex).trans (Extends.rooted _), ?_⟩
    · simp only [if_pos hnull, Nat.zero_add, ne_eq, not_true_eq_false, if_false]
      exact (allocateNewBlock_yields _ t).bind ((rooted_yields _ _).bind (Yields.pure ..))
    · refine ⟨by simp, fun _ => nullFileAddr, allocated_block_self _, ?_⟩
      intro t' hpage hroot hused hnew _
      refine ⟨0, _, placed_first h (y := t.pageSize * t.used) h.pageSize_pos hpage hroot ?_ hnew (Function.update_self ..)⟩
      rw [hpage]
      refine Nat.mul_lt_mul_of_pos_left (lt_of_lt_of_le (Nat.lt_succ_self _) hused) ?_
      exact Nat.pos_of_mul_pos_right (Nat.lt_trans Nat.zero_lt_one h.pageSize_pos)
  · have hne : t.indirectIndex ≠ nullFileAddr := fun h0 =>
      absurd (h0 ▸ (hplaced.address _ _ hplaced.root).1) (by decide)
    have hunder : Under n R t place t.indirectIndex R 0 none := ⟨rfl, rfl, rfl⟩
    obtain ⟨indr, positionOid, t', hyields, hrest⟩ := descend_yields hplaced hlt hplaced.root hunder hplaced.lt_used
    refine ⟨indr, positionOid, t', (Yields.get t).bind ?_, hrest⟩
    simp only [if_neg hne]
    exact hyields

/-- The table in which the next OID is taken. -/
def numbered (t : Table) : Table := { t with lastOid := (t.lastOid + 1) % 2 ^ 64 }

theorem allocateOid_yields (h : Indexed rows n t) (hlt : n + 1 < 2 ^ 64) :
    Yields allocateOid t (n + 1, false) t.numbered := by
  have hlast := h.lastOid
  rw [Nat.mod_eq_of_lt hlt] at hlast
  refine (Yields.get t).bind ?_
  rw [if_neg (not_not.mpr h.firstFreeOid), ← hlast]
  rfl

theorem Maps.numbered (h : Maps rows n t) : Maps rows n t.numbered :=
  h.frame rfl rfl le_rfl fun _ _ hblk _ _ => hblk

/-- The reference of the row `oid` at its position in the `INDR` block `indr`, which has `refs`. -/
def stored (t : Table) (row : RowData) (indr : Reference) (refs : Nat → Reference) (position : Nat) : Table :=
  ({ t with used := t.used + row.dataBlocks } : Table).setBlock indr (.indirectIndex (Function.update refs position row.blob))

theorem Extends.stored {row : RowData} {indr : Reference} {refs : Nat → Reference} {position : Nat}
    (h : t.block indr = some (.indirectIndex refs)) : Extends t (t.stored row indr refs position) :=
  ⟨⟨⟨rfl, Nat.le_add_right .., (Extends.setBlock h rfl).block⟩, rfl, rfl⟩, rfl, rfl⟩

/-- `row_insert()` puts the row in the indirect index, and then goes on to the primary index. -/
theorem rowInsert_run (h : Indexed rows n t) (hlt : n + 1 < 2 ^ 64) {row : RowData} (hrow : row.blob = rows (n + 1)) :
    ∃ t', Extends t.numbered t' ∧ Indexed rows (n + 1) t' ∧ (rowInsert row).run.run t =
      (insertPrimary row (n % indirectMaxCount t.pageSize + 1) >>= fun _ => pure (n + 1)).run.run t' := by
  obtain ⟨indr, positionOid, t₁, hfind, hextends, hready⟩ := findIndirect_yields h.numbered hlt
  obtain ⟨refs, hindr, hstore⟩ := hready.placed
  have hpage : t₁.pageSize = t.pageSize := hextends.pageSize
  have hmod : n % indirectMaxCount t₁.pageSize < indirectMaxCount t₁.pageSize :=
    Nat.mod_lt n (hpage ▸ lt_of_lt_of_le Nat.zero_lt_two h.two_le)
  have hpos : decrement positionOid = n % indirectMaxCount t₁.pageSize := by
    have hle := Nat.mod_le n (indirectMaxCount t₁.pageSize)
    rw [hready.position, decrement_eq (Nat.le_add_left 1 _) (by omega), Nat.add_sub_cancel]
  have hset : Yields (indirectSetReference indr positionOid row.blob) { t₁ with used := t₁.used + row.dataBlocks } ⟨⟩
      (t₁.stored row indr refs (n % indirectMaxCount t₁.pageSize)) := by
    rw [stored, ← hpos]
    exact indirectSetReference_yields (t := { t₁ with used := t₁.used + row.dataBlocks }) hindr
      (by rw [hpos]; exact hmod) row.blob
  have hstored : Extends t.numbered (t₁.stored row indr refs (n % indirectMaxCount t₁.pageSize)) :=
    hextends.trans (Extends.stored hindr)
  refine ⟨t₁.stored row indr refs (n % indirectMaxCount t₁.pageSize), hstored, ?_, ?_⟩
  · refine ⟨⟨hstored.pageSize ▸ h.two_le, h.used.trans hstored.used, .inr (hstore _ rfl rfl (Nat.le_add_right ..) ?_ ?_)⟩, ?_, ?_⟩
    · rw [stored, setBlock_block_self, hrow]
    · exact fun a ha => setBlock_block_of_ne ha _
    · exact hstored.firstFreeOid.trans h.firstFreeOid
    · refine hstored.lastOid.trans ?_
      rw [numbered, h.lastOid, Nat.mod_add_mod]
  · unfold rowInsert
    rw [(allocateOid_yields h hlt).run_bind, hfind.run_bind, (Yields.modify _ _).run_bind, hset.run_bind, hready.position, hpage]

/-! ### The primary index -/

/-- The indirect index is the same in `t'` as in `t`. -/
structure KeepsIndirect (t t' : Table) : Prop extends KeepsBlocks (fun b => b.isIndirect = true) t t' where
  indirectIndex : t'.indirectIndex = t.indirectIndex
  firstFreeOid : t'.firstFreeOid = t.firstFreeOid
  lastOid : t'.lastOid = t.lastOid

namespace KeepsIndirect

theorem refl (t : Table) : KeepsIndirect t t := ⟨.refl t, rfl, rfl, rfl⟩

theorem trans {u : Table} (h : KeepsIndirect t t') (h' : KeepsIndirect t' u) : KeepsIndirect t u :=
  ⟨h.toKeepsBlocks.trans h'.toKeepsBlocks, h'.indirectIndex.trans h.indirectIndex, h'.firstFreeOid.trans h.firstFreeOid,
    h'.lastOid.trans h.lastOid⟩

theorem allocated (b : Block) : KeepsIndirect t (t.allocated b) := ⟨.allocated b, rfl, rfl, rfl⟩

theorem setBlock {offset : Reference} {b b' : Block} (hb : t.block offset = some b) (hkind : b.isIndirect = false) :
    KeepsIndirect t (t.setBlock offset b') :=
  ⟨.setBlock hb (by simp [hkind]), rfl, rfl, rfl⟩

end KeepsIndirect

theorem Indexed.keeps (h : Indexed rows n t) (hkeeps : KeepsIndirect t t') : Indexed rows n t' :=
  ⟨h.frame hkeeps.pageSize hkeeps.indirectIndex hkeeps.used hkeeps.block, hkeeps.firstFreeOid.trans h.firstFreeOid,
    hkeeps.lastOid.trans h.lastOid⟩

theorem primaryIndexBlockCreated_keeps (t : Table) : KeepsIndirect t (primaryIndexBlockCreated.exec t) := by
  unfold primaryIndexBlockCreated
  rw [exec_bind (Yields.get t)]
  split
  · exact ⟨⟨rfl, Nat.le_succ _, (KeepsIndirect.allocated newPrimaryIndex).block⟩, rfl, rfl, rfl⟩
  · exact KeepsIndirect.refl t

theorem newEntryIndex_keeps (key : Bytes) (positionOid : Nat) (t : Table) :
    KeepsIndirect t ((newEntryIndex key positionOid).exec t) := by
  unfold newEntryIndex
  rw [exec_bind (allocateNewBlock_yields _ t), exec_bind (Yields.modify _ _), exec_bind (Yields.get _)]
  have hempty : KeepsIndirect t ((t.allocated (.entryIndex 0 [])).setBlock (t.pageSize * t.used) (.entryIndex (1 + 8 + 16) [])) :=
    (KeepsIndirect.allocated _).trans (KeepsIndirect.setBlock (allocated_block_self _) rfl)
  split
  · exact hempty.trans (KeepsIndirect.setBlock (setBlock_block_self _) rfl)
  · exact hempty

theorem getBlock_exec (offset : Reference) (t : Table) : (getBlock offset).exec t = t := by
  unfold getBlock
  rw [exec_bind (Yields.get t)]
  cases t.block offset <;> rfl

theorem getBlock_of_yields {offset : Reference} {b : Block} (h : Yields (getBlock offset) t b t') :
    t' = t ∧ t.block offset = some b := by
  cases hblk : t.block offset with
  | none =>
    have hnone : (getBlock offset).run.run t = (none, t) := by
      unfold getBlock
      rw [(Yields.get t).run_bind, hblk]
      rfl
    cases hnone.symm.trans h
  | some b' =>
    have hsome := getBlock_yields hblk
    cases hsome.symm.trans h
    exact ⟨rfl, rfl⟩

theorem setTopIndex_keeps (primary : Reference) (key : Bytes) (offset : Reference) (t : Table) :
    KeepsIndirect t ((setTopIndex primary key offset).exec t) := by
  unfold setTopIndex
  rw [exec_bind (Yields.get t)]
  split
  · exact ⟨⟨rfl, le_rfl, fun _ _ h _ _ => h⟩, rfl, rfl, rfl⟩
  · refine exec_bind_keeps KeepsIndirect.trans (by rw [getBlock_exec]; exact KeepsIndirect.refl t) fun b u hyields => ?_
    obtain ⟨rfl, hblk⟩ := getBlock_of_yields hyields
    cases b with
    | primaryIndex refs => exact KeepsIndirect.setBlock hblk rfl
    | indirectIndex | topIndirectIndex | topIndex | entryIndex => exact KeepsIndirect.refl _

theorem insertPrimary_keeps (row : RowData) (positionOid : Nat) (t : Table) :
    KeepsIndirect t ((insertPrimary row positionOid).exec t) := by
  unfold insertPrimary
  split
  · refine exec_bind_keeps KeepsIndirect.trans (primaryIndexBlockCreated_keeps t) fun primary t' _ => ?_
    exact exec_bind_keeps KeepsIndirect.trans (newEntryIndex_keeps _ _ t') fun entryIndex u _ => setTopIndex_keeps _ _ _ u
  · exact KeepsIndirect.refl t

/-! ### Any number of rows -/

/-- A row takes the OID `n + 1`, even when the primary index has no place for it. -/
theorem rowInsert_indexed (h : Indexed rows n t) (hlt : n + 1 < 2 ^ 64) {row : RowData} (hrow : row.blob = rows (n + 1)) :
    Indexed rows (n + 1) ((rowInsert row).exec t) := by
  obtain ⟨t', -, hindexed, hrun⟩ := rowInsert_run h hlt hrow
  have hexec : (rowInsert row).exec t =
      (insertPrimary row (n % indirectMaxCount t.pageSize + 1) >>= fun _ => (pure (n + 1) : Program Table Nat)).exec t' :=
    congrArg Prod.snd hrun
  rw [hexec]
  exact hindexed.keeps (exec_bind_keeps KeepsIndirect.trans (insertPrimary_keeps ..) fun _ _ _ => KeepsIndirect.refl _)

/-- The table after the rows, in their order. -/
def insertAll (rows : List RowData) (t : Table) : Table := rows.foldl (fun t row => (rowInsert row).exec t) t

theorem insertAll_indexed {list : List RowData} : ∀ {n t}, Indexed rows n t → n + list.length < 2 ^ 64 →
    (∀ i (hi : i < list.length), list[i].blob = rows (n + i + 1)) → Indexed rows (n + list.length) (insertAll list t) := by
  induction list with
  | nil => exact fun h _ _ => h
  | cons row rest ih =>
    intro n t h hlt hrows
    rw [List.length_cons] at hlt ⊢
    have hrest := ih (rowInsert_indexed h (by omega) (hrows 0 (Nat.succ_pos _))) (by omega) fun i hi => by
      have := hrows (i + 1) (Nat.succ_lt_succ hi)
      rwa [List.getElem_cons_succ, show n + (i + 1) + 1 = n + 1 + i + 1 by omega] at this
    rw [show n + (rest.length + 1) = n + 1 + rest.length by omega]
    exact hrest

/-- The reference of the row `k` of a list. -/
def blobs (list : List RowData) (k : Nat) : Reference := ((list[k - 1]?).map RowData.blob).getD nullFileAddr

theorem insertAll_create {pageSize used : Nat} (hcount : 2 ≤ indirectMaxCount pageSize) {list : List RowData} {k : Nat}
    (hk : k ≤ list.length) (hlt : list.length < 2 ^ 64) :
    Indexed (blobs list) k (insertAll (list.take k) (create pageSize used)) := by
  have h : Indexed (blobs list) (0 + (list.take k).length) (insertAll (list.take k) (create pageSize used)) := by
    refine insertAll_indexed (create_indexed used hcount) (by rw [List.length_take, Nat.zero_add]; omega) fun i hi => ?_
    rw [List.length_take] at hi
    simp [blobs, List.getElem?_eq_getElem (show i < list.length by omega)]
  rwa [Nat.zero_add, List.length_take, min_eq_left hk] at h

/-- `get_indirect_reference()` of each row there is. -/
theorem Indexed.getIndirectReference (h : Indexed rows n t) (hlt : n < 2 ^ 64) {k : Nat} (hk : 1 ≤ k) (hkn : k ≤ n) :
    t.getIndirectReference k = some (rows k) := by
  obtain ⟨rfl, -⟩ | ⟨R, place, hplaced⟩ := h.placed
  · omega
  · have hne : t.indirectIndex ≠ nullFileAddr := fun h0 =>
      absurd (h0 ▸ (hplaced.address _ _ hplaced.root).1) (by decide)
    have hwalk := walk_eq hplaced hlt hplaced.root hk (by omega) (hkn.trans hplaced.le_size) hplaced.lt_used
    rw [Nat.zero_add] at hwalk
    rw [Table.getIndirectReference, if_neg hne, hwalk]

/-- After any number of insertions, the indirect index gives for each OID the reference that was stored by the
    insertion that allocated it. -/
theorem getIndirectReference_insertAll (pageSize used : Nat) (list : List RowData)
    (hcount : 2 ≤ indirectMaxCount pageSize) (hlt : list.length < 2 ^ 64)
    (k : Nat) (hk : k < list.length) :
    allocateOid.value (insertAll (list.take k) (create pageSize used)) = some (k + 1, false) ∧
      (insertAll list (create pageSize used)).getIndirectReference (k + 1) = some list[k].blob := by
  constructor
  · exact (allocateOid_yields (insertAll_create hcount hk.le hlt) (by omega)).value
  · have h : Indexed (blobs list) list.length (insertAll (list.take list.length) (create pageSize used)) :=
      insertAll_create hcount le_rfl hlt
    rw [List.take_length] at h
    rw [h.getIndirectReference hlt (Nat.le_add_left 1 k) hk]
    simp [blobs, List.getElem?_eq_getElem hk]

/-- The row of a key of 16 equal bytes. -/
def rowOfByte (byte : UInt8) (blob : Reference) : RowData :=
  { key := ⟨List.replicate 16 byte, List.length_replicate⟩, blob }

/-- Blocks of two references: the third row makes the first `TIND` block. -/
theorem getIndirectReference_insertAll_three :
    allocateOid.value (insertAll [rowOfByte 1 64, rowOfByte 2 96] (create 32 1)) = some (3, false) ∧
      (insertAll [rowOfByte 1 64, rowOfByte 2 96, rowOfByte 3 128] (create 32 1)).getIndirectReference 3 = some 128 := by
  have h := getIndirectReference_insertAll 32 1 [rowOfByte 1 64, rowOfByte 2 96, rowOfByte 3 128] (by decide) (by simp) 2 (by simp)
  exact h

end Snapwebsites.Snapdatabase.Table
