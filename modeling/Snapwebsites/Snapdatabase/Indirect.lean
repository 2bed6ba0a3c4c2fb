import Snapwebsites.Snapdatabase.Places

/-! # The indirect index as a map

What the parts of `row_insert()` do to a table, and that the indirect index is the map from each OID to the
reference that was stored with it. A search for the next row goes down from the root (`descend_yields`); each of
its ends leaves an `INDR` block that is `Ready` for the row. -/

namespace Snapwebsites.Snapdatabase
open Program Table

/-! ### Positions -/

theorem decrement_eq {id : Nat} (h : 1 ≤ id) (hlt : id < 2 ^ 64) : decrement id = id - 1 := by
  unfold decrement
  omega

theorem power_eq {c : Nat} (hc : 1 ≤ c) : ∀ {L : Nat}, 1 ≤ L → c ^ L < 2 ^ 64 → power c L = c ^ L
  | 1, _, _ => by rw [power, Nat.pow_one]
  | L + 2, _, hlt => by
    have hle : c ^ (L + 1) ≤ c ^ (L + 2) := Nat.pow_le_pow_right hc (Nat.le_succ _)
    rw [power, power_eq hc (Nat.le_add_left 1 L) (lt_of_le_of_lt hle hlt), ← Nat.pow_succ, Nat.mod_eq_of_lt hlt]

/-- The row `b + q * c ^ L + r` is the row `r` of the reference `q` of a block that starts at `b`. -/
theorem topPosition_eq {c L n b q : Nat} (hc : 1 ≤ c) (hL : 1 ≤ L) (hpow : c ^ L < 2 ^ 64) (hn : n + 1 < 2 ^ 64)
    (hle : b + q * c ^ L ≤ n) (hlt : n < b + q * c ^ L + c ^ L) :
    topPosition c L (n + 1 - b) = (q, n + 1 - (b + q * c ^ L)) := by
  have hpos : 0 < c ^ L := Nat.pow_pos hc
  have hsub : n + 1 - b - 1 = n - (b + q * c ^ L) + c ^ L * q := by
    rw [Nat.mul_comm (c ^ L) q]
    omega
  unfold topPosition
  rw [decrement_eq (by omega) (by omega), power_eq hc hL hpow, hsub, Nat.add_mul_div_left _ _ hpos,
    Nat.add_mul_mod_self_left, Nat.div_eq_of_lt (by omega), Nat.mod_eq_of_lt (by omega), Nat.zero_add]
  congr 1
  omega

/-! ### The steps of a program -/

namespace Block

def isIndirect : Block → Bool
  | indirectIndex _ => true
  | topIndirectIndex _ _ => true
  | _ => false

end Block

namespace Table

/-- The table with one more block in use. -/
def allocated (t : Table) (b : Block) : Table := { t.setBlock (t.pageSize * t.used) b with used := t.used + 1 }

/-- The table with another root of the indirect index. -/
def rooted (t : Table) (r : Reference) : Table := { t with indirectIndex := r }

variable {t : Table} {offset : Reference} {level : Nat} {refs : Nat → Reference}

theorem setBlock_block_self (b : Block) : (t.setBlock offset b).block offset = some b := Function.update_self ..

theorem setBlock_block_of_ne {a : Reference} (h : a ≠ offset) (b : Block) : (t.setBlock offset b).block a = t.block a :=
  Function.update_of_ne h ..

@[simp] theorem setBlock_pageSize (b : Block) : (t.setBlock offset b).pageSize = t.pageSize := rfl

@[simp] theorem setBlock_used (b : Block) : (t.setBlock offset b).used = t.used := rfl

@[simp] theorem setBlock_indirectIndex (b : Block) : (t.setBlock offset b).indirectIndex = t.indirectIndex := rfl

@[simp] theorem allocated_pageSize (b : Block) : (t.allocated b).pageSize = t.pageSize := rfl

@[simp] theorem allocated_used (b : Block) : (t.allocated b).used = t.used + 1 := rfl

@[simp] theorem allocated_indirectIndex (b : Block) : (t.allocated b).indirectIndex = t.indirectIndex := rfl

@[simp] theorem rooted_pageSize (r : Reference) : (t.rooted r).pageSize = t.pageSize := rfl

@[simp] theorem rooted_used (r : Reference) : (t.rooted r).used = t.used := rfl

theorem rooted_block (a r : Reference) : (t.rooted r).block a = t.block a := rfl

theorem allocated_block_self (b : Block) : (t.allocated b).block (t.pageSize * t.used) = some b := Function.update_self ..

theorem allocated_block_of_ne {a : Reference} (h : a ≠ t.pageSize * t.used) (b : Block) :
    (t.allocated b).block a = t.block a := Function.update_of_ne h ..

theorem allocateNewBlock_yields (b : Block) (t : Table) :
    Yields (allocateNewBlock b) t (t.pageSize * t.used) (t.allocated b) := rfl

theorem rooted_yields (r : Reference) (t : Table) :
    Yields (modify fun t => { t with indirectIndex := r } : Program Table PUnit) t ⟨⟩ (t.rooted r) := rfl

theorem getBlock_yields {b : Block} (h : t.block offset = some b) : Yields (getBlock offset) t b t := by
  refine (Yields.get t).bind ?_
  rw [h]
  exact Yields.pure b t

theorem setBlockLevel_yields (h : t.block offset = some (.topIndirectIndex level refs)) (l : Nat) :
    Yields (setBlockLevel offset l) t ⟨⟩ (t.setBlock offset (.topIndirectIndex l refs)) :=
  (getBlock_yields h).bind (Yields.modify ..)

theorem topSetReference_yields (h : t.block offset = some (.topIndirectIndex level refs)) {id q id' : Nat}
    (hpos : topPosition (indirectMaxCount t.pageSize) level id = (q, id')) (hq : q < indirectMaxCount t.pageSize)
    (reference : Reference) : Yields (topSetReference offset id reference) t id'
      (t.setBlock offset (.topIndirectIndex level (Function.update refs q reference))) := by
  refine (Yields.get t).bind ((getBlock_yields h).bind ?_)
  simp only [topIndirectMaxCount_eq, hpos, ge_iff_le, not_le.mpr hq, if_false]
  rfl

theorem indirectSetReference_yields (h : t.block offset = some (.indirectIndex refs)) {id : Nat}
    (hid : decrement id < indirectMaxCount t.pageSize) (reference : Reference) :
    Yields (indirectSetReference offset id reference) t ⟨⟩
      (t.setBlock offset (.indirectIndex (Function.update refs (decrement id) reference))) := by
  refine (Yields.get t).bind ((getBlock_yields h).bind ?_)
  simp only [ge_iff_le, not_le.mpr hid, if_false]
  rfl

/-! ### What a step leaves alone -/

/-- The blocks of a kind are the same in `t'` as in `t`. -/
structure KeepsBlocks (kind : Block → Prop) (t t' : Table) : Prop where
  pageSize : t'.pageSize = t.pageSize
  used : t.used ≤ t'.used
  block : ∀ a blk, t.block a = some blk → kind blk → a < t.pageSize * t.used → t'.block a = some blk

/-- The primary index is the same in `t'` as in `t`. -/
structure KeepsPrimary (t t' : Table) : Prop extends KeepsBlocks (fun b => b.isIndirect = false) t t' where
  primaryIndexBlock : t'.primaryIndexBlock = t.primaryIndexBlock
  primaryIndexReferenceZero : t'.primaryIndexReferenceZero = t.primaryIndexReferenceZero

/-- The tables that the search for a row leads to from `t`: only blocks of the indirect index change. -/
structure Extends (t t' : Table) : Prop extends KeepsPrimary t t' where
  firstFreeOid : t'.firstFreeOid = t.firstFreeOid
  lastOid : t'.lastOid = t.lastOid

namespace KeepsBlocks
variable {kind : Block → Prop} {t' u : Table}

theorem refl (t : Table) : KeepsBlocks kind t t := ⟨rfl, le_rfl, fun _ _ h _ _ => h⟩

theorem trans (h : KeepsBlocks kind t t') (h' : KeepsBlocks kind t' u) : KeepsBlocks kind t u where
  pageSize := h'.pageSize.trans h.pageSize
  used := h.used.trans h'.used
  block a blk hblk hkind ha := by
    refine h'.block a blk (h.block a blk hblk hkind ha) hkind (lt_of_lt_of_le ha ?_)
    rw [h.pageSize]
    exact Nat.mul_le_mul_left _ h.used

theorem allocated (b : Block) : KeepsBlocks kind t (t.allocated b) :=
  ⟨rfl, Nat.le_succ _, fun a blk hblk _ ha => by rw [allocated_block_of_ne ha.ne, hblk]⟩

theorem setBlock {b b' : Block} (hb : t.block offset = some b) (hkind : ¬ kind b) :
    KeepsBlocks kind t (t.setBlock offset b') := by
  refine ⟨rfl, le_rfl, ?_⟩
  intro a blk hblk hother _
  rw [setBlock_block_of_ne, hblk]
  rintro rfl
  rw [hb] at hblk
  cases hblk
  exact hkind hother

end KeepsBlocks

namespace KeepsPrimary
variable {t' u : Table}

theorem refl (t : Table) : KeepsPrimary t t := ⟨.refl t, rfl, rfl⟩

theorem trans (h : KeepsPrimary t t') (h' : KeepsPrimary t' u) : KeepsPrimary t u :=
  ⟨h.toKeepsBlocks.trans h'.toKeepsBlocks, h'.primaryIndexBlock.trans h.primaryIndexBlock,
    h'.primaryIndexReferenceZero.trans h.primaryIndexReferenceZero⟩

end KeepsPrimary

namespace Extends
variable {t' u : Table}

theorem refl (t : Table) : Extends t t := ⟨.refl t, rfl, rfl⟩

theorem trans (h : Extends t t') (h' : Extends t' u) : Extends t u :=
  ⟨h.toKeepsPrimary.trans h'.toKeepsPrimary, h'.firstFreeOid.trans h.firstFreeOid, h'.lastOid.trans h.lastOid⟩

theorem allocated (b : Block) : Extends t (t.allocated b) := ⟨⟨.allocated b, rfl, rfl⟩, rfl, rfl⟩

theorem setBlock {b b' : Block} (hb : t.block offset = some b) (hkind : b.isIndirect = true) :
    Extends t (t.setBlock offset b') :=
  ⟨⟨.setBlock hb (by simp [hkind]), rfl, rfl⟩, rfl, rfl⟩

theorem rooted (r : Reference) : Extends t (t.rooted r) :=
  ⟨⟨⟨rfl, le_rfl, fun _ _ h _ _ => h⟩, rfl, rfl⟩, rfl, rfl⟩

end Extends

/-! ### Blocks that are ready for the next row -/

variable {rows : Nat → Reference} {n R L b : Nat} {place : Reference → Option (Nat × Nat)} {x p : Reference}

/-- When the reference of the next row is stored in the `INDR` block at `positionOid`, the index holds that row. -/
structure Ready (rows : Nat → Reference) (n : Nat) (t : Table) (indr : Reference) (positionOid : Nat) : Prop where
  position : positionOid = n % indirectMaxCount t.pageSize + 1
  placed : ∃ refs, t.block indr = some (.indirectIndex refs) ∧ ∀ t' : Table, t'.pageSize = t.pageSize →
    t'.indirectIndex = t.indirectIndex → t.used ≤ t'.used →
    t'.block indr = some (.indirectIndex (Function.update refs (n % indirectMaxCount t.pageSize) (rows (n + 1)))) →
    (∀ a, a ≠ indr → t'.block a = t.block a) → ∃ R place, Placed rows (n + 1) t' R place

/-- An `INDR` block with room is ready. -/
theorem ready_store (h : Placed rows n t R place) (hx : place x = some (L, b)) (hxb : t.block x = some (.indirectIndex refs))
    (hroom : n < b + indirectMaxCount t.pageSize) : Ready rows n t x (n + 1 - b) := by
  have hb := (h.bounds x L b hx).2.1
  have hmod : n % indirectMaxCount t.pageSize = n - b := by
    obtain ⟨k, hk⟩ := h.dvd_count hx
    have hnk : n = n - b + indirectMaxCount t.pageSize * k := by omega
    conv_lhs => rw [hnk]
    rw [Nat.add_mul_mod_self_left, Nat.mod_eq_of_lt (by omega)]
  refine ⟨by omega, refs, hxb, ?_⟩
  intro t' hpage hroot hused hnew hblock
  rw [hmod] at hnew
  exact ⟨R, place, h.store hx hxb hroom hpage hroot hused hnew hblock⟩

/-- A `TIND` block gets a new `INDR` block for the next row, which is ready. -/
theorem attach_yields (h : Placed rows n t R place) (hp : place p = some (L, b))
    (hpb : t.block p = some (.topIndirectIndex L refs)) {q id : Nat} (hq : q < indirectMaxCount t.pageSize)
    (hn : b + q * indirectMaxCount t.pageSize ^ L = n)
    (hpos : topPosition (indirectMaxCount t.pageSize) L id = (q, 1)) : ∃ indr t',
      Yields (do
        let indr ← allocateNewBlock newIndirectIndex
        let positionOid ← topSetReference p id indr
        pure (indr, positionOid)) t (indr, 1) t' ∧ Extends t t' ∧ Ready rows n t' indr 1 := by
  have hpy : p ≠ t.pageSize * t.used := (h.address _ _ hp).2.ne
  have hpb' : (t.allocated newIndirectIndex).block p = some (.topIndirectIndex L refs) := by
    rw [allocated_block_of_ne hpy, hpb]
  have hmod : n % indirectMaxCount t.pageSize = 0 := by
    obtain ⟨-, hL, -⟩ := h.top hp hpb
    refine Nat.mod_eq_zero_of_dvd ?_
    rw [← hn]
    exact Nat.dvd_add (h.dvd_count hp) (Dvd.dvd.mul_left (dvd_pow_self _ (by omega)) q)
  refine ⟨t.pageSize * t.used, _, (allocateNewBlock_yields _ t).bind ((topSetReference_yields hpb' hpos hq _).bind
    (Yields.pure ..)), (Extends.allocated _).trans (Extends.setBlock hpb' rfl), ?_⟩
  refine ⟨by rw [setBlock_pageSize, allocated_pageSize, hmod], fun _ => nullFileAddr, ?_, ?_⟩
  · rw [setBlock_block_of_ne hpy.symm, allocated_block_self]
    rfl
  · intro t' hpage hroot hused hnew hblock
    rw [setBlock_pageSize, allocated_pageSize, hmod] at hnew
    rw [setBlock_pageSize, allocated_pageSize] at hpage
    rw [setBlock_used, allocated_used] at hused
    refine ⟨R, _, h.attach hp hpb hq hn le_rfl hpage hroot (by omega) ?_ ?_ hnew (Function.update_self ..) ?_⟩
    · rw [hpage]
      exact Nat.mul_lt_mul_of_pos_left (by omega) h.pageSize_pos
    · rw [hblock p hpy, setBlock_block_self]
    · intro a hap hay
      rw [hblock a hay, setBlock_block_of_ne hap, allocated_block_of_ne hay]

/-! ### A new root -/

/-- The table with a new `TIND` block of a level over the root. -/
def grown (t : Table) (level : Nat) : Table :=
  (((t.allocated newTopIndirectIndex).setBlock (t.pageSize * t.used) (.topIndirectIndex level fun _ => nullFileAddr)).rooted
    (t.pageSize * t.used)).setBlock (t.pageSize * t.used)
    (.topIndirectIndex level (Function.update (fun _ => nullFileAddr) 0 t.indirectIndex))

theorem grown_block (t : Table) (level : Nat) :
    (((t.allocated newTopIndirectIndex).setBlock (t.pageSize * t.used) (.topIndirectIndex level fun _ => nullFileAddr)).rooted
      (t.pageSize * t.used)).block (t.pageSize * t.used) = some (.topIndirectIndex level fun _ => nullFileAddr) := by
  rw [rooted_block, setBlock_block_self]

theorem grown_extends (t : Table) (level : Nat) : Extends t (t.grown level) := by
  refine (Extends.allocated newTopIndirectIndex).trans ?_
  have hset : Extends (t.allocated newTopIndirectIndex) ((t.allocated newTopIndirectIndex).setBlock (t.pageSize * t.used)
      (.topIndirectIndex level fun _ => nullFileAddr)) := Extends.setBlock (allocated_block_self _) rfl
  refine hset.trans ?_
  exact (Extends.rooted _).trans (Extends.setBlock (grown_block t level) rfl)

theorem grown_placed (h : Placed rows n t R place) (hfull : n = indirectMaxCount t.pageSize ^ (R + 1)) :
    Placed rows n (t.grown (R + 1)) (R + 1) (Function.update place (t.pageSize * t.used) (some (R + 1, 0))) := by
  refine h.grow hfull le_rfl rfl rfl (Nat.lt_succ_self _) ?_ (setBlock_block_self _) (Function.update_self ..) ?_ ?_
  · exact Nat.mul_lt_mul_of_pos_left (Nat.lt_succ_self _) h.pageSize_pos
  · exact fun j hj => Function.update_of_ne hj ..
  · intro z hz
    rw [grown, setBlock_block_of_ne hz, rooted_block, setBlock_block_of_ne hz, allocated_block_of_ne hz]

/-- The positions of the rows before and behind a full part. -/
theorem topPosition_full {c L b : Nat} (hc : 1 ≤ c) (hL : 1 ≤ L) (hn : n = b + c ^ L) (hlt : n + 1 < 2 ^ 64) :
    topPosition c L (n - b) = (0, n - b) ∧ topPosition c L (n + 1 - b) = (1, 1) := by
  have hpos : 0 < c ^ L := Nat.pow_pos hc
  have h0 := topPosition_eq (c := c) (L := L) (n := n - 1) (b := b) (q := 0) hc hL (by omega) (by omega) (by omega) (by omega)
  have h1 := topPosition_eq (c := c) (L := L) (n := n) (b := b) (q := 1) hc hL (by omega) hlt (by omega) (by omega)
  refine ⟨?_, ?_⟩
  · rw [show n - b = n - 1 + 1 - b by omega, h0]
    congr 1
    omega
  · rw [h1]
    congr 1
    omega

/-- The end of the search at a root that has no place for the next row. -/
theorem grown_yields (h : Placed rows n t R place) (hfull : n = indirectMaxCount t.pageSize ^ (R + 1)) (hlt : n + 1 < 2 ^ 64) :
    ∃ indr t', Yields (do
        let indr ← allocateNewBlock newIndirectIndex
        let positionOid ← topSetReference (t.pageSize * t.used) (n + 1) indr
        pure (indr, positionOid)) (t.grown (R + 1)) (indr, 1) t' ∧ Extends (t.grown (R + 1)) t' ∧ Ready rows n t' indr 1 := by
  have hpos := (topPosition_full (b := 0) h.pos (Nat.le_add_left 1 R) (by omega) hlt).2
  refine attach_yields (grown_placed h hfull) (L := R + 1) (b := 0) (q := 1) (Function.update_self ..) (setBlock_block_self _)
    h.two_le ?_ hpos
  change 0 + 1 * indirectMaxCount t.pageSize ^ (R + 1) = n
  omega

theorem growTop_yields (h : Placed rows n t R place) (hfull : n = indirectMaxCount t.pageSize ^ (R + 1)) (hR : R < 255)
    (hlt : n + 1 < 2 ^ 64) : ∃ indr t',
      Yields (growTop none t.indirectIndex R (n + 1)) t (indr, 1) t' ∧ Extends t t' ∧ Ready rows n t' indr 1 := by
  obtain ⟨indr, t', hyields, hextends, hready⟩ := grown_yields h hfull hlt
  refine ⟨indr, t', ?_, (grown_extends t (R + 1)).trans hextends, hready⟩
  have hpos := (topPosition_full (b := 0) h.pos (Nat.le_add_left 1 R) (by omega) hlt).1
  unfold growTop
  rw [if_neg (by omega)]
  refine (allocateNewBlock_yields _ t).bind ?_
  refine (setBlockLevel_yields (allocated_block_self _) _).bind ?_
  refine (rooted_yields _ _).bind ?_
  refine (topSetReference_yields (grown_block t (R + 1)) hpos h.pos _).bind ?_
  exact hyields

theorem splitRoot_yields (h : Placed rows n t 0 place) (hfull : n = indirectMaxCount t.pageSize) (hlt : n + 1 < 2 ^ 64) :
    ∃ indr t', Yields (splitIndirect none t.indirectIndex (n + 1)) t (indr, 1) t' ∧ Extends t t' ∧ Ready rows n t' indr 1 := by
  have hfull' : n = indirectMaxCount t.pageSize ^ (0 + 1) := by rwa [Nat.zero_add, Nat.pow_one]
  obtain ⟨indr, t', hyields, hextends, hready⟩ := grown_yields h hfull' hlt
  refine ⟨indr, t', ?_, (grown_extends t 1).trans hextends, hready⟩
  have hpos := (topPosition_full (b := 0) h.pos le_rfl (by rw [Nat.pow_one, Nat.zero_add]; exact hfull) hlt).1
  unfold splitIndirect
  refine (allocateNewBlock_yields _ t).bind ?_
  refine ((setBlockLevel_yields (allocated_block_self _) 1).bind
    (Yields.bind (f := fun _ => pure (t.pageSize * t.used)) (rooted_yields _ _) (Yields.pure ..))).bind ?_
  refine (topSetReference_yields (grown_block t 1) hpos h.pos _).bind ?_
  exact hyields

/-! ### A full block below another one -/

/-- The table in which the `TIND` block `a` of level `level` takes the slot `q` of the block `p` over it. -/
def inserted (t : Table) (p : Reference) (refs : Nat → Reference) (q : Nat) (a : Reference) (level : Nat) : Table :=
  (t.setBlock a (.topIndirectIndex level fun _ => nullFileAddr)).setBlock p
    (.topIndirectIndex (level + 1) (Function.update refs q a))

/-- In `t`, the new `TIND` block `a` is to take the slot `q` of the `TIND` block `p`, at the level `level + 1`, from the
    full `INDR` block `x`. -/
structure Splits (rows : Nat → Reference) (n R : Nat) (x : Reference) (b level : Nat) (t : Table)
    (place : Reference → Option (Nat × Nat)) (p a : Reference) (refs : Nat → Reference) (q id : Nat) : Prop where
  placed : Placed rows n (t.setBlock p (.topIndirectIndex (level + 1) (Function.update refs q x))) R place
  parent : t.block p = some (.topIndirectIndex (level + 1) refs)
  slot : ∃ b₀, place p = some (level + 1, b₀) ∧ b = b₀ + q * indirectMaxCount t.pageSize ^ (level + 1)
  slot_lt : q < indirectMaxCount t.pageSize
  position : topPosition (indirectMaxCount t.pageSize) (level + 1) id = (q, n + 1 - b)
  child : place x = some (level, b)
  child_block : ∃ refs, t.block x = some (.indirectIndex refs)
  new : t.block a = some newTopIndirectIndex
  new_place : place a = none
  new_address : missingFileAddr < a ∧ a < t.pageSize * t.used

variable {level q id : Nat} {a : Reference}

theorem Splits.lower (h : Splits rows n R x b level t place p a refs q id) (hlevel : 1 ≤ level) :
    Placed rows n ((t.inserted p refs q a level).setBlock a
        (.topIndirectIndex level (Function.update (fun _ => nullFileAddr) 0 x))) R
      (Function.update (Function.update place x (some (level - 1, b))) a (some (level, b))) := by
  obtain ⟨b₀, hp, hb⟩ := h.slot
  obtain ⟨refsx, hxb⟩ := h.child_block
  have hxp : x ≠ p := by
    rintro rfl
    rw [h.parent] at hxb
    cases hxb
  have hpa : p ≠ a := by
    rintro rfl
    rw [h.new_place] at hp
    cases hp
  refine h.placed.lower h.child ((setBlock_block_of_ne hxp _).trans hxb) hlevel hp (setBlock_block_self _) h.slot_lt
    (Function.update_self ..) hb h.new_address.1 h.new_place rfl rfl le_rfl h.new_address.2 ?_ (setBlock_block_self _)
    (Function.update_self ..) (fun j hj => Function.update_of_ne hj ..) ?_
  · rw [setBlock_block_of_ne hpa, inserted, setBlock_block_self, Function.update_idem]
  · intro z hzp hza
    rw [setBlock_block_of_ne hza, inserted, setBlock_block_of_ne hzp, setBlock_block_of_ne hza, setBlock_block_of_ne hzp]

/-- The first step of the cascade. -/
theorem Splits.inserted_yields (h : Splits rows n R x b level t place p a refs q id) :
    Yields (setBlockLevel a level) t ⟨⟩ (t.setBlock a (.topIndirectIndex level fun _ => nullFileAddr)) ∧
      Yields (topSetReference p id a) (t.setBlock a (.topIndirectIndex level fun _ => nullFileAddr)) (n + 1 - b)
        (t.inserted p refs q a level) ∧
      Extends t (t.inserted p refs q a level) ∧ a ≠ p := by
  obtain ⟨b₀, hp, -⟩ := h.slot
  have hpa : p ≠ a := by
    rintro rfl
    rw [h.new_place] at hp
    cases hp
  have hparent : (t.setBlock a (.topIndirectIndex level fun _ => nullFileAddr)).block p =
      some (.topIndirectIndex (level + 1) refs) := by rw [setBlock_block_of_ne hpa, h.parent]
  exact ⟨setBlockLevel_yields h.new level, topSetReference_yields hparent h.position h.slot_lt a,
    (Extends.setBlock h.new rfl).trans (Extends.setBlock hparent rfl), hpa.symm⟩

/-- The next step of the cascade: a new `TIND` block is to take the first slot of the last one. -/
theorem Splits.next (h : Splits rows n R x b (level + 1) t place p a refs q id) (hlevel : 1 ≤ level)
    (hfull : n = b + indirectMaxCount t.pageSize) (hlt : n + 1 < 2 ^ 64) :
    Splits rows n R x b level ((t.inserted p refs q a (level + 1)).allocated newTopIndirectIndex)
      (Function.update (Function.update place x (some (level, b))) a (some (level + 1, b))) a (t.pageSize * t.used)
      (fun _ => nullFileAddr) 0 (n + 1 - b) := by
  have hlower := h.lower (Nat.le_add_left 1 level)
  obtain ⟨b₀, hp, -⟩ := h.slot
  obtain ⟨refsx, hxb⟩ := h.child_block
  obtain ⟨-, -, -, hap⟩ := h.inserted_yields
  have hxa : x ≠ a := by
    rintro rfl
    have hnew := h.new_place
    rw [h.child] at hnew
    cases hnew
  have hxp : x ≠ p := by
    rintro rfl
    rw [h.parent] at hxb
    cases hxb
  have hother : ∀ {z}, z ≠ t.pageSize * t.used →
      ((t.inserted p refs q a (level + 1)).allocated newTopIndirectIndex).block z =
        (t.inserted p refs q a (level + 1)).block z :=
    fun hz => allocated_block_of_ne (t := t.inserted p refs q a (level + 1)) hz _
  have ha : a ≠ t.pageSize * t.used := h.new_address.2.ne
  have hx : x ≠ t.pageSize * t.used := (h.placed.address x _ h.child).2.ne
  have hR : level + 1 < R := by
    have := (h.placed.bounds p _ _ hp).1
    omega
  have hself : (t.inserted p refs q a (level + 1)).block a = some (.topIndirectIndex (level + 1) fun _ => nullFileAddr) := by
    rw [inserted, setBlock_block_of_ne hap, setBlock_block_self]
  have hplaced : Placed rows n (((t.inserted p refs q a (level + 1)).allocated newTopIndirectIndex).setBlock a
      (.topIndirectIndex (level + 1) (Function.update (fun _ => nullFileAddr) 0 x))) R
      (Function.update (Function.update place x (some (level, b))) a (some (level + 1, b))) := by
    refine hlower.frame rfl rfl (Nat.le_succ _) ?_
    intro z pl hz
    have hzn : z ≠ t.pageSize * t.used := (hlower.address z pl hz).2.ne
    by_cases hza : z = a
    · rw [hza, setBlock_block_self, setBlock_block_self]
    · rw [setBlock_block_of_ne hza, setBlock_block_of_ne hza, hother hzn]
  refine ⟨hplaced, ?_, ⟨b, Function.update_self .., by omega⟩, h.placed.pos, ?_, ?_, ⟨refsx, ?_⟩, ?_, ?_, ?_⟩
  · rw [hother ha, hself]
  · have hcount := h.placed.two_le
    have hsize := h.placed.size_le
    simp only [setBlock_pageSize] at hcount hsize
    have hpow : indirectMaxCount t.pageSize ^ (level + 1) ≤ indirectMaxCount t.pageSize ^ R :=
      Nat.pow_le_pow_right (by omega) hR.le
    have hfar : indirectMaxCount t.pageSize ^ 1 < indirectMaxCount t.pageSize ^ (level + 1) :=
      Nat.pow_lt_pow_right hcount (by omega)
    rw [Nat.pow_one] at hfar
    have hpos := topPosition_eq (c := indirectMaxCount t.pageSize) (L := level + 1) (n := n) (b := b) (q := 0)
      (by omega) (Nat.le_add_left 1 level) (by omega) hlt (by omega) (by omega)
    rwa [Nat.zero_mul, Nat.add_zero] at hpos
  · rw [Function.update_of_ne hxa, Function.update_self]
  · rw [hother hx, inserted, setBlock_block_of_ne hxp, setBlock_block_of_ne hxa, hxb]
  · exact allocated_block_self _
  · exact (hlower.fresh le_rfl).2
  · exact ⟨(hlower.fresh le_rfl).1, Nat.mul_lt_mul_of_pos_left (Nat.lt_succ_self _) hlower.pageSize_pos⟩

/-- The cascade ends at a `TIND` block of level 1 that has `x` in its first slot, once it is written there. -/
theorem cascade_yields (h : Splits rows n R x b (level + 1) t place p a refs q id)
    (hfull : n = b + indirectMaxCount t.pageSize) (hlt : n + 1 < 2 ^ 64) : ∃ bottom t' place',
      Yields (cascade (level + 1) p id a) t bottom t' ∧ Extends t t' ∧
      t'.block bottom = some (.topIndirectIndex 1 fun _ => nullFileAddr) ∧ place' bottom = some (1, b) ∧
      Placed rows n (t'.setBlock bottom (.topIndirectIndex 1 (Function.update (fun _ => nullFileAddr) 0 x))) R place' := by
  induction level generalizing t place p a refs q id with
  | zero =>
    obtain ⟨hlevel, hset, hextends, hap⟩ := h.inserted_yields
    refine ⟨a, _, _, hlevel.bind (hset.bind ?_), hextends, ?_, Function.update_self .., h.lower le_rfl⟩
    · exact Yields.pure ..
    · rw [inserted, setBlock_block_of_ne hap, setBlock_block_self]
  | succ level ih =>
    obtain ⟨hlevel, hset, hextends, -⟩ := h.inserted_yields
    obtain ⟨bottom, t', place', hcascade, hextends', hrest⟩ := ih (h.next (Nat.le_add_left 1 level) hfull hlt) hfull
    refine ⟨bottom, t', place', hlevel.bind (hset.bind ?_), (hextends.trans (Extends.allocated _)).trans hextends', hrest⟩
    rw [if_neg (by omega)]
    exact (allocateNewBlock_yields _ _).bind hcascade

/-- A full `INDR` block at a level over 0 gets the blocks between its parent and itself. -/
theorem splitIndirect_yields (h : Placed rows n t R place) (hx : place x = some (level + 1, b))
    (hxb : t.block x = some (.indirectIndex refs)) {b₀ : Nat} {refs₀ : Nat → Reference} (hp : place p = some (level + 2, b₀))
    (hpb : t.block p = some (.topIndirectIndex (level + 2) refs₀)) (hq : q < indirectMaxCount t.pageSize)
    (hqx : refs₀ q = x) (hb : b = b₀ + q * indirectMaxCount t.pageSize ^ (level + 2))
    (hfull : n = b + indirectMaxCount t.pageSize) (hlt : n + 1 < 2 ^ 64) : ∃ indr t',
      Yields (splitIndirect (some (p, n + 1 - b₀)) x (n + 1 - b)) t (indr, 1) t' ∧ Extends t t' ∧ Ready rows n t' indr 1 := by
  have hpn : p ≠ t.pageSize * t.used := (h.address _ _ hp).2.ne
  have hxn : x ≠ t.pageSize * t.used := (h.address _ _ hx).2.ne
  have hpb' : (t.allocated newTopIndirectIndex).block p = some (.topIndirectIndex (level + 2) refs₀) := by
    rw [allocated_block_of_ne hpn, hpb]
  have hsplits : Splits rows n R x b (level + 1) (t.allocated newTopIndirectIndex) place p (t.pageSize * t.used) refs₀ q
      (n + 1 - b₀) := by
    refine ⟨?_, hpb', ⟨b₀, hp, hb⟩, hq, ?_, hx, ⟨refs, ?_⟩, allocated_block_self _, (h.fresh le_rfl).2, (h.fresh le_rfl).1, ?_⟩
    · refine h.frame rfl rfl (Nat.le_succ _) ?_
      intro z pl hz
      have hzn := (h.address z pl hz).2.ne
      by_cases hzp : z = p
      · rw [hzp, setBlock_block_self, ← hqx, Function.update_eq_self, hpb]
      · rw [setBlock_block_of_ne hzp, allocated_block_of_ne hzn]
    · have hbound := (h.bounds p _ _ hp).1
      have hpow : indirectMaxCount t.pageSize ^ (level + 2) ≤ indirectMaxCount t.pageSize ^ R :=
        Nat.pow_le_pow_right h.pos hbound
      have hsize := h.size_le
      have hfar : indirectMaxCount t.pageSize ^ 1 < indirectMaxCount t.pageSize ^ (level + 2) :=
        Nat.pow_lt_pow_right h.two_le (by omega)
      rw [Nat.pow_one] at hfar
      have hpos := topPosition_eq (c := indirectMaxCount t.pageSize) (L := level + 2) (n := n) (b := b₀) (q := q)
        h.pos (Nat.le_add_left 1 _) (by omega) hlt (by omega) (by omega)
      rwa [← hb] at hpos
    · rw [allocated_block_of_ne hxn, hxb]
    · exact Nat.mul_lt_mul_of_pos_left (Nat.lt_succ_self _) h.pageSize_pos
  obtain ⟨bottom, t', place', hcascade, hextends, hbottom, hplace, hplaced⟩ := cascade_yields hsplits hfull hlt
  have hpage : t'.pageSize = t.pageSize := hextends.pageSize
  have hpos := topPosition_full (b := b) h.pos le_rfl (by rw [Nat.pow_one]; exact hfull) hlt
  rw [← hpage] at hpos
  obtain ⟨indr, u, hyields, hextends', hready⟩ := attach_yields hplaced hplace (setBlock_block_self _) (q := 1)
    hplaced.two_le (by rw [Nat.pow_one, Nat.one_mul, setBlock_pageSize, hpage]; exact hfull.symm) hpos.2
  have hset := topSetReference_yields hbottom hpos.1 (hpage ▸ h.pos) x
  rw [show n - b = n + 1 - b - 1 by omega] at hset
  refine ⟨indr, u, ?_, (Extends.allocated _).trans (hextends.trans ((Extends.setBlock hbottom rfl).trans hextends')), hready⟩
  unfold splitIndirect
  refine (allocateNewBlock_yields _ t).bind ?_
  refine ((getBlock_yields hpb').bind ?_).bind (hset.bind hyields)
  have hlevel : ¬ level + 2 ≤ 1 := by omega
  simp only [if_neg hlevel]
  exact hcascade

/-! ### The search -/

/-- The block over the one at `x`, in the search for the row `n + 1`. -/
def Under (n R : Nat) (t : Table) (place : Reference → Option (Nat × Nat)) (x : Reference) (L b : Nat) :
    Option (Reference × Nat) → Prop
  | none => x = t.indirectIndex ∧ L = R ∧ b = 0
  | some (p, oid) => n < b + indirectMaxCount t.pageSize ^ (L + 1) ∧ ∃ b₀ q refs, place p = some (L + 1, b₀) ∧
      t.block p = some (.topIndirectIndex (L + 1) refs) ∧ q < indirectMaxCount t.pageSize ∧ refs q = x ∧
      b = b₀ + q * indirectMaxCount t.pageSize ^ (L + 1) ∧ oid = n + 1 - b₀

theorem Under.le (h : Placed rows n t R place) {parent : Option (Reference × Nat)} (hu : Under n R t place x L b parent) :
    n ≤ b + indirectMaxCount t.pageSize ^ (L + 1) := by
  cases parent with
  | none =>
    obtain ⟨-, rfl, rfl⟩ := hu
    rw [Nat.zero_add]
    exact h.le_size
  | some p => exact hu.1.le

/-- The end of the search at an `INDR` block. -/
theorem indirect_yields (h : Placed rows n t R place) (hx : place x = some (L, b))
    (hxb : t.block x = some (.indirectIndex refs)) {parent : Option (Reference × Nat)} (hu : Under n R t place x L b parent)
    (hlt : n + 1 < 2 ^ 64) : ∃ indr positionOid t',
      Yields (if n + 1 - b > indirectMaxCount t.pageSize then splitIndirect parent x (n + 1 - b)
        else pure (x, n + 1 - b)) t (indr, positionOid) t' ∧ Extends t t' ∧ Ready rows n t' indr positionOid := by
  have hb := (h.bounds x L b hx).2.1
  obtain ⟨hroom, -⟩ := h.indirect hx hxb
  by_cases hfull : n + 1 - b > indirectMaxCount t.pageSize
  · rw [if_pos hfull]
    have hle := hu.le h
    have hn : n = b + indirectMaxCount t.pageSize := by
      obtain rfl | hroom := hroom
      · rw [Nat.zero_add, Nat.pow_one] at hle
        omega
      · omega
    cases parent with
    | none =>
      obtain ⟨rfl, rfl, rfl⟩ := hu
      obtain rfl := h.root_level refs hxb
      obtain ⟨indr, t', hrest⟩ := splitRoot_yields h (by omega) hlt
      exact ⟨indr, 1, t', hrest⟩
    | some parent =>
      obtain ⟨p, oid⟩ := parent
      obtain ⟨hin, b₀, q, refs₀, hp, hpb, hq, hqx, hbq, rfl⟩ := hu
      obtain ⟨level, rfl⟩ : ∃ level, L = level + 1 := by
        refine ⟨L - 1, ?_⟩
        by_contra hL
        obtain rfl : L = 0 := by omega
        rw [Nat.zero_add, Nat.pow_one] at hin
        omega
      obtain ⟨indr, t', hrest⟩ := splitIndirect_yields h hx hxb hp hpb hq hqx hbq hn hlt
      exact ⟨indr, 1, t', hrest⟩
  · rw [if_neg hfull]
    exact ⟨x, n + 1 - b, t, Yields.pure .., Extends.refl t, ready_store h hx hxb (by omega)⟩

/-- The part of a block that a row is in. -/
theorem exists_part {c D b n : Nat} (hb : b ≤ n) (hD : 0 < D) (hle : n ≤ b + c * D) :
    ∃ q ≤ c, b + q * D ≤ n ∧ n < b + q * D + D := by
  have hdiv := Nat.div_add_mod (n - b) D
  have hmod := Nat.mod_lt (n - b) hD
  rw [Nat.mul_comm] at hdiv
  refine ⟨(n - b) / D, ?_, by omega, by omega⟩
  exact Nat.div_le_of_le_mul (by rw [Nat.mul_comm]; omega)

/-- What the search does at a `TIND` block. -/
theorem bind_search {fuel : Nat} {parent : Option (Reference × Nat)} {id : Nat} {Q : Reference → Nat → Table → Prop}
    (hxb : t.block x = some (.topIndirectIndex L refs))
    (h : ∃ indr positionOid t', Yields (match topReference (indirectMaxCount t.pageSize) L refs id false with
      | none => failure
      | some (reference, nextOid) =>
        if reference = nullFileAddr then do
          let indr ← allocateNewBlock newIndirectIndex
          let nextOid ← topSetReference x id indr
          pure (indr, nextOid)
        else if reference = missingFileAddr then growTop parent x L id
        else descend false fuel (some (x, id)) reference nextOid) t (indr, positionOid) t' ∧ Q indr positionOid t') :
    ∃ indr positionOid t', Yields (descend false (fuel + 1) parent x id) t (indr, positionOid) t' ∧ Q indr positionOid t' := by
  obtain ⟨indr, positionOid, t', hyields, hQ⟩ := h
  refine ⟨indr, positionOid, t', (Yields.get t).bind ((getBlock_yields hxb).bind ?_), hQ⟩
  simp only [topIndirectMaxCount_eq]
  exact hyields

theorem descend_yields (h : Placed rows n t R place) (hlt : n + 1 < 2 ^ 64) : ∀ {fuel x L b : Nat} {parent},
    place x = some (L, b) → Under n R t place x L b parent → L < fuel → ∃ indr positionOid t',
      Yields (descend false fuel parent x (n + 1 - b)) t (indr, positionOid) t' ∧ Extends t t' ∧
        Ready rows n t' indr positionOid
  | fuel + 1, x, L, b, parent, hx, hu, hfuel => by
    obtain ⟨refs, hxb⟩ | ⟨refs, hxb⟩ := h.cases hx
    · obtain ⟨indr, positionOid, t', hyields, hrest⟩ := indirect_yields h hx hxb hu hlt
      exact ⟨indr, positionOid, t', (Yields.get t).bind ((getBlock_yields hxb).bind hyields), hrest⟩
    · obtain ⟨-, hL, hrefs⟩ := h.top hx hxb
      have hsize : indirectMaxCount t.pageSize ^ L ≤ n := by
        have hLR := (h.bounds x L b hx).1
        have := Nat.pow_le_pow_right h.pos hLR
        have := h.size_le
        omega
      have hle := hu.le h
      rw [Nat.pow_succ'] at hle
      obtain ⟨q, hq, hqn, hnq⟩ := exists_part (h.bounds x L b hx).2.1.le (Nat.pow_pos h.pos) hle
      have hpos := topPosition_eq h.pos hL (by omega) hlt hqn hnq
      refine bind_search hxb ?_
      obtain rfl | hq := Nat.eq_or_lt_of_le hq
      · -- the block has no place for the row: it is the root
        have hfull : n = b + indirectMaxCount t.pageSize ^ (L + 1) := by
          rw [Nat.pow_succ']
          omega
        cases parent with
        | some parent => exact absurd hu.1 (by omega)
        | none =>
          obtain ⟨rfl, rfl, rfl⟩ := hu
          have hR : L < 255 := by
            by_contra hge
            have h255 : 2 ^ 255 ≤ indirectMaxCount t.pageSize ^ L :=
              (Nat.pow_le_pow_left h.two_le 255).trans (Nat.pow_le_pow_right h.pos (not_lt.mp hge))
            exact absurd (h255.trans hsize) (by omega)
          obtain ⟨indr, t', hrest⟩ := growTop_yields h (by omega) hR hlt
          have href : topReference (indirectMaxCount t.pageSize) L refs (n + 1 - 0) false =
              some (missingFileAddr, n + 1 - (0 + indirectMaxCount t.pageSize * indirectMaxCount t.pageSize ^ L)) := by
            simp only [topReference, hpos, ge_iff_le, le_refl, if_true, Bool.false_eq_true, if_false]
          rw [href]
          exact ⟨indr, 1, t', hrest⟩
      · have href : topReference (indirectMaxCount t.pageSize) L refs (n + 1 - b) false =
            some (refs q, n + 1 - (b + q * indirectMaxCount t.pageSize ^ L)) := by
          simp [topReference, hpos, hq]
        rw [href]
        obtain ⟨hchild, hnull⟩ := hrefs q hq
        obtain hn | hn := Nat.eq_or_lt_of_le hqn
        · -- no child exists yet
          have h1 : n + 1 - (b + q * indirectMaxCount t.pageSize ^ L) = 1 := by omega
          rw [h1] at hpos
          obtain ⟨indr, t', hrest⟩ := attach_yields h hx hxb hq hn hpos
          simp only [hnull hn.ge, if_true]
          exact ⟨indr, 1, t', hrest⟩
        · have hplace := hchild hn
          have haddress := (h.address _ _ hplace).1
          have hne : refs q ≠ nullFileAddr := fun h0 => absurd (h0 ▸ haddress) (by decide)
          simp only [if_neg hne, if_neg haddress.ne']
          obtain ⟨l, rfl⟩ : ∃ l, L = l + 1 := ⟨L - 1, by omega⟩
          exact descend_yields h hlt hplace ⟨by rw [Nat.add_sub_cancel]; omega, b, q, refs, hx, hxb, hq, rfl, rfl, rfl⟩ (by omega)

/-! ### Lookups -/

/-- `get_indirect_reference()` gives the reference of every row there is. -/
theorem walk_eq (h : Placed rows n t R place) (hlt : n < 2 ^ 64) : ∀ {fuel x L b id : Nat}, place x = some (L, b) →
    1 ≤ id → b + id ≤ n → id ≤ indirectMaxCount t.pageSize ^ (L + 1) → L < fuel → walk t fuel x id = some (rows (b + id))
  | fuel + 1, x, L, b, id, hx, hid, hn, hle, hfuel => by
    obtain ⟨refs, hxb⟩ | ⟨refs, hxb⟩ := h.cases hx
    · obtain ⟨hroom, hrefs⟩ := h.indirect hx hxb
      have hcount : id ≤ indirectMaxCount t.pageSize := by
        obtain rfl | hroom := hroom
        · rwa [Nat.zero_add, Nat.pow_one] at hle
        · omega
      have hrow := hrefs (id - 1) (by omega) (by omega)
      simp only [walk, hxb, indirectReference, decrement_eq hid (by omega), ge_iff_le,
        not_le.mpr (show id - 1 < indirectMaxCount t.pageSize by omega), if_false, hrow]
      congr 2
      omega
    · obtain ⟨-, hL, hrefs⟩ := h.top hx hxb
      have hsize : indirectMaxCount t.pageSize ^ L ≤ n := by
        have hLR := (h.bounds x L b hx).1
        have := Nat.pow_le_pow_right h.pos hLR
        have := h.size_le
        omega
      rw [Nat.pow_succ'] at hle
      obtain ⟨q, hq, hqn, hnq⟩ := exists_part (c := indirectMaxCount t.pageSize) (b := b) (n := b + id - 1)
        (D := indirectMaxCount t.pageSize ^ L) (by omega) (Nat.pow_pos h.pos) (by omega)
      have hq : q < indirectMaxCount t.pageSize := by
        by_contra hge
        have := Nat.mul_le_mul_right (indirectMaxCount t.pageSize ^ L) (not_lt.mp hge)
        omega
      have hpos := topPosition_eq (c := indirectMaxCount t.pageSize) (L := L) (n := b + id - 1) (b := b) (q := q)
        h.pos hL (by omega) (by omega) hqn hnq
      rw [show b + id - 1 + 1 - b = id by omega] at hpos
      have hplace := (hrefs q hq).1 (by omega)
      have hne : refs q ≠ nullFileAddr := fun h0 => absurd (h0 ▸ (h.address _ _ hplace).1) (by decide)
      simp only [walk, hxb, topReference, topIndirectMaxCount_eq, hpos, ge_iff_le, not_le.mpr hq, if_false, if_neg hne]
      obtain ⟨l, rfl⟩ : ∃ l, L = l + 1 := ⟨L - 1, by omega⟩
      rw [walk_eq h hlt hplace (by omega) (by omega) (by rw [Nat.add_sub_cancel]; omega) (by omega)]
      congr 2
      omega

end Table
end Snapwebsites.Snapdatabase
