import Mathlib.Algebra.GroupWithZero.Nat
import Snapwebsites.Snapdatabase.FreeSpace

/-! # Releasing free space

`release_space()` of a `FSPC` block. The test whether the extent is the first one of its block compares an address in memory, so
its result is a parameter of the call. What a call has made of the headers when it throws is kept. -/

namespace Snapwebsites.Snapdatabase

namespace FreeSpaceHeap

/-- A number of `n` bytes at `a` when the bytes of a span are cleared. -/
def clearBytes (w : Span) (a n v : Nat) : Nat :=
  ((List.range n).map fun i => if w.start ≤ a + i ∧ a + i < w.stop then 0 else v / 256 ^ i % 256 * 256 ^ i).sum

/-- `memset()` with 0. -/
def memset (w : Span) (h : FreeSpaceHeap) : FreeSpaceHeap :=
  { h with
    link := fun a =>
      { size := clearBytes w a 3 (h.link a).size
        allocated := clearBytes w (a + 3) 1 (h.link a).allocated.toNat != 0
        next := clearBytes w (a + 8) 8 (h.link a).next
        previous := clearBytes w (a + 16) 8 (h.link a).previous }
    writes := w :: h.writes }

/-- A step that throws leaves what it was called with. -/
def attempt (f : FreeSpaceHeap → Option FreeSpaceHeap) (h : FreeSpaceHeap) : Except FreeSpaceHeap FreeSpaceHeap :=
  (f h).elim (.error h) .ok

/-- The next extent is merged when it is marked as allocated. -/
def mergeNext (link nextLink : Reference) (h : FreeSpaceHeap) : Except FreeSpaceHeap FreeSpaceHeap :=
  if (h.link nextLink).allocated then
    (h.setMeta link { h.link link with size := ((h.link link).size + (h.link nextLink).size) % spaceLimit }).attempt
      (unlinkSpace nextLink)
  else .ok h

/-- The loop that searches the extent in front of `link`; `o` counts from the start of the block. It returns the link that is free
    now. -/
def mergePrevious (link : Reference) : Nat → Nat → Reference → FreeSpaceHeap →
    Except FreeSpaceHeap (Reference × FreeSpaceHeap)
  | 0, _, _, h => .error h
  | fuel + 1, o, previousLink, h =>
    let linkAfter := previousLink + (h.link previousLink).size
    if linkAfter = link then
      if (h.link previousLink).allocated then .ok (link, h)
      else do
        let h ← h.attempt (unlinkSpace previousLink)
        let size := ((h.link previousLink).size + (h.link link).size) % spaceLimit
        let h ← (h.setMeta previousLink { h.link previousLink with size }).attempt (linkSpace o previousLink)
        .ok (previousLink, h)
    else if link < linkAfter then .ok (link, h)
    else mergePrevious link fuel (o + (h.link previousLink).size) linkAfter h

end FreeSpaceHeap

namespace BlockFreeSpace
open FreeSpaceHeap

/-- `release_space()`. -/
def releaseSpace (secure : Bool) (fuel : Nat) (offset : Reference) (behindStart : Bool) (s : BlockFreeSpace) :
    Except FreeSpaceHeap FreeSpaceHeap :=
  if offset % referenceSize ≠ 0 then .error s.clear.heap
  else if offset < metaSize ∨ s.alloc.file.getBlock (offset - metaSize) = none then .error s.clear.heap
  else do
    let h := s.clear.heap
    let offset := offset - metaSize
    let page := offset - offset % s.pageSize
    let h := if secure then h.memset ⟨offset + linkSize, ((h.link offset).size + 2 ^ 64 - metaSize) % 2 ^ 64⟩ else h
    let nextPos := ((h.link offset).size + offset % s.pageSize) % 2 ^ 32
    let h ← if nextPos + linkSize < s.totalSpace then h.mergeNext offset (page + nextPos % s.pageSize) else .ok h
    let start := s.pageSize - s.totalSpace
    let (link, h) ← if behindStart then h.mergePrevious offset fuel start (page + start) else .ok (offset, h)
    h.attempt (linkSpace offset link)

end BlockFreeSpace

inductive SpaceEvent
  | getFreeSpace (minimumSize : UInt32)
  | releaseSpace (offset : Reference) (behindStart : Bool)

namespace Spaces
open BlockFreeSpace

/-- One call. An extent that is released is not handed out any more. -/
def handle (secure : Bool) (fuel : Nat) (s : Spaces) : SpaceEvent → Spaces
  | .getFreeSpace minimumSize => s.step minimumSize
  | .releaseSpace offset behindStart =>
    match s.table.releaseSpace secure fuel offset behindStart with
    | .error heap => { s with table := { s.table with heap } }
    | .ok heap => { table := { s.table with heap }, extents := s.extents.filter fun e => e.start + metaSize ≠ offset }

/-- A reference that is released was returned and not released yet. -/
def Named (s : Spaces) : SpaceEvent → Prop
  | .getFreeSpace _ => True
  | .releaseSpace offset _ => ∃ e ∈ s.extents, offset = e.start + metaSize

end Spaces

/-- Where the extents of the `DATA` blocks are that were made for the table: `others` are the blocks that were there before. -/
def BlockFreeSpace.Area (t : BlockFreeSpace) (others : Finset Reference) (x : Nat) : Prop :=
  ∃ p ∈ t.alloc.live, p ∉ others ∧ (Span.mk (p + (t.pageSize - t.totalSpace)) t.totalSpace).Covers x

/-- The lists hold exactly what is not handed out: each extent is listed once, no byte is in two extents, all bytes are in one, and
    no free extent is followed by a free one. -/
structure Exact (others : Finset Reference) (t : BlockFreeSpace) (extents : List Span) (free : Nat → List Reference) : Prop where
  lists : t.heap.Lists free
  nodup : ∀ k, (free k).Nodup
  extentsApart : extents.Pairwise Span.Apart
  mixed : ∀ k, ∀ r ∈ free k, ∀ e ∈ extents, (Span.mk r k).Apart e
  freeApart : ∀ k, ∀ r ∈ free k, ∀ k', ∀ r' ∈ free k', r ≠ r' → (Span.mk r k).Apart ⟨r', k'⟩
  covered : ∀ x, t.Area others x ↔ (∃ e ∈ extents, e.Covers x) ∨ ∃ k, ∃ r ∈ free k, (Span.mk r k).Covers x
  merged : ∀ k, ∀ r ∈ free k, ∀ k', ∀ r' ∈ free k', r + k ≠ r'

namespace Spaces
open BlockFreeSpace

/-- What a call must do: a release does not throw, and the lists are exact afterwards. -/
def Kept (secure : Bool) (fuel : Nat) (others : Finset Reference) (s : Spaces) (e : SpaceEvent) : Prop :=
  (∀ offset behindStart, e = .releaseSpace offset behindStart →
    ∃ heap, s.table.releaseSpace secure fuel offset behindStart = .ok heap) ∧
  ∃ free, Exact others (s.handle secure fuel e).table (s.handle secure fuel e).extents free

/-- Nothing is released, and what is left in a new block has room for a header and a size of 24 bits. -/
def Holds (s : Spaces) : SpaceEvent → Prop
  | .getFreeSpace n => s.table.Admitted (sizeWithMeta n) → s.table.Grows (sizeWithMeta n) → s.table.Room (sizeWithMeta n) ∧
      s.table.totalSpace - sizeWithMeta n < spaceLimit
  | .releaseSpace _ _ => False

end Spaces

/-! ### What a call keeps -/

namespace BlockFreeSpace

/-- The extents fill the `DATA` blocks that were made, and the free ones have room for a header. -/
structure Tiled (others : Finset Reference) (t : BlockFreeSpace) (extents : List Span) (free : Nat → List Reference) : Prop where
  inv : Inv t extents free
  before : ∀ p ∈ others, p ∈ t.alloc.live
  large : ∀ k, free k ≠ [] → linkSize ≤ k
  covered : ∀ x, t.Area others x ↔ (∃ e ∈ extents, e.Covers x) ∨ ∃ k, ∃ r ∈ free k, (Span.mk r k).Covers x
  merged : ∀ k, ∀ r ∈ free k, ∀ k', ∀ r' ∈ free k', r + k ≠ r'

variable {others : Finset Reference} {t t' : BlockFreeSpace} {extents : List Span} {free free' : Nat → List Reference}
  {r p : Reference} {k m : Nat} {l : List Reference}

theorem Tiled.freeSpan (h : Tiled others t extents free) (hr : r ∈ free k) : freeSpan r k = ⟨r, k⟩ := by
  rw [Snapdatabase.freeSpan, Nat.max_eq_left (h.large k (List.ne_nil_of_mem hr))]

theorem Tiled.exact (h : Tiled others t extents free) : Exact others t extents free := by
  refine ⟨h.inv.lists, fun k => (h.inv.lists.linked k).nodup, h.inv.placed.extentsApart, fun k r hr e he => ?_,
    fun k r hr k' r' hr' hne => ?_, h.covered, h.merged⟩
  · have hapart := h.inv.placed.mixed k r hr e he
    rwa [h.freeSpan hr] at hapart
  · have hapart := h.inv.placed.freeApart k r hr k' r' hr' hne
    rwa [h.freeSpan hr, h.freeSpan hr'] at hapart

/-- What is said of some free extent is said of the first one of a list or of another one. -/
theorem exists_free (hk : free k = r :: l) (P : Nat → Reference → Prop) :
    (∃ k', ∃ r' ∈ free k', P k' r') ↔ P k r ∨ ∃ k', ∃ r' ∈ Function.update free k l k', P k' r' := by
  constructor
  · rintro ⟨k', r', hr', hP⟩
    by_cases hne : k' = k
    · subst hne
      rw [hk] at hr'
      rcases List.mem_cons.mp hr' with rfl | hr'
      · exact .inl hP
      · exact .inr ⟨k', r', by rwa [Function.update_self], hP⟩
    · exact .inr ⟨k', r', by rwa [Function.update_of_ne hne], hP⟩
  · rintro (hP | ⟨k', r', hr', hP⟩)
    · exact ⟨k, r, hk ▸ List.mem_cons_self, hP⟩
    · rcases mem_update hr' with ⟨rfl, hin⟩ | ⟨-, hin⟩
      · exact ⟨k', r', hk ▸ List.mem_cons_of_mem _ hin, hP⟩
      · exact ⟨k', r', hin, hP⟩

/-- An extent that is listed first. -/
theorem exists_push (P : Nat → Reference → Prop) :
    (∃ k', ∃ r' ∈ Function.update free k (r :: free k) k', P k' r') ↔ P k r ∨ ∃ k', ∃ r' ∈ free k', P k' r' := by
  have hself : Function.update free k (r :: free k) k = r :: free k := Function.update_self ..
  rw [exists_free hself, Function.update_idem, Function.update_eq_self]

theorem covers_cut (r m : Nat) {k : Nat} (hm : m ≤ k) (x : Nat) :
    (Span.mk r k).Covers x ↔ (Span.mk r m).Covers x ∨ (Span.mk (r + m) (k - m)).Covers x := by
  simp only [Span.Covers, Span.stop]
  omega

/-- The extents cover what the free ones have covered before. -/
theorem Tiled.exchange (h : Tiled others t extents free) (halloc : t'.alloc = t.alloc) (htotal : t'.totalSpace = t.totalSpace)
    {e : Span} (hcover : ∀ x, (∃ k, ∃ r ∈ free k, (Span.mk r k).Covers x) ↔
      e.Covers x ∨ ∃ k, ∃ r ∈ free' k, (Span.mk r k).Covers x) (x : Nat) :
    t'.Area others x ↔ (∃ e' ∈ e :: extents, e'.Covers x) ∨ ∃ k, ∃ r ∈ free' k, (Span.mk r k).Covers x := by
  have harea : t'.Area others x ↔ t.Area others x := by
    unfold Area pageSize
    rw [halloc, htotal]
  rw [harea, h.covered x, hcover x, List.exists_mem_cons_iff]
  exact or_left_comm.trans or_assoc.symm

theorem not_apart_of_end {a b k m n : Nat} (hm : 0 < m) (hlt : m < k) (hn : 0 < n) (heq : a + n = b + m) :
    ¬ (Span.mk a n).Apart ⟨b, k⟩ := by
  simp only [Span.Apart, Span.stop]
  omega

/-- What is left of an extent takes its place: the extents in front of it and behind it are not free. -/
theorem Tiled.merged_rest (h : Tiled others t extents free) (hr : r ∈ free k) (hm : 0 < m) (hlt : m < k)
    (hsub : ∀ k', ∀ a ∈ free' k', k' = k - m ∧ a = r + m ∨ a ∈ free k' ∧ a ≠ r) :
    ∀ k₁, ∀ r₁ ∈ free' k₁, ∀ k₂, ∀ r₂ ∈ free' k₂, r₁ + k₁ ≠ r₂ := by
  have hbehind : r + m + (k - m) = r + k := by rw [Nat.add_assoc, Nat.add_sub_cancel' hlt.le]
  intro k₁ r₁ hr₁ k₂ r₂ hr₂
  rcases hsub k₁ r₁ hr₁ with ⟨rfl, rfl⟩ | ⟨hin₁, hne₁⟩ <;> rcases hsub k₂ r₂ hr₂ with ⟨rfl, rfl⟩ | ⟨hin₂, hne₂⟩
  · rw [hbehind]
    exact fun heq => Nat.ne_of_gt hlt (Nat.add_left_cancel heq)
  · rw [hbehind]
    exact h.merged k r hr k₂ r₂ hin₂
  · intro heq
    have hlarge : 0 < k₁ := Nat.lt_of_lt_of_le (by decide) (h.large k₁ (List.ne_nil_of_mem hin₁))
    exact not_apart_of_end hm hlt hlarge heq (h.exact.freeApart k₁ r₁ hin₁ k r hr hne₁)
  · exact h.merged k₁ r₁ hin₁ k₂ r₂ hin₂

theorem Tiled.took_whole (h : Tiled others t extents free) (hk : free k = r :: l) (halloc : t'.alloc = t.alloc)
    (htotal : t'.totalSpace = t.totalSpace) (hinv : Inv t' (⟨r, k⟩ :: extents) (Function.update free k l)) :
    Tiled others t' (⟨r, k⟩ :: extents) (Function.update free k l) := by
  have hout := h.inv.head_out hk
  refine ⟨hinv, fun p hp => ?_, fun k' hne => ?_, h.exchange halloc htotal fun x => exists_free hk fun k r => (Span.mk r k).Covers x,
    fun k₁ r₁ hr₁ k₂ r₂ hr₂ => h.merged k₁ r₁ (hout k₁ r₁ hr₁).1 k₂ r₂ (hout k₂ r₂ hr₂).1⟩
  · rw [halloc]
    exact h.before p hp
  · obtain ⟨a, ha⟩ := List.exists_mem_of_ne_nil _ hne
    exact h.large k' (List.ne_nil_of_mem (hout k' a ha).1)

theorem Tiled.took_split (h : Tiled others t extents free) (hk : free k = r :: l) (hm : 0 < m) (hle : m + linkSize ≤ k)
    (halloc : t'.alloc = t.alloc) (htotal : t'.totalSpace = t.totalSpace)
    (hinv : Inv t' (⟨r, m⟩ :: extents)
      (Function.update (Function.update free k l) (k - m) ((r + m) :: Function.update free k l (k - m)))) :
    Tiled others t' (⟨r, m⟩ :: extents)
      (Function.update (Function.update free k l) (k - m) ((r + m) :: Function.update free k l (k - m))) := by
  have hr : r ∈ free k := hk ▸ List.mem_cons_self
  have hout := h.inv.head_out hk
  have h24 : linkSize = 24 := rfl
  have hsub : ∀ k', ∀ a ∈ Function.update (Function.update free k l) (k - m) ((r + m) :: Function.update free k l (k - m)) k',
      k' = k - m ∧ a = r + m ∨ a ∈ free k' ∧ a ≠ r := by
    intro k' a ha
    rcases mem_update ha with ⟨rfl, hin⟩ | ⟨-, hin⟩
    · exact (List.mem_cons.mp hin).imp (fun heq => ⟨rfl, heq⟩) fun hin => hout _ a hin
    · exact .inr (hout k' a hin)
  refine ⟨hinv, fun p hp => ?_, fun k' hne => ?_, h.exchange halloc htotal fun x => ?_, h.merged_rest hr hm (by omega) hsub⟩
  · rw [halloc]
    exact h.before p hp
  · obtain ⟨a, ha⟩ := List.exists_mem_of_ne_nil _ hne
    rcases hsub k' a ha with ⟨rfl, -⟩ | ⟨hin, -⟩
    · omega
    · exact h.large k' (List.ne_nil_of_mem hin)
  · rw [exists_free hk fun k r => (Span.mk r k).Covers x, covers_cut r m (by omega), exists_push fun k r => (Span.mk r k).Covers x]
    exact or_assoc

/-- The `DATA` block that is made is one more to fill. -/
theorem Tiled.area_grow (h : Tiled others t extents free) (hp : Allocation.HandedOut t.alloc .data p)
    (halloc : t'.alloc = t.alloc.step (.allocate .data)) (htotal : t'.totalSpace = t.totalSpace) (x : Nat) :
    t'.Area others x ↔ (Span.mk (p + (t.pageSize - t.totalSpace)) t.totalSpace).Covers x ∨ t.Area others x := by
  have hpageSize : (t.alloc.step (.allocate .data)).file.pageSize = t.alloc.file.pageSize := hp.pageSize
  have hlive : (t.alloc.step (.allocate .data)).live = insert p t.alloc.live := by
    rw [Allocation.step_allocate, hp.returned, Option.elim_some]
  have hother : p ∉ others := fun hin => hp.notLive (h.before p hin)
  unfold Area pageSize
  rw [halloc, htotal, hpageSize, hlive]
  simp only [Finset.mem_insert, exists_eq_or_imp, hother, not_false_eq_true, true_and]

theorem before_grow (h : Tiled others t extents free) (hp : Allocation.HandedOut t.alloc .data p)
    (halloc : t'.alloc = t.alloc.step (.allocate .data)) : ∀ q ∈ others, q ∈ t'.alloc.live := by
  intro q hq
  rw [halloc, Allocation.step_allocate, hp.returned]
  exact Finset.mem_insert_of_mem (h.before q hq)

theorem Tiled.took_full (h : Tiled others t extents free) (hp : Allocation.HandedOut t.alloc .data p) (htotal : t.totalSpace = m)
    (halloc : t'.alloc = t.alloc.step (.allocate .data)) (htotal' : t'.totalSpace = t.totalSpace)
    (hinv : Inv t' (⟨p + (t.pageSize - t.totalSpace), m⟩ :: extents) free) :
    Tiled others t' (⟨p + (t.pageSize - t.totalSpace), m⟩ :: extents) free := by
  refine ⟨hinv, before_grow h hp halloc, h.large, fun x => ?_, h.merged⟩
  rw [h.area_grow hp halloc htotal' x, h.covered x, List.exists_mem_cons_iff, htotal]
  exact or_assoc.symm

theorem not_within_of_end {p q n k : Nat} (hn : 8 ≤ n) (hk : 0 < k) (hpages : (Span.mk p n).Apart ⟨q, n⟩) :
    ¬ (Span.mk (p + n) k).Within ⟨q + 8, n - 8⟩ := by
  simp only [Span.Apart, Span.Within, Span.stop] at hpages ⊢
  omega

/-- No free extent of another block touches the new one. -/
theorem Tiled.not_next (h : Tiled others t extents free) (hp : Allocation.HandedOut t.alloc .data p) (hr : r ∈ free k) :
    p + t.pageSize ≠ r := by
  intro heq
  obtain ⟨q, hq, hin⟩ := h.inv.placed.freeIn k r hr
  have hlive : p ∈ (t.alloc.step (.allocate .data)).live := by
    rw [Allocation.step_allocate, hp.returned]
    exact Finset.mem_insert_self _ _
  have hne : p ≠ q := fun heq => hp.notLive (heq ▸ hq.1)
  have hpages := apart_of_pages (h.inv.grow hp).partitioned hlive (IsData.step hp hq).1 hne
  have hpageSize : (t.alloc.step (.allocate .data)).file.pageSize = t.alloc.file.pageSize := hp.pageSize
  rw [hpageSize] at hpages
  rw [← heq] at hin
  exact not_within_of_end h.inv.pageSize_ge (Nat.le_max_right k linkSize |>.trans_lt' (by decide)) hpages hin

theorem Tiled.took_rest (h : Tiled others t extents free) (hp : Allocation.HandedOut t.alloc .data p) (hm : 0 < m)
    (hle : m + linkSize ≤ t.totalSpace) (hk : k = t.totalSpace - m) (halloc : t'.alloc = t.alloc.step (.allocate .data))
    (htotal : t'.totalSpace = t.totalSpace)
    (hinv : Inv t' (⟨p + (t.pageSize - t.totalSpace), m⟩ :: extents)
      (Function.update free k ((p + (t.pageSize - t.totalSpace) + m) :: free k))) :
    Tiled others t' (⟨p + (t.pageSize - t.totalSpace), m⟩ :: extents)
      (Function.update free k ((p + (t.pageSize - t.totalSpace) + m) :: free k)) := by
  have h24 : linkSize = 24 := rfl
  have hspace := h.inv.total.2
  obtain ⟨-, -, hunused⟩ := h.inv.new_data hp
  have hnew := hunused.within (h.inv.within_new p)
  have hend : p + (t.pageSize - t.totalSpace) + m + k = p + t.pageSize := by
    have hsum : t.pageSize - t.totalSpace + (m + k) = t.pageSize := by omega
    rw [Nat.add_assoc, Nat.add_assoc, hsum]
  have hpos : 0 < k := by omega
  have harea := h.area_grow hp halloc htotal
  generalize p + (t.pageSize - t.totalSpace) = r at *
  have hsub : ∀ k', ∀ a ∈ Function.update free k ((r + m) :: free k) k', k' = k ∧ a = r + m ∨ a ∈ free k' := by
    intro k' a ha
    rcases mem_update ha with ⟨rfl, hin⟩ | ⟨-, hin⟩
    · exact (List.mem_cons.mp hin).imp_left fun heq => ⟨rfl, heq⟩
    · exact .inr hin
  refine ⟨hinv, before_grow h hp halloc, fun k' hne => ?_, fun x => ?_, fun k₁ r₁ hr₁ k₂ r₂ hr₂ => ?_⟩
  · obtain ⟨a, ha⟩ := List.exists_mem_of_ne_nil _ hne
    rcases hsub k' a ha with ⟨rfl, -⟩ | hin
    · omega
    · exact h.large k' (List.ne_nil_of_mem hin)
  · rw [harea x, h.covered x, List.exists_mem_cons_iff, exists_push fun k r => (Span.mk r k).Covers x,
      covers_cut r m (Nat.le_of_add_right_le hle), ← hk]
    exact or_or_or_comm
  · rcases hsub k₁ r₁ hr₁ with ⟨rfl, rfl⟩ | hin₁ <;> rcases hsub k₂ r₂ hr₂ with ⟨rfl, rfl⟩ | hin₂
    · exact Nat.ne_of_gt (Nat.lt_add_of_pos_right hpos)
    · rw [hend]
      exact h.not_next hp hin₂
    · intro heq
      have hlarge : 0 < k₁ := Nat.lt_of_lt_of_le (by decide) (h.large k₁ (List.ne_nil_of_mem hin₁))
      have hapart := hnew.ofFree k₁ r₁ hin₁
      rw [h.freeSpan hin₁] at hapart
      exact not_apart_of_end hm (by omega) hlarge heq hapart.symm
    · exact h.merged k₁ r₁ hin₁ k₂ r₂ hin₂

theorem Tiled.took {f : FreeSpaceT} (h : Tiled others t extents free) (htook : Took t extents free m f t' free') (hm : 0 < m)
    (hlimit : t'.alloc ≠ t.alloc → t.totalSpace - m < spaceLimit) : Tiled others t' (f.extent :: extents) free' := by
  have hinv := htook.inv
  have htotal := htook.total
  cases htook.change with
  | whole hk _ _ halloc =>
    rw [extent_mk] at hinv ⊢
    exact h.took_whole hk halloc htotal hinv
  | split hk hle halloc =>
    rw [extent_mk] at hinv ⊢
    exact h.took_split hk hm hle halloc htotal hinv
  | full hp hfull halloc =>
    rw [extent_mk] at hinv ⊢
    exact h.took_full hp hfull halloc htotal hinv
  | rest hp hle hk _ halloc =>
    rw [extent_mk] at hinv ⊢
    have hne : t'.alloc ≠ t.alloc := by
      intro heq
      refine hp.notLive ?_
      rw [← heq, halloc, Allocation.step_allocate, hp.returned]
      exact Finset.mem_insert_self _ _
    exact h.took_rest hp hm hle (hk.trans (Nat.mod_eq_of_lt (hlimit hne))) halloc htotal hinv

theorem Tiled.clear (h : Tiled others t extents free) : Tiled others t.clear extents free :=
  ⟨h.inv.clear, h.before, h.large, h.covered, h.merged⟩

/-- An extent of a list comes from a block that is there. -/
theorem getFreeSpace_alloc {n : UInt32} (hm : t.Admitted (sizeWithMeta n)) (hfound : t.findSpace (sizeWithMeta n) ≠ none) :
    (t.getFreeSpace n).2.alloc = t.alloc := by
  obtain ⟨d, hd⟩ := Option.ne_none_iff_exists'.mp hfound
  rw [getFreeSpace_admitted hm, hd, Option.elim_some]
  split
  · unfold takeExact
    dsimp only
    split <;> rfl
  · unfold takeLarger
    dsimp only
    split
    · rfl
    · split
      · split <;> rfl
      · rfl

end BlockFreeSpace

namespace Spaces
open BlockFreeSpace
variable {s : Spaces} {n : UInt32} {others : Finset Reference} {free : Nat → List Reference} {secure : Bool} {fuel : Nat}

theorem Tiled.step (h : Tiled others s.table s.extents free) (hholds : Holds s (.getFreeSpace n)) :
    ∃ free', Tiled others (s.step n).table (s.step n).extents free' := by
  by_cases hm : s.table.Admitted (sizeWithMeta n)
  · have hpos : 0 < sizeWithMeta n := Nat.lt_of_lt_of_le (by decide) hm.1
    by_cases hfound : s.table.findSpace (sizeWithMeta n) = none
    · by_cases hblock : (s.table.alloc.file.allocateNewBlock .data).1 = none
      · rw [step_none (getFreeSpace_none hm hfound hblock)]
        exact ⟨free, h.clear⟩
      · have hgrows : s.table.Grows (sizeWithMeta n) := ⟨hfound, hblock⟩
        obtain ⟨hroom, hlimit⟩ := hholds hm hgrows
        rcases h.inv.getFreeSpace_grown hm hgrows hroom with ⟨-, f, t, free', heq, htook⟩ | ⟨p, -, -, hle, hzero⟩
        · rw [step_some heq]
          exact ⟨free', h.clear.took htook hpos fun _ => hlimit⟩
        · rw [Nat.mod_eq_of_lt hlimit] at hzero
          have h24 : linkSize = 24 := rfl
          omega
    · obtain ⟨f, t, free', heq, htook⟩ := h.inv.getFreeSpace_found hm hfound
      have halloc := getFreeSpace_alloc hm hfound
      rw [heq] at halloc
      rw [step_some heq]
      exact ⟨free', h.clear.took htook hpos fun hne => absurd halloc hne⟩
  · rw [step_none (getFreeSpace_refused hm)]
    exact ⟨free, h.clear⟩

theorem Fresh.tiled (h : Fresh s) : Tiled s.table.alloc.live s.table s.extents fun _ => [] := by
  refine ⟨h.inv, fun p hp => hp, fun k hne => absurd rfl hne, fun x => iff_of_false ?_ ?_, fun k r hr => absurd hr List.not_mem_nil⟩
  · rintro ⟨p, hp, hother, -⟩
    exact hother hp
  · rw [h.extents]
    rintro (⟨e, he, -⟩ | ⟨k, r, hr, -⟩)
    · exact List.not_mem_nil he
    · exact List.not_mem_nil hr

/-- From a new `FSPC` block on, the lists hold exactly what is not handed out as long as nothing is released and what is left in
    new blocks can be listed. -/
theorem kept_of_holds (h : Fresh s) {es : List SpaceEvent} (hes : Trace.Along (handle secure fuel) Holds s es) :
    Trace.Along (handle secure fuel) (Kept secure fuel s.table.alloc.live) s es := by
  refine hes.mono (I := fun s' => ∃ free, Tiled s.table.alloc.live s'.table s'.extents free) ⟨_, h.tiled⟩
    fun s' e ⟨free, htiled⟩ hholds => ?_
  cases e with
  | getFreeSpace n =>
    obtain ⟨free', htiled'⟩ := Tiled.step htiled hholds
    exact ⟨⟨free', htiled'⟩, fun _ _ heq => (by cases heq), free', htiled'.exact⟩
  | releaseSpace _ _ => exact hholds.elim

/-! ### Releases -/

/-- The extents start at multiples of 8. -/
structure Aligned (extents : List Span) (free : Nat → List Reference) : Prop where
  extents : ∀ e ∈ extents, 8 ∣ e.start
  free : ∀ k, ∀ r ∈ free k, 8 ∣ r

theorem dvd_start {t : BlockFreeSpace} {extents : List Span} {p : Reference} (h : Inv t extents free) (hpage : 8 ∣ t.pageSize)
    (hp : Allocation.HandedOut t.alloc .data p) : 8 ∣ p + (t.pageSize - t.totalSpace) := by
  have hlive : p ∈ (t.alloc.step (.allocate .data)).live := by
    rw [Allocation.step_allocate, hp.returned]
    exact Finset.mem_insert_self _ _
  have hpageSize : (t.alloc.step (.allocate .data)).file.pageSize = t.pageSize := hp.pageSize
  obtain ⟨l, -, -, -, hpages⟩ := (h.grow hp).partitioned
  obtain ⟨i, -, -, rfl⟩ := (hpages p).mpr (.inr hlive)
  rw [hpageSize]
  exact Nat.dvd_add (Nat.dvd_mul_left_of_dvd hpage i) (Nat.dvd_sub hpage h.total.1)

theorem Aligned.took {t t' : BlockFreeSpace} {extents : List Span} {free' : Nat → List Reference} {m : Nat} {f : FreeSpaceT}
    (ha : Aligned extents free) (h : Inv t extents free) (hpage : 8 ∣ t.pageSize) (hm : 8 ∣ m)
    (htook : Took t extents free m f t' free') : Aligned (f.extent :: extents) free' := by
  have hcons (r : Reference) (n : Nat) (hr : 8 ∣ r) : ∀ e ∈ Span.mk r n :: extents, 8 ∣ e.start := by
    intro e he
    rcases List.mem_cons.mp he with rfl | he
    · exact hr
    · exact ha.extents e he
  cases htook.change with
  | whole hk _ _ _ =>
    rw [extent_mk]
    refine ⟨hcons _ _ (ha.free _ _ (hk ▸ List.mem_cons_self)), fun k r hr => ha.free k r (h.head_out hk k r hr).1⟩
  | split hk _ _ =>
    have hr := ha.free _ _ (hk ▸ List.mem_cons_self)
    rw [extent_mk]
    refine ⟨hcons _ _ hr, fun k a hmem => ?_⟩
    rcases mem_update hmem with ⟨rfl, hin⟩ | ⟨-, hin⟩
    · rcases List.mem_cons.mp hin with rfl | hin
      · exact Nat.dvd_add hr hm
      · exact ha.free _ a (h.head_out hk _ a hin).1
    · exact ha.free _ a (h.head_out hk _ a hin).1
  | full hp _ _ =>
    rw [extent_mk]
    exact ⟨hcons _ _ (dvd_start h hpage hp), ha.free⟩
  | rest hp _ _ _ _ =>
    rw [extent_mk]
    refine ⟨hcons _ _ (dvd_start h hpage hp), fun k a hmem => ?_⟩
    rcases mem_update hmem with ⟨rfl, hin⟩ | ⟨-, hin⟩
    · rcases List.mem_cons.mp hin with rfl | hin
      · exact Nat.dvd_add (dvd_start h hpage hp) hm
      · exact ha.free _ a hin
    · exact ha.free _ a hin

/-- The meta data takes 4 bytes, so a reference that was returned is no multiple of 8. -/
theorem releaseSpace_throws {t : BlockFreeSpace} {extents : List Span} (ha : Aligned extents free) {e : Span} (he : e ∈ extents)
    (secure : Bool) (fuel : Nat) (behindStart : Bool) :
    t.releaseSpace secure fuel (e.start + metaSize) behindStart = .error t.clear.heap := by
  have hdvd := ha.extents e he
  have hne : (e.start + metaSize) % referenceSize ≠ 0 := by
    rw [metaSize, referenceSize]
    omega
  rw [BlockFreeSpace.releaseSpace, if_pos hne]

theorem not_kept_release (ha : Aligned s.extents free) {offset : Reference} {behindStart : Bool}
    (hnamed : Named s (.releaseSpace offset behindStart)) : ¬ Kept secure fuel others s (.releaseSpace offset behindStart) := by
  obtain ⟨e, hmem, rfl⟩ := hnamed
  rintro ⟨hreturns, -⟩
  obtain ⟨heap, hrun⟩ := hreturns _ _ rfl
  rw [releaseSpace_throws ha hmem] at hrun
  cases hrun

/-- The first extent is handed out. -/
theorem took_first : ∃ f t free', (new firstSpace 4096).table.getFreeSpace 100 = (some f, t) ∧ Aligned [f.extent] free' := by
  have hm : (new firstSpace 4096).table.Admitted (sizeWithMeta 100) := by decide
  have hgrows : (new firstSpace 4096).table.Grows (sizeWithMeta 100) := ⟨fresh_firstSpace.findSpace _, by decide⟩
  have hserved : (new firstSpace 4096).table.Served (sizeWithMeta 100) := .inr ⟨hgrows, .inr (by decide)⟩
  rcases fresh_firstSpace.inv.getFreeSpace 100 fun _ _ => .inr (by decide) with ⟨hnot, -⟩ | ⟨-, f, t, free', heq, htook⟩
  · exact absurd ⟨hm, hserved⟩ hnot
  · have hnil : Aligned [] fun _ => [] := ⟨fun e he => absurd he List.not_mem_nil, fun k r hr => absurd hr List.not_mem_nil⟩
    exact ⟨f, t, free', heq, hnil.took fresh_firstSpace.inv.clear (by decide) (sizeWithMeta_dvd _) htook⟩

/-- An extent is handed out. -/
theorem kept_of_holds_one : Trace.Along (handle false 0) (Kept false 0 firstSpace.live) (new firstSpace 4096)
    [.getFreeSpace 100] :=
  kept_of_holds fresh_firstSpace ⟨fun _ _ => ⟨.inr (by decide), by decide⟩, trivial⟩

/-- An extent is handed out and released. -/
theorem not_kept : ¬ ∀ secure s, Fresh s → ∀ es, ∃ fuel, Trace.Along (handle secure fuel) Named s es →
    Trace.Along (handle secure fuel) (Kept secure fuel s.table.alloc.live) s es := by
  intro hall
  obtain ⟨f, t, free', heq, ha⟩ := took_first
  obtain ⟨fuel, hkept⟩ := hall false _ fresh_firstSpace [.getFreeSpace 100, .releaseSpace (f.extent.start + metaSize) true]
  have hstep : (handle false fuel (new firstSpace 4096) (.getFreeSpace 100)).extents = [f.extent] := by
    rw [handle, step_some heq]
    rfl
  have hnamed : Named (handle false fuel (new firstSpace 4096) (.getFreeSpace 100)) (.releaseSpace (f.extent.start + metaSize) true) :=
    ⟨f.extent, hstep ▸ List.mem_cons_self, rfl⟩
  exact not_kept_release (hstep ▸ ha) hnamed (hkept ⟨trivial, hnamed, trivial⟩).2.1

end Spaces

end Snapwebsites.Snapdatabase
