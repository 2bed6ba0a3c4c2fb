import Snapwebsites.Lib.Span
import Snapwebsites.Snapdatabase.Blocks

/-! # Free space in `DATA` blocks

`get_free_space()` of a `FSPC` block hands out extents of `DATA` blocks. The free extents of one size are a list, whose head
stands in the page of the `FSPC` block at the place that has the size as its number; a free extent starts with a header of 24
bytes. Headers are kept by the reference they stand at, which is what the pages hold as long as no header is written over another
one or behind the end of its page: each call tells what bytes it writes. The total space of a `DATA` block is in a static variable
of the code, so it is computed once for all tables. -/

namespace Snapwebsites.Snapdatabase

/-- `free_space_link_t`, with the size and the flag of its meta data. -/
structure FreeSpaceLink where
  size : Nat := 0
  allocated : Bool := false
  next : Reference := nullFileAddr
  previous : Reference := nullFileAddr

/-- `free_space_t`. The size is with the meta data in front of the reference. -/
structure FreeSpaceT where
  reference : Reference
  size : Nat
  deriving DecidableEq

/-- `sizeof(free_space_meta_t)`. -/
def metaSize : Nat := 4

/-- `sizeof(free_space_link_t)`. -/
def linkSize : Nat := 24

/-- `sizeof(reference_t)`. -/
def referenceSize : Nat := 8

def freeSpaceOffset : Nat := 8

def freeSpaceJump : Nat := referenceSize * 32

/-- `f_size` has 24 bits. -/
def spaceLimit : Nat := 2 ^ 24

namespace FreeSpaceT

def extent (f : FreeSpaceT) : Span := ⟨f.reference - metaSize, f.size⟩

end FreeSpaceT

/-- The page of the `FSPC` block at `offset`, the headers in `DATA` blocks, and the bytes that are written. -/
structure FreeSpaceHeap where
  offset : Reference
  freeSpace : Nat → Reference
  link : Reference → FreeSpaceLink
  writes : List Span

namespace FreeSpaceHeap

def setLink (r : Reference) (l : FreeSpaceLink) (w : Span) (h : FreeSpaceHeap) : FreeSpaceHeap :=
  { h with link := Function.update h.link r l, writes := w :: h.writes }

def setMeta (r : Reference) (l : FreeSpaceLink) (h : FreeSpaceHeap) : FreeSpaceHeap := h.setLink r l ⟨r, metaSize⟩

def setNext (r next : Reference) (h : FreeSpaceHeap) : FreeSpaceHeap :=
  h.setLink r { h.link r with next } ⟨r + 8, referenceSize⟩

def setPrevious (r previous : Reference) (h : FreeSpaceHeap) : FreeSpaceHeap :=
  h.setLink r { h.link r with previous } ⟨r + 16, referenceSize⟩

def setFreeSpace (size : Nat) (r : Reference) (h : FreeSpaceHeap) : FreeSpaceHeap :=
  { h with freeSpace := Function.update h.freeSpace size r, writes := ⟨h.offset + size, referenceSize⟩ :: h.writes }

/-- `get_free_space_pointer()`; nothing when it throws. -/
def getFreeSpacePointer (size : Nat) : Option Nat := if size < freeSpaceOffset then none else some (roundUp size referenceSize)

/-- `link_space()`, which writes the whole header that stands at `r`. -/
def linkSpace (linkOffset r : Reference) (h : FreeSpaceHeap) : Option FreeSpaceHeap :=
  (getFreeSpacePointer (h.link r).size).map fun d =>
    let next := h.freeSpace d
    let h := h.setLink r { size := (h.link r).size, allocated := false, next, previous := nullFileAddr } ⟨r, linkSize⟩
    let h := if next = nullFileAddr then h else h.setPrevious next linkOffset
    h.setFreeSpace d linkOffset

/-- `unlink_space()`. -/
def unlinkSpace (r : Reference) (h : FreeSpaceHeap) : Option FreeSpaceHeap :=
  let l := h.link r
  (if l.previous ≠ nullFileAddr then some (h.setNext l.previous l.next)
    else (getFreeSpacePointer l.size).map fun d => h.setFreeSpace d l.next).map fun h =>
      if l.next ≠ nullFileAddr then h.setPrevious l.next l.previous else h

end FreeSpaceHeap

structure BlockFreeSpace where
  alloc : Allocation
  heap : FreeSpaceHeap
  totalSpace : Nat

namespace BlockFreeSpace

def pageSize (s : BlockFreeSpace) : Nat := s.alloc.file.pageSize

/-- The sizes whose lists are searched for a larger extent: extents of less than 256 bytes are left alone by small ones. -/
def largerSizes (s : BlockFreeSpace) (minimumSize : Nat) : List Nat :=
  let d := if minimumSize < freeSpaceJump then freeSpaceJump else minimumSize + referenceSize
  (List.range ((s.pageSize - d) / referenceSize)).map fun i => d + i * referenceSize

/-- The size of the list whose head is taken. -/
def findSpace (s : BlockFreeSpace) (minimumSize : Nat) : Option Nat :=
  if s.heap.freeSpace minimumSize ≠ nullFileAddr then some minimumSize
  else (s.largerSizes minimumSize).find? fun d => s.heap.freeSpace d != nullFileAddr

/-- The head of a list is an exact match: it is taken out of the list. -/
def takeExact (s : BlockFreeSpace) (minimumSize : Nat) : Option FreeSpaceT × BlockFreeSpace :=
  let r := s.heap.freeSpace minimumSize
  match s.heap.unlinkSpace r with
  | none => (none, s)
  | some h => (some { reference := r + metaSize, size := minimumSize },
      { s with heap := h.setMeta r { h.link r with size := minimumSize, allocated := true } })

/-- The head of a list of larger extents is broken in two when the rest has room for a header. -/
def takeLarger (s : BlockFreeSpace) (minimumSize d : Nat) : Option FreeSpaceT × BlockFreeSpace :=
  let r := s.heap.freeSpace d
  match s.heap.unlinkSpace r with
  | none => (none, s)
  | some h =>
    let remainingSize := ((h.link r).size + 2 ^ 32 - minimumSize) % 2 ^ 32
    if linkSize ≤ remainingSize then
      let h := h.setMeta (r + minimumSize) { h.link (r + minimumSize) with size := remainingSize % spaceLimit, allocated := false }
      let h := h.setMeta r { h.link r with size := minimumSize }
      match h.linkSpace (r + minimumSize) (r + minimumSize) with
      | none => (none, { s with heap := h })
      | some h => (some { reference := r + metaSize, size := minimumSize },
          { s with heap := h.setMeta r { h.link r with allocated := true } })
    else (some { reference := r + metaSize, size := (h.link r).size },
      { s with heap := h.setMeta r { h.link r with allocated := true } })

/-- A new `DATA` block is made, which is clear. The rest is linked when it has room for the meta data. -/
def takeNew (s : BlockFreeSpace) (minimumSize : Nat) : Option FreeSpaceT × BlockFreeSpace :=
  match (s.alloc.file.allocateNewBlock .data).1 with
  | none => (none, s)
  | some offset =>
    let s := { s with alloc := s.alloc.step (.allocate .data) }
    let r := offset + (s.pageSize - s.totalSpace)
    let remainingSize := s.totalSpace - minimumSize
    if metaSize ≤ remainingSize then
      let h := s.heap.setMeta (r + minimumSize) { size := remainingSize % spaceLimit }
      match h.linkSpace (r + minimumSize) (r + minimumSize) with
      | none => (none, { s with heap := h })
      | some h => (some { reference := r + metaSize, size := minimumSize },
          { s with heap := h.setMeta r { size := s.totalSpace - remainingSize, allocated := true } })
    else (some { reference := r + metaSize, size := minimumSize },
      { s with heap := s.heap.setMeta r { size := s.totalSpace % spaceLimit, allocated := true } })

/-- `block_data::HEADER_SIZE`. -/
def headerSize : Nat := 8

/-- `block_data::block_total_space()`. -/
def blockTotalSpace (pageSize : Nat) : Nat := (pageSize - headerSize) % 2 ^ 32

/-- `total_space_available_in_one_data_block()` when it is called first for a table with such pages. -/
def totalSpaceAvailableInOneDataBlock (pageSize : Nat) : Nat := blockTotalSpace pageSize / referenceSize * referenceSize

/-- The size that is searched: a `std::uint32_t` with room for the meta data. -/
def sizeWithMeta (minimumSize : UInt32) : Nat := roundUp (minimumSize.toNat + metaSize) referenceSize % 2 ^ 32

/-- `get_free_space()`; nothing when it throws. -/
def getFreeSpace (minimumSize : UInt32) (s : BlockFreeSpace) : Option FreeSpaceT × BlockFreeSpace :=
  let minimumSize := sizeWithMeta minimumSize
  let s := { s with heap := { s.heap with writes := [] } }
  if s.totalSpace < minimumSize ∨ spaceLimit ≤ minimumSize ∨ minimumSize < freeSpaceOffset then (none, s)
  else
    match s.findSpace minimumSize with
    | none => s.takeNew minimumSize
    | some d => if d = minimumSize then s.takeExact minimumSize else s.takeLarger minimumSize d

end BlockFreeSpace

/-! ### Lists of free extents -/

namespace FreeSpaceHeap
variable {h h' : FreeSpaceHeap} {free : Nat → List Reference} {r : Reference} {k : Nat} {l : List Reference}

theorem roundUp_of_dvd {n m : Nat} (hm : 0 < m) (h : m ∣ n) : roundUp n m = n := by
  obtain ⟨i, rfl⟩ := h
  have hdiv : (m * i + m - 1) / m = i := by
    rw [Nat.add_sub_assoc hm, Nat.mul_add_div hm, Nat.div_eq_of_lt (Nat.sub_lt hm Nat.one_pos), Nat.add_zero]
  rw [roundUp, hdiv, Nat.mul_comm]

theorem getFreeSpacePointer_eq (hk : 8 ∣ k) (hmin : 8 ≤ k) : getFreeSpacePointer k = some k := by
  rw [getFreeSpacePointer, freeSpaceOffset, if_neg (Nat.not_lt.mpr hmin), referenceSize, roundUp_of_dvd (by decide) hk]

def next (h : FreeSpaceHeap) (r : Reference) : Option Reference := some (h.link r).next

/-- The extents of `free k` are listed under the size `k`. -/
structure Lists (h : FreeSpaceHeap) (free : Nat → List Reference) : Prop where
  linked : ∀ k, Linked h.next nullFileAddr (h.freeSpace k) (free k)
  size : ∀ k, ∀ r ∈ free k, (h.link r).size = k
  first : ∀ k, h.freeSpace k ≠ nullFileAddr → (h.link (h.freeSpace k)).previous = nullFileAddr
  sizes : ∀ k, free k ≠ [] → 8 ∣ k ∧ 8 ≤ k

/-- The headers of listed extents are as they were, apart from where the first ones say that they come from. -/
theorem Lists.congr (hl : Lists h free) (hfree : h'.freeSpace = h.freeSpace) (hlink : ∀ k, ∀ r ∈ free k, h'.link r = h.link r) :
    Lists h' free := by
  refine ⟨fun k => ?_, fun k r hr => ?_, fun k hk => ?_, hl.sizes⟩
  · rw [hfree]
    refine (hl.linked k).congr fun r hr => ?_
    rw [next, next, hlink k r hr]
  · rw [hlink k r hr, hl.size k r hr]
  · rw [hfree] at hk ⊢
    obtain ⟨_, _, -, -, heq⟩ := (hl.linked k).eq_cons hk
    have hmem : h.freeSpace k ∈ free k := heq ▸ List.mem_cons_self
    rw [hlink k _ hmem]
    exact hl.first k hk

/-- A listed extent is in one list only. -/
theorem Lists.unique (hl : Lists h free) {k' : Nat} (hr : r ∈ free k) (hr' : r ∈ free k') : k = k' :=
  (hl.size k r hr).symm.trans (hl.size k' r hr')

theorem setPrevious_link (h : FreeSpaceHeap) (r p a : Reference) : (h.setPrevious r p).link a =
    if a = r then { h.link r with previous := p } else h.link a := Function.update_apply ..

/-- Nothing but where a header says that it comes from is changed. -/
theorem setPrevious_keeps (h : FreeSpaceHeap) (r p a : Reference) : ((h.setPrevious r p).link a).size = (h.link a).size ∧
    (h.setPrevious r p).next a = h.next a := by
  unfold next
  rw [setPrevious_link]
  split
  · rename_i heq
    rw [heq]
    exact ⟨rfl, rfl⟩
  · exact ⟨rfl, rfl⟩

theorem Lists.setPrevious (hl : Lists h free) {a p : Reference} (hp : p = nullFileAddr ∨ ∀ k, h.freeSpace k ≠ a) :
    Lists (h.setPrevious a p) free := by
  refine ⟨fun k => (hl.linked k).congr fun r _ => (setPrevious_keeps h a p r).2, fun k r hr => ?_, fun k hk => ?_, hl.sizes⟩
  · rw [(setPrevious_keeps h a p r).1, hl.size k r hr]
  · have hfirst := hl.first k hk
    change ((h.setPrevious a p).link (h.freeSpace k)).previous = _
    rw [setPrevious_link]
    split
    · rename_i heq
      exact hp.resolve_right fun hne => hne k heq
    · exact hfirst

theorem Lists.setLink (hl : Lists h free) (hr : ∀ k, r ∉ free k) (l : FreeSpaceLink) (w : Span) : Lists (h.setLink r l w) free := by
  refine hl.congr rfl fun k a ha => Function.update_of_ne (fun heq => hr k ?_) _ _
  exact heq ▸ ha

theorem setFreeSpace_freeSpace (h : FreeSpaceHeap) (k : Nat) (r : Reference) (k' : Nat) :
    (h.setFreeSpace k r).freeSpace k' = if k' = k then r else h.freeSpace k' := Function.update_apply ..

/-- The head of a list is changed. -/
theorem Lists.setFreeSpace (hl : Lists h free) (hlinked : Linked h.next nullFileAddr r l) (hsize : ∀ a ∈ l, (h.link a).size = k)
    (hfirst : r ≠ nullFileAddr → (h.link r).previous = nullFileAddr) (hk : l ≠ [] → 8 ∣ k ∧ 8 ≤ k) :
    Lists (h.setFreeSpace k r) (Function.update free k l) := by
  have hupdate : ∀ k', Function.update free k l k' = if k' = k then l else free k' := fun k' => Function.update_apply ..
  refine ⟨fun k' => ?_, fun k' a ha => ?_, fun k' hk' => ?_, fun k' hne => ?_⟩
  · rw [setFreeSpace_freeSpace, hupdate]
    split
    · exact hlinked
    · exact hl.linked k'
  · rw [hupdate] at ha
    split at ha
    · rename_i heq
      rw [heq]
      exact hsize a ha
    · exact hl.size k' a ha
  · rw [setFreeSpace_freeSpace] at hk' ⊢
    split at hk'
    · rename_i heq
      rw [if_pos heq]
      exact hfirst hk'
    · rename_i heq
      rw [if_neg heq]
      exact hl.first k' hk'
  · rw [hupdate] at hne
    split at hne
    · rename_i heq
      rw [heq]
      exact hk hne
    · exact hl.sizes k' hne

/-- What an operation on the list of size `k` makes of the pages: `l` are the extents of the list before. -/
structure Relinked (h : FreeSpaceHeap) (k : Nat) (l : List Reference) (w : List Span) (h' : FreeSpaceHeap) : Prop where
  offset : h'.offset = h.offset
  writes : ∀ a ∈ h'.writes, a ∈ h.writes ∨ a ∈ w ∨ a = ⟨h.offset + k, referenceSize⟩ ∨ ∃ r ∈ l, a = ⟨r + 16, referenceSize⟩

/-- The head of a list is taken out of it. -/
theorem Lists.unlink (hl : Lists h free) (hk : free k = r :: l) : ∃ h', h.unlinkSpace r = some h' ∧
    Lists h' (Function.update free k l) ∧ Relinked h k l [] h' ∧ ∀ a, (h'.link a).size = (h.link a).size := by
  have hlinked := hl.linked k
  rw [hk] at hlinked
  have hnull : r ≠ nullFileAddr := hlinked.ne_null List.mem_cons_self
  obtain ⟨hhead, n, hnext, htail⟩ := hlinked.head
  obtain rfl := Option.some.inj hnext
  have hsize : (h.link r).size = k := hl.size k r (hk ▸ List.mem_cons_self)
  have hprevious : (h.link r).previous = nullFileAddr := hhead ▸ hl.first k (hhead ▸ hnull)
  have hkind := hl.sizes k (by rw [hk]; exact List.cons_ne_nil _ _)
  have hsizes : ∀ a ∈ l, (h.link a).size = k := fun a ha => hl.size k a (hk ▸ List.mem_cons_of_mem _ ha)
  have hrun : h.unlinkSpace r = some (if (h.link r).next ≠ nullFileAddr then
      (h.setFreeSpace k (h.link r).next).setPrevious (h.link r).next nullFileAddr else h.setFreeSpace k (h.link r).next) := by
    simp only [unlinkSpace, hprevious, hsize, getFreeSpacePointer_eq hkind.1 hkind.2, ne_eq, not_true_eq_false, if_false,
      Option.map_some]
  refine ⟨_, hrun, ?_⟩
  by_cases hlast : (h.link r).next = nullFileAddr
  · rw [if_neg (not_not.mpr hlast)]
    refine ⟨hl.setFreeSpace htail hsizes (fun hne => absurd hlast hne) fun _ => hkind, ⟨rfl, fun a ha => ?_⟩, fun a => rfl⟩
    rcases List.mem_cons.mp ha with rfl | ha
    · exact .inr (.inr (.inl rfl))
    · exact .inl ha
  · rw [if_pos hlast]
    have hlists : Lists ((h.setPrevious (h.link r).next nullFileAddr).setFreeSpace k (h.link r).next) (Function.update free k l) := by
      refine (hl.setPrevious (.inl rfl)).setFreeSpace (htail.congr fun a _ => (setPrevious_keeps ..).2) (fun a ha => ?_) (fun _ => ?_)
        fun _ => hkind
      · rw [(setPrevious_keeps ..).1, hsizes a ha]
      · rw [setPrevious_link, if_pos rfl]
    refine ⟨hlists.congr rfl fun _ _ _ => rfl, ⟨rfl, fun a ha => ?_⟩, fun a => (setPrevious_keeps ..).1⟩
    obtain ⟨_, l', -, -, rfl⟩ := htail.eq_cons hlast
    rcases List.mem_cons.mp ha with rfl | ha
    · exact .inr (.inr (.inr ⟨_, List.mem_cons_self, rfl⟩))
    · rcases List.mem_cons.mp ha with rfl | ha
      · exact .inr (.inr (.inl rfl))
      · exact .inl ha

/-- The header of an extent that gets the first one of the list of size `k`. -/
def setHeader (r : Reference) (k : Nat) (h : FreeSpaceHeap) : FreeSpaceHeap :=
  h.setLink r { size := k, allocated := false, next := h.freeSpace k, previous := nullFileAddr } ⟨r, linkSize⟩

theorem setHeader_link (h : FreeSpaceHeap) (r : Reference) (k : Nat) (a : Reference) : (h.setHeader r k).link a =
    if a = r then { size := k, allocated := false, next := h.freeSpace k, previous := nullFileAddr } else h.link a :=
  Function.update_apply ..

/-- An extent that is not listed is listed first. -/
theorem Lists.link (hl : Lists h free) (hr : ∀ k, r ∉ free k) (hnull : r ≠ nullFileAddr) (hsize : (h.link r).size = k)
    (hkind : 8 ∣ k ∧ 8 ≤ k) : ∃ h', h.linkSpace r r = some h' ∧ Lists h' (Function.update free k (r :: free k)) ∧
      Relinked h k (free k) [⟨r, linkSize⟩] h' ∧ ∀ a, (h'.link a).size = (h.link a).size := by
  have hset : Lists (h.setHeader r k) free := hl.setLink hr _ _
  have hsame (a : Reference) : ((h.setHeader r k).link a).size = (h.link a).size := by
    rw [setHeader_link]
    split
    · rename_i heq
      rw [heq, hsize]
    · rfl
  have hcons : Linked (h.setHeader r k).next nullFileAddr r (r :: free k) := by
    refine .cons hnull ?_ (hset.linked k)
    rw [next, setHeader_link, if_pos rfl]
    rfl
  have hsizes : ∀ a ∈ r :: free k, ((h.setHeader r k).link a).size = k := by
    intro a ha
    rw [hsame]
    rcases List.mem_cons.mp ha with rfl | ha
    · exact hsize
    · exact hl.size k a ha
  have hpush := hset.setFreeSpace hcons hsizes (fun _ => by rw [setHeader_link, if_pos rfl]) fun _ => hkind
  have hrun : h.linkSpace r r = some (if h.freeSpace k = nullFileAddr then (h.setHeader r k).setFreeSpace k r else
      ((h.setHeader r k).setPrevious (h.freeSpace k) r).setFreeSpace k r) := by
    simp only [linkSpace, hsize, getFreeSpacePointer_eq hkind.1 hkind.2, Option.map_some]
    split <;> rfl
  refine ⟨_, hrun, ?_⟩
  by_cases hempty : h.freeSpace k = nullFileAddr
  · rw [if_pos hempty]
    refine ⟨hpush, ⟨rfl, fun a ha => ?_⟩, hsame⟩
    rcases List.mem_cons.mp ha with rfl | ha
    · exact .inr (.inr (.inl rfl))
    · rcases List.mem_cons.mp ha with rfl | ha
      · exact .inr (.inl List.mem_cons_self)
      · exact .inl ha
  · rw [if_neg hempty]
    have hin : h.freeSpace k ∈ free k := by
      obtain ⟨_, _, -, -, heq⟩ := (hl.linked k).eq_cons hempty
      exact heq ▸ List.mem_cons_self
    have hhead : ∀ k', ((h.setHeader r k).setFreeSpace k r).freeSpace k' ≠ h.freeSpace k := by
      intro k' heq
      rw [setFreeSpace_freeSpace] at heq
      split at heq
      · exact hr k (heq ▸ hin)
      · rename_i hne
        have hnull' : h.freeSpace k' ≠ nullFileAddr := fun hzero => hempty (heq.symm.trans hzero)
        obtain ⟨_, _, -, -, hcons'⟩ := (hl.linked k').eq_cons hnull'
        have hin' : h.freeSpace k' ∈ free k' := hcons' ▸ List.mem_cons_self
        exact hne (hl.unique hin' (heq.symm ▸ hin))
    refine ⟨(hpush.setPrevious (.inr hhead)).congr rfl fun _ _ _ => rfl, ⟨rfl, fun a ha => ?_⟩,
      fun a => (setPrevious_keeps ..).1.trans (hsame a)⟩
    rcases List.mem_cons.mp ha with rfl | ha
    · exact .inr (.inr (.inl rfl))
    · rcases List.mem_cons.mp ha with rfl | ha
      · exact .inr (.inr (.inr ⟨_, hin, rfl⟩))
      · rcases List.mem_cons.mp ha with rfl | ha
        · exact .inr (.inl List.mem_cons_self)
        · exact .inl ha

end FreeSpaceHeap

/-! ### Where the extents lie -/

def freeSpan (r : Reference) (k : Nat) : Span := ⟨r, max k linkSize⟩

/-- A `DATA` block in use. -/
def IsData (a : Allocation) (p : Reference) : Prop := p ∈ a.live ∧ a.file.getBlock p = some (.used .data)

/-- Inside the data of one `DATA` block: 8 bytes are its header. -/
def InData (a : Allocation) (x : Span) : Prop := ∃ p, IsData a p ∧ x.Within ⟨p + 8, a.file.pageSize - 8⟩

/-- A span that is apart from all the extents. -/
structure Unused (free : Nat → List Reference) (extents : List Span) (x : Span) : Prop where
  ofExtents : ∀ e ∈ extents, x.Apart e
  ofFree : ∀ k, ∀ r ∈ free k, x.Apart (freeSpan r k)

/-- The extents, handed out or free, lie in `DATA` blocks and are apart. -/
structure Arranged (a : Allocation) (free : Nat → List Reference) (extents : List Span) : Prop where
  extentsApart : extents.Pairwise Span.Apart
  mixed : ∀ k, ∀ r ∈ free k, ∀ e ∈ extents, (freeSpan r k).Apart e
  freeApart : ∀ k, ∀ r ∈ free k, ∀ k', ∀ r' ∈ free k', r ≠ r' → (freeSpan r k).Apart (freeSpan r' k')
  extentsIn : ∀ e ∈ extents, InData a e
  freeIn : ∀ k, ∀ r ∈ free k, InData a (freeSpan r k)

section
variable {a a' : Allocation} {free : Nat → List Reference} {extents : List Span} {x y : Span} {r : Reference} {k : Nat}
  {l : List Reference}

theorem InData.within (h : InData a y) (hx : x.Within y) : InData a x := by
  obtain ⟨p, hp, hy⟩ := h
  exact ⟨p, hp, hx.trans hy⟩

theorem Unused.within (h : Unused free extents y) (hx : x.Within y) : Unused free extents x :=
  ⟨fun e he => (h.ofExtents e he).within hx, fun k r hr => (h.ofFree k r hr).within hx⟩

theorem Unused.cons (h : Unused free extents x) (hy : x.Apart y) : Unused free (y :: extents) x :=
  ⟨fun e he => (List.mem_cons.mp he).elim (fun heq => heq ▸ hy) (h.ofExtents e), h.ofFree⟩

theorem Arranged.insert (h : Arranged a free extents) (hx : Unused free extents x) (hin : InData a x) : Arranged a free (x :: extents) := by
  refine ⟨List.pairwise_cons.mpr ⟨hx.ofExtents, h.extentsApart⟩, fun k r hr e he => ?_, h.freeApart, fun e he => ?_, h.freeIn⟩
  · rcases List.mem_cons.mp he with rfl | he
    · exact (hx.ofFree k r hr).symm
    · exact h.mixed k r hr e he
  · rcases List.mem_cons.mp he with rfl | he
    · exact hin
    · exact h.extentsIn e he

theorem mem_update {k' : Nat} {r' : Reference} (h : r' ∈ Function.update free k l k') : k' = k ∧ r' ∈ l ∨ k' ≠ k ∧ r' ∈ free k' := by
  by_cases heq : k' = k
  · subst heq
    rw [Function.update_self] at h
    exact .inl ⟨rfl, h⟩
  · rw [Function.update_of_ne heq] at h
    exact .inr ⟨heq, h⟩

/-- A list gets shorter. -/
theorem Arranged.sub (h : Arranged a free extents) {free' : Nat → List Reference} (hsub : ∀ k, ∀ r ∈ free' k, r ∈ free k) :
    Arranged a free' extents :=
  ⟨h.extentsApart, fun k r hr => h.mixed k r (hsub k r hr), fun k r hr k' r' hr' => h.freeApart k r (hsub k r hr) k' r' (hsub k' r' hr'),
    h.extentsIn, fun k r hr => h.freeIn k r (hsub k r hr)⟩

theorem Arranged.push (h : Arranged a free extents) (hx : Unused free extents (freeSpan r k)) (hin : InData a (freeSpan r k)) :
    Arranged a (Function.update free k (r :: free k)) extents := by
  have hmem : ∀ k', ∀ r' ∈ Function.update free k (r :: free k) k', k' = k ∧ r' = r ∨ r' ∈ free k' := by
    intro k' r' hr'
    rcases mem_update hr' with ⟨rfl, hr'⟩ | ⟨-, hr'⟩
    · exact (List.mem_cons.mp hr').imp_left fun heq => ⟨rfl, heq⟩
    · exact .inr hr'
  refine ⟨h.extentsApart, fun k' r' hr' => ?_, fun k₁ r₁ hr₁ k₂ r₂ hr₂ hne => ?_, h.extentsIn, fun k' r' hr' => ?_⟩
  · rcases hmem k' r' hr' with ⟨rfl, rfl⟩ | hr'
    · exact hx.ofExtents
    · exact h.mixed k' r' hr'
  · rcases hmem k₁ r₁ hr₁ with ⟨rfl, rfl⟩ | hin₁ <;> rcases hmem k₂ r₂ hr₂ with ⟨rfl, rfl⟩ | hin₂
    · exact absurd rfl hne
    · exact hx.ofFree k₂ r₂ hin₂
    · exact (hx.ofFree k₁ r₁ hin₁).symm
    · exact h.freeApart k₁ r₁ hin₁ k₂ r₂ hin₂ hne
  · rcases hmem k' r' hr' with ⟨rfl, rfl⟩ | hr'
    · exact hin
    · exact h.freeIn k' r' hr'

/-- Two pages have no byte in common. -/
theorem apart_of_pages (h : Allocation.Partitioned a) {p q : Reference} (hp : p ∈ a.live) (hq : q ∈ a.live) (hne : p ≠ q) :
    (Span.mk p a.file.pageSize).Apart ⟨q, a.file.pageSize⟩ := by
  obtain ⟨l, -, -, -, hpages⟩ := h
  obtain ⟨i, -, -, rfl⟩ := (hpages p).mpr (.inr hp)
  obtain ⟨j, -, -, rfl⟩ := (hpages q).mpr (.inr hq)
  rcases Nat.lt_or_gt_of_ne (fun heq => hne (heq ▸ rfl) : i ≠ j) with hlt | hlt
  · refine .inl ?_
    rw [Span.stop, ← Nat.succ_mul]
    exact Nat.mul_le_mul_right _ hlt
  · refine .inr ?_
    rw [Span.stop, ← Nat.succ_mul]
    exact Nat.mul_le_mul_right _ hlt

/-- The `DATA` blocks of an allocation stay when another block is handed out. -/
theorem IsData.step {a : Allocation} {type : Dbtype} {p q : Reference} (hp : Allocation.HandedOut a type p) (hq : IsData a q) :
    IsData (a.step (.allocate type)) q := by
  refine ⟨?_, (hp.others q hq.1).trans hq.2⟩
  rw [Allocation.step_allocate, hp.returned]
  exact Finset.mem_insert_of_mem hq.1

theorem InData.step {a : Allocation} {type : Dbtype} {p : Reference} {x : Span} (hp : Allocation.HandedOut a type p) (hx : InData a x) :
    InData (a.step (.allocate type)) x := by
  obtain ⟨q, hq, hin⟩ := hx
  have hpageSize : (a.step (.allocate type)).file.pageSize = a.file.pageSize := hp.pageSize
  exact ⟨q, IsData.step hp hq, hpageSize ▸ hin⟩

theorem within_page {p n : Nat} (hn : 8 ≤ n) : (Span.mk (p + 8) (n - 8)).Within ⟨p, n⟩ :=
  Span.within_rest (Nat.add_sub_cancel' hn).le

end

/-! ### What is taken -/

namespace BlockFreeSpace

/-- The lists are those of `free`, and `extents` are the ones that are handed out. -/
structure Inv (t : BlockFreeSpace) (extents : List Span) (free : Nat → List Reference) : Prop where
  partitioned : Allocation.Partitioned t.alloc
  pages : t.alloc.file.pages ≠ []
  offset : t.heap.offset ∈ t.alloc.live
  notData : t.alloc.file.getBlock t.heap.offset ≠ some (.used .data)
  total : 8 ∣ t.totalSpace ∧ t.totalSpace + 8 ≤ t.pageSize
  lists : t.heap.Lists free
  placed : Arranged t.alloc free extents
  limit : ∀ k, free k ≠ [] → k < spaceLimit

/-- Bytes that the allocator may write: a place of the page of the `FSPC` block, or some of a free extent. -/
def Inside (t : BlockFreeSpace) (free : Nat → List Reference) (w : Span) : Prop :=
  (∃ k, k + 8 ≤ t.pageSize ∧ w = ⟨t.heap.offset + k, referenceSize⟩) ∨ ∃ k, ∃ r ∈ free k, w.Within (freeSpan r k)

/-- Bytes of one page in use that are in no extent that is handed out. -/
structure Written (t : BlockFreeSpace) (extents : List Span) (w : Span) : Prop where
  page : ∃ p ∈ t.alloc.live, (p = t.heap.offset ∨ t.alloc.file.getBlock p = some (.used .data)) ∧ w.Within ⟨p, t.pageSize⟩
  extents : ∀ e ∈ extents, w.Apart e

/-- What becomes of the free extents when one is taken. -/
inductive Change (t t' : BlockFreeSpace) (free : Nat → List Reference) (m : Nat) : FreeSpaceT → (Nat → List Reference) → Prop
  | whole {k : Nat} {r : Reference} {l : List Reference} : free k = r :: l → m ≤ k → k < m + linkSize → t'.alloc = t.alloc →
      Change t t' free m { reference := r + metaSize, size := k } (Function.update free k l)
  | split {k : Nat} {r : Reference} {l : List Reference} : free k = r :: l → m + linkSize ≤ k → t'.alloc = t.alloc →
      Change t t' free m { reference := r + metaSize, size := m }
        (Function.update (Function.update free k l) (k - m) ((r + m) :: Function.update free k l (k - m)))
  | full {p : Reference} : Allocation.HandedOut t.alloc .data p → t.totalSpace = m → t'.alloc = t.alloc.step (.allocate .data) →
      Change t t' free m { reference := p + (t.pageSize - t.totalSpace) + metaSize, size := m } free
  | rest {p : Reference} {k : Nat} : Allocation.HandedOut t.alloc .data p → m + linkSize ≤ t.totalSpace →
      k = (t.totalSpace - m) % spaceLimit → k ≠ 0 → t'.alloc = t.alloc.step (.allocate .data) →
      Change t t' free m { reference := p + (t.pageSize - t.totalSpace) + metaSize, size := m }
        (Function.update free k ((p + (t.pageSize - t.totalSpace) + m) :: free k))

/-- An extent for `m` bytes is taken. -/
structure Took (t : BlockFreeSpace) (extents : List Span) (free : Nat → List Reference) (m : Nat) (f : FreeSpaceT)
    (t' : BlockFreeSpace) (free' : Nat → List Reference) : Prop where
  change : Change t t' free m f free'
  total : t'.totalSpace = t.totalSpace
  inv : Inv t' (f.extent :: extents) free'
  size : m ≤ f.size
  writes : ∀ w ∈ t'.heap.writes, Written t' extents w

variable {t t' : BlockFreeSpace} {extents : List Span} {free : Nat → List Reference} {r : Reference} {k m : Nat}
  {l : List Reference} {w : Span}

theorem extent_mk (r : Reference) (n : Nat) : FreeSpaceT.extent { reference := r + metaSize, size := n } = ⟨r, n⟩ := by
  rw [FreeSpaceT.extent, Nat.add_sub_cancel]

theorem Inv.size_le (h : Inv t extents free) (hr : r ∈ free k) : max k linkSize + 8 ≤ t.pageSize := by
  obtain ⟨p, -, hwithin⟩ := h.placed.freeIn k r hr
  have hstart := hwithin.1
  have hstop := hwithin.2
  have htotal := h.total.2
  simp only [freeSpan, Span.stop, pageSize] at hstart hstop htotal ⊢
  omega

theorem Inv.pageSize_ge (h : Inv t extents free) : 8 ≤ t.pageSize := Nat.le_trans (Nat.le_add_left _ _) h.total.2

/-- What lies in a `DATA` block lies in its page. -/
theorem InData.page {a : Allocation} {x : Span} (h : InData a x) (hsize : 8 ≤ a.file.pageSize) :
    ∃ p, IsData a p ∧ x.Within ⟨p, a.file.pageSize⟩ := by
  obtain ⟨p, hp, hx⟩ := h
  exact ⟨p, hp, hx.trans (within_page hsize)⟩

theorem written_of_unused {x : Span} (hsize : 8 ≤ t.pageSize) (hunused : Unused free extents x) (hin : InData t.alloc x)
    (hw : w.Within x) : Written t extents w := by
  obtain ⟨p, hp, hx⟩ := InData.page hin hsize
  exact ⟨⟨p, hp.1, .inr hp.2, hw.trans hx⟩, fun e he => (hunused.ofExtents e he).within hw⟩

/-- The pages are known by the allocation and by the place of the `FSPC` block. -/
theorem Written.congr (h : Written t extents w) (halloc : t'.alloc = t.alloc) (hoffset : t'.heap.offset = t.heap.offset) :
    Written t' extents w := by
  obtain ⟨⟨p, hp, hblock, hpage⟩, hextents⟩ := h
  refine ⟨⟨p, ?_, ?_, ?_⟩, hextents⟩
  · rwa [halloc]
  · rwa [halloc, hoffset]
  · rwa [pageSize, halloc]

theorem Inv.written (h : Inv t extents free) (hw : Inside t free w) : Written t extents w := by
  rcases hw with ⟨k, hk, rfl⟩ | ⟨k, r, hr, hw⟩
  · have hwithin : (Span.mk (t.heap.offset + k) referenceSize).Within ⟨t.heap.offset, t.pageSize⟩ := Span.within_rest hk
    refine ⟨⟨_, h.offset, .inl rfl, hwithin⟩, fun e he => ?_⟩
    obtain ⟨p, hp, hin⟩ := InData.page (h.placed.extentsIn e he) h.pageSize_ge
    have hne : t.heap.offset ≠ p := fun heq => h.notData (heq ▸ hp.2)
    exact (((apart_of_pages h.partitioned h.offset hp.1 hne).within hwithin).symm.within hin).symm
  · obtain ⟨p, hp, hin⟩ := InData.page (h.placed.freeIn k r hr) h.pageSize_ge
    exact ⟨⟨p, hp.1, .inr hp.2, hw.trans hin⟩, fun e he => (h.placed.mixed k r hr e he).within hw⟩

theorem within_header (r : Reference) (k : Nat) {i n : Nat} (h : i + n ≤ linkSize) : (Span.mk (r + i) n).Within (freeSpan r k) :=
  Span.within_rest (Nat.le_trans h (Nat.le_max_right _ _))

/-- Writing to a list of free extents stays inside. -/
theorem inside_relinked {h₁ h₂ : FreeSpaceHeap} {ws : List Span} (hlist : h₁.Relinked k l ws h₂)
    (hoffset : h₁.offset = t.heap.offset) (hk : k + 8 ≤ t.pageSize) (hl : ∀ a ∈ l, a ∈ free k) (hws : ∀ w ∈ ws, Inside t free w)
    (h₁w : ∀ w ∈ h₁.writes, Inside t free w) : ∀ w ∈ h₂.writes, Inside t free w := by
  intro w hw
  rcases hlist.writes w hw with hw | hw | rfl | ⟨a, ha, rfl⟩
  · exact h₁w w hw
  · exact hws w hw
  · exact .inl ⟨k, hk, by rw [hoffset]⟩
  · exact .inr ⟨k, a, hl a ha, within_header a k (by decide)⟩

theorem Inv.head (h : Inv t extents free) (hk : free k = r :: l) : t.heap.freeSpace k = r := by
  have hlinked := h.lists.linked k
  rw [hk] at hlinked
  exact hlinked.head.1

/-- The head of a list is in no list when it is taken out. -/
theorem Inv.head_out (h : Inv t extents free) (hk : free k = r :: l) : ∀ k', ∀ a ∈ Function.update free k l k', a ∈ free k' ∧ a ≠ r := by
  have hlinked := h.lists.linked k
  rw [hk] at hlinked
  have hmem := (List.nodup_cons.mp hlinked.nodup).1
  intro k' a ha
  rcases mem_update ha with ⟨rfl, hin⟩ | ⟨hne, hin⟩
  · exact ⟨hk ▸ List.mem_cons_of_mem _ hin, fun heq => hmem (heq ▸ hin)⟩
  · refine ⟨hin, fun heq => hne ?_⟩
    exact h.lists.unique hin (heq ▸ hk ▸ List.mem_cons_self)

/-- The span of the head of a list is unused when it is taken out. -/
theorem Inv.unused_head (h : Inv t extents free) (hk : free k = r :: l) :
    Unused (Function.update free k l) extents (freeSpan r k) := by
  have hr : r ∈ free k := hk ▸ List.mem_cons_self
  refine ⟨h.placed.mixed k r hr, fun k' a ha => ?_⟩
  obtain ⟨hin, hne⟩ := h.head_out hk k' a ha
  exact h.placed.freeApart k r hr k' a hin hne.symm

theorem inside_setMeta {h₁ : FreeSpaceHeap} (hr : Inside t free ⟨r, metaSize⟩) (h₁w : ∀ w ∈ h₁.writes, Inside t free w)
    (lk : FreeSpaceLink) : ∀ w ∈ (h₁.setMeta r lk).writes, Inside t free w := by
  intro w hw
  rcases List.mem_cons.mp hw with rfl | hw
  · exact hr
  · exact h₁w w hw

theorem inside_meta (hr : r ∈ free k) : Inside t free ⟨r, metaSize⟩ := .inr ⟨k, r, hr, within_header r k (by decide : 0 + 4 ≤ linkSize)⟩

theorem setMeta_link (h : FreeSpaceHeap) (r a : Reference) (lk : FreeSpaceLink) :
    (h.setMeta r lk).link a = if a = r then lk else h.link a := Function.update_apply ..

/-- The whole of the first extent of a list is handed out. -/
theorem Inv.took_whole (h : Inv t extents free) (hk : free k = r :: l) (hm : m ≤ k) (hlt : k < m + linkSize) {h₁ : FreeSpaceHeap}
    (hlists : h₁.Lists (Function.update free k l)) (hoffset : h₁.offset = t.heap.offset)
    (hwrites : ∀ w ∈ h₁.writes, Inside t free w) (lk : FreeSpaceLink) :
    Took t extents free m { reference := r + metaSize, size := k } { t with heap := h₁.setMeta r lk } (Function.update free k l) := by
  have hr : r ∈ free k := hk ▸ List.mem_cons_self
  have hout := h.head_out hk
  have hin : InData t.alloc (freeSpan r k) := h.placed.freeIn k r hr
  have hwithin : (Span.mk r k).Within (freeSpan r k) := Span.within_first (Nat.le_max_left _ _)
  refine ⟨.whole hk hm hlt rfl, rfl, ?_, hm, fun w hw => ?_⟩
  · rw [extent_mk]
    refine ⟨h.partitioned, h.pages, ?_, ?_, h.total, hlists.setLink (fun k' hmem => (hout k' r hmem).2 rfl) _ _,
      (h.placed.sub fun k' a ha => (hout k' a ha).1).insert ((h.unused_head hk).within hwithin) (hin.within hwithin), fun k' hne => ?_⟩
    · change h₁.offset ∈ t.alloc.live
      exact hoffset ▸ h.offset
    · change t.alloc.file.getBlock h₁.offset ≠ _
      exact hoffset ▸ h.notData
    · obtain ⟨a, ha⟩ := List.exists_mem_of_ne_nil _ hne
      exact h.limit k' (List.ne_nil_of_mem (hout k' a ha).1)
  · exact (h.written (inside_setMeta (inside_meta hr) hwrites lk w hw)).congr rfl hoffset

theorem Inv.takeExact (h : Inv t extents free) (hwrites : t.heap.writes = []) (hk : free m = r :: l) :
    ∃ f t' free', t.takeExact m = (some f, t') ∧ Took t extents free m f t' free' := by
  obtain ⟨h₁, hrun, hlists, hlist, hsizes⟩ := h.lists.unlink hk
  have hr : r ∈ free m := hk ▸ List.mem_cons_self
  have hsize := h.size_le hr
  have hinside : ∀ w ∈ h₁.writes, Inside t free w :=
    inside_relinked hlist rfl (by omega) (fun a ha => hk ▸ List.mem_cons_of_mem _ ha) (fun w hw => by cases hw)
      fun w hw => by rw [hwrites] at hw; cases hw
  refine ⟨_, _, _, ?_, h.took_whole hk le_rfl (Nat.lt_add_of_pos_right (by decide)) hlists hlist.offset hinside
    { h₁.link r with size := m, allocated := true }⟩
  rw [BlockFreeSpace.takeExact, h.head hk, hrun]

/-- The rest of an extent is no header of a free extent. -/
theorem Unused.not_mem {x : Span} (h : Unused free extents x) (ha : x.Covers r) : r ∉ free k := by
  intro hr
  have hspan : (freeSpan r k).Covers r :=
    ⟨le_rfl, Nat.lt_add_of_pos_right (Nat.lt_of_lt_of_le (by decide : 0 < linkSize) (Nat.le_max_right _ _))⟩
  exact (h.ofFree k r hr).not_covers ha hspan

/-- The first extent of a list is broken in two. -/
theorem Inv.took_split (h : Inv t extents free) (hk : free k = r :: l) (hm : 8 ∣ m ∧ 8 ≤ m) (hle : m + linkSize ≤ k)
    {h₁ : FreeSpaceHeap} (hlists : h₁.Lists (Function.update free k l)) (hoffset : h₁.offset = t.heap.offset)
    (hwrites : ∀ w ∈ h₁.writes, Inside t free w) (lk : FreeSpaceLink) :
    ∃ h₂, ((h₁.setMeta (r + m) { h₁.link (r + m) with size := k - m, allocated := false }).setMeta r lk).linkSpace (r + m) (r + m) = some h₂ ∧
      ∀ lk', Took t extents free m { reference := r + metaSize, size := m } { t with heap := h₂.setMeta r lk' }
        (Function.update (Function.update free k l) (k - m) ((r + m) :: Function.update free k l (k - m))) := by
  have hr : r ∈ free k := hk ▸ List.mem_cons_self
  have hout := h.head_out hk
  have hunused := h.unused_head hk
  have hin : InData t.alloc (freeSpan r k) := h.placed.freeIn k r hr
  have hsize := h.size_le hr
  have hkind := h.lists.sizes k (List.ne_nil_of_mem hr)
  have h24 : linkSize = 24 := rfl
  have hmax : max k linkSize = k := Nat.max_eq_left (by omega)
  have hmaxRest : max (k - m) linkSize = k - m := Nat.max_eq_left (by omega)
  have hfirst : (Span.mk r m).Within (freeSpan r k) := Span.within_first (by omega)
  have hrest : (freeSpan (r + m) (k - m)).Within (freeSpan r k) := by
    rw [freeSpan, freeSpan, hmax, hmaxRest]
    exact Span.within_rest (by omega)
  have hcover : (freeSpan r k).Covers (r + m) := by
    refine ⟨Nat.le_add_right _ _, ?_⟩
    rw [freeSpan, hmax]
    have hlt : m < k := by omega
    exact Nat.add_lt_add_left hlt r
  have hnotRest : ∀ k', r + m ∉ Function.update free k l k' := fun k' => Unused.not_mem hunused hcover
  have hnotHead : ∀ k', r ∉ Function.update free k l k' := fun k' hmem => (hout k' r hmem).2 rfl
  have hpos : 0 < m := Nat.lt_of_lt_of_le (by decide) hm.2
  have hne : r + m ≠ r := Nat.ne_of_gt (Nat.lt_add_of_pos_right hpos)
  have hmeta := (hlists.setLink hnotRest { h₁.link (r + m) with size := k - m, allocated := false } ⟨r + m, metaSize⟩).setLink
    hnotHead lk ⟨r, metaSize⟩
  have hlink : (((h₁.setMeta (r + m) { h₁.link (r + m) with size := k - m, allocated := false }).setMeta r lk).link (r + m)).size =
      k - m := by
    rw [setMeta_link, if_neg hne, setMeta_link, if_pos rfl]
  have hnull : r + m ≠ nullFileAddr := Nat.ne_of_gt (Nat.lt_of_lt_of_le hpos (Nat.le_add_left _ _))
  obtain ⟨h₂, hrun, hlists₂, hlist₂, -⟩ := hmeta.link hnotRest hnull hlink ⟨(Nat.dvd_sub hkind.1 hm.1), by omega⟩
  refine ⟨h₂, hrun, fun lk' => ⟨.split hk hle rfl, rfl, ?_, le_rfl, ?_⟩⟩
  · rw [extent_mk]
    have hplaced : Arranged t.alloc (Function.update free k l) (⟨r, m⟩ :: extents) :=
      (h.placed.sub fun k' a ha => (hout k' a ha).1).insert (hunused.within hfirst) (hin.within hfirst)
    have hapart : (freeSpan (r + m) (k - m)).Apart ⟨r, m⟩ := (Span.apart_first_rest r m _).symm
    have hnotHead₂ : ∀ k', r ∉ Function.update (Function.update free k l) (k - m) ((r + m) :: Function.update free k l (k - m)) k' := by
      intro k' hmem
      rcases mem_update hmem with ⟨-, hin⟩ | ⟨-, hin⟩
      · rcases List.mem_cons.mp hin with heq | hin
        · exact hne heq.symm
        · exact hnotHead _ hin
      · exact hnotHead _ hin
    refine ⟨h.partitioned, h.pages, ?_, ?_, h.total, hlists₂.setLink hnotHead₂ _ _,
      hplaced.push ((hunused.within hrest).cons hapart) (hin.within hrest), fun k' hne => ?_⟩
    · change h₂.offset ∈ t.alloc.live
      rw [hlist₂.offset]
      exact hoffset ▸ h.offset
    · change t.alloc.file.getBlock h₂.offset ≠ _
      rw [hlist₂.offset]
      exact hoffset ▸ h.notData
    · have hlimit := h.limit k (List.ne_nil_of_mem hr)
      obtain ⟨a, ha⟩ := List.exists_mem_of_ne_nil _ hne
      rcases mem_update ha with ⟨rfl, -⟩ | ⟨-, ha⟩
      · omega
      · exact h.limit k' (List.ne_nil_of_mem (hout k' a ha).1)
  · have hrestInside : ∀ n, n ≤ linkSize → Inside t free ⟨r + m, n⟩ := fun n hn => by
      refine .inr ⟨k, r, hr, Span.Within.trans ?_ hrest⟩
      exact Span.within_first (Nat.le_trans hn (Nat.le_max_right _ _))
    have hinside : ∀ w ∈ (h₂.setMeta r lk').writes, Inside t free w := by
      refine inside_setMeta (inside_meta hr) (inside_relinked hlist₂ hoffset (by omega) (fun a ha => (hout _ a ha).1) (fun w hw => ?_)
        (inside_setMeta (inside_meta hr) (inside_setMeta (hrestInside _ (by decide)) hwrites _) _)) _
      rw [List.mem_singleton.mp hw]
      exact hrestInside _ le_rfl
    exact fun w hw => (h.written (hinside w hw)).congr rfl (hlist₂.offset.trans hoffset)

theorem Inv.takeLarger (h : Inv t extents free) (hwrites : t.heap.writes = []) (hk : free k = r :: l) (hm : 8 ∣ m ∧ 8 ≤ m)
    (hlt : m < k) : ∃ f t' free', t.takeLarger m k = (some f, t') ∧ Took t extents free m f t' free' := by
  obtain ⟨h₁, hrun, hlists, hlist, hsizes⟩ := h.lists.unlink hk
  have hr : r ∈ free k := hk ▸ List.mem_cons_self
  have hsize := h.size_le hr
  have hlimit := h.limit k (List.ne_nil_of_mem hr)
  have hinside : ∀ w ∈ h₁.writes, Inside t free w :=
    inside_relinked hlist rfl (by omega) (fun a ha => hk ▸ List.mem_cons_of_mem _ ha) (fun w hw => by cases hw)
      fun w hw => by rw [hwrites] at hw; cases hw
  have hlink : (h₁.link r).size = k := (hsizes r).trans (h.lists.size k r hr)
  have hremaining : (k + 2 ^ 32 - m) % 2 ^ 32 = k - m := by
    simp only [spaceLimit] at hlimit
    omega
  unfold BlockFreeSpace.takeLarger
  simp only [h.head hk, hrun, hlink, hremaining]
  by_cases hroom : linkSize ≤ k - m
  · rw [if_pos hroom, Nat.mod_eq_of_lt (Nat.lt_of_le_of_lt (Nat.sub_le _ _) hlimit)]
    obtain ⟨h₂, hrun₂, htook⟩ := h.took_split hk hm (by omega) hlists hlist.offset hinside
      { (h₁.setMeta (r + m) { h₁.link (r + m) with size := k - m, allocated := false }).link r with size := m }
    rw [hrun₂]
    exact ⟨_, _, _, rfl, htook _⟩
  · rw [if_neg hroom]
    exact ⟨_, _, _, rfl, h.took_whole hk hlt.le (by omega) hlists hlist.offset hinside _⟩

/-! ### A new block -/

/-- The free extents and the ones that are handed out stay when a `DATA` block is made. -/
theorem Inv.grow (h : Inv t extents free) {p : Reference} (hp : Allocation.HandedOut t.alloc .data p) :
    Inv { t with alloc := t.alloc.step (.allocate .data) } extents free := by
  have hlive : (t.alloc.step (.allocate .data)).live = insert p t.alloc.live := by
    rw [Allocation.step_allocate, hp.returned, Option.elim_some]
  have hpageSize : (t.alloc.step (.allocate .data)).file.pageSize = t.alloc.file.pageSize := hp.pageSize
  refine ⟨h.partitioned.allocate h.pages rfl, Allocation.step_pages_ne_nil h.partitioned h.pages _, ?_, ?_, ?_, h.lists, ?_, h.limit⟩
  · exact hlive ▸ Finset.mem_insert_of_mem h.offset
  · intro hblock
    exact h.notData ((hp.others _ h.offset).symm.trans hblock)
  · have htotal := h.total
    rw [pageSize] at htotal ⊢
    exact hpageSize.symm ▸ htotal
  · exact ⟨h.placed.extentsApart, h.placed.mixed, h.placed.freeApart, fun e he => InData.step hp (h.placed.extentsIn e he),
      fun k r hr => InData.step hp (h.placed.freeIn k r hr)⟩

/-- The data of a new block. -/
theorem Inv.new_data (h : Inv t extents free) {p : Reference} (hp : Allocation.HandedOut t.alloc .data p) :
    IsData (t.alloc.step (.allocate .data)) p ∧ InData (t.alloc.step (.allocate .data)) ⟨p + 8, t.pageSize - 8⟩ ∧
      Unused free extents ⟨p + 8, t.pageSize - 8⟩ := by
  have hlive : p ∈ (t.alloc.step (.allocate .data)).live := by
    rw [Allocation.step_allocate, hp.returned]
    exact Finset.mem_insert_self _ _
  have hpageSize : (t.alloc.step (.allocate .data)).file.pageSize = t.pageSize := hp.pageSize
  have hdata : IsData (t.alloc.step (.allocate .data)) p := ⟨hlive, hp.block⟩
  have hpage : (Span.mk (p + 8) (t.pageSize - 8)).Within ⟨p, t.pageSize⟩ := within_page h.pageSize_ge
  have hapart (x : Span) (hx : InData t.alloc x) : (Span.mk (p + 8) (t.pageSize - 8)).Apart x := by
    obtain ⟨q, hq, hin⟩ := InData.page hx h.pageSize_ge
    have hne : p ≠ q := fun heq => hp.notLive (heq ▸ hq.1)
    have hpages := apart_of_pages (h.grow hp).partitioned hlive (IsData.step hp hq).1 hne
    rw [hpageSize] at hpages
    exact ((hpages.within hpage).symm.within hin).symm
  refine ⟨hdata, ⟨p, hdata, ?_⟩, fun e he => hapart e (h.placed.extentsIn e he), fun k r hr => hapart _ (h.placed.freeIn k r hr)⟩
  rw [hpageSize]
  exact Span.Within.refl _

/-- The new block holds nothing else. -/
theorem Inv.took_full (h : Inv t extents free) (hwrites : t.heap.writes = []) {p : Reference}
    (hp : Allocation.HandedOut t.alloc .data p) (hm : 8 ≤ m) (htotal : t.totalSpace = m) (lk : FreeSpaceLink) :
    Took t extents free m { reference := p + (t.pageSize - t.totalSpace) + metaSize, size := m }
      { t with alloc := t.alloc.step (.allocate .data), heap := t.heap.setMeta (p + (t.pageSize - t.totalSpace)) lk } free := by
  obtain ⟨hdata, hin, hunused⟩ := h.new_data hp
  have hspace := h.total.2
  have hwithin : (Span.mk (p + (t.pageSize - t.totalSpace)) m).Within ⟨p + 8, t.pageSize - 8⟩ := by
    refine ⟨?_, ?_⟩
    · exact Nat.add_le_add_left (by omega) p
    · simp only [Span.stop]
      rw [Nat.add_assoc, Nat.add_assoc]
      exact Nat.add_le_add_left (by omega) p
  have hgrow := h.grow hp
  have hpos : 0 < m := by omega
  have hcovers : (Span.mk (p + 8) (t.pageSize - 8)).Covers (p + (t.pageSize - t.totalSpace)) :=
    hwithin.covers ⟨le_rfl, Nat.lt_add_of_pos_right hpos⟩
  refine ⟨.full hp htotal rfl, rfl, ?_, le_rfl, fun w hw => ?_⟩
  · rw [extent_mk]
    exact ⟨hgrow.partitioned, hgrow.pages, hgrow.offset, hgrow.notData, hgrow.total,
      h.lists.setLink (fun k => Unused.not_mem hunused hcovers) _ _,
      hgrow.placed.insert (hunused.within hwithin) (hin.within hwithin), h.limit⟩
  · have hw' : w = ⟨p + (t.pageSize - t.totalSpace), metaSize⟩ := by
      rcases List.mem_cons.mp hw with rfl | hw
      · rfl
      · rw [hwrites] at hw
        cases hw
    have hpageSize : (t.alloc.step (.allocate .data)).file.pageSize = t.pageSize := hp.pageSize
    refine written_of_unused ?_ (hunused.within hwithin) (hin.within hwithin) (hw' ▸ Span.within_first (by rw [metaSize]; omega))
    rw [pageSize, hpageSize]
    exact h.pageSize_ge

/-- What is behind the extent that is handed out is written to. -/
def takeRest (t : BlockFreeSpace) (p : Reference) (m : Nat) : FreeSpaceHeap :=
  t.heap.setMeta (p + (t.pageSize - t.totalSpace) + m) { size := (t.totalSpace - m) % spaceLimit }

theorem takeNew_eq {p : Reference} (hp : Allocation.HandedOut t.alloc .data p) : t.takeNew m =
    if metaSize ≤ t.totalSpace - m then
      match (t.takeRest p m).linkSpace (p + (t.pageSize - t.totalSpace) + m) (p + (t.pageSize - t.totalSpace) + m) with
      | none => (none, { t with alloc := t.alloc.step (.allocate .data), heap := t.takeRest p m })
      | some h => (some { reference := p + (t.pageSize - t.totalSpace) + metaSize, size := m },
          { t with
            alloc := t.alloc.step (.allocate .data)
            heap := h.setMeta (p + (t.pageSize - t.totalSpace)) { size := t.totalSpace - (t.totalSpace - m), allocated := true } })
    else (some { reference := p + (t.pageSize - t.totalSpace) + metaSize, size := m },
      { t with
        alloc := t.alloc.step (.allocate .data)
        heap := t.heap.setMeta (p + (t.pageSize - t.totalSpace)) { size := t.totalSpace % spaceLimit, allocated := true } }) := by
  have hpageSize : (t.alloc.step (.allocate .data)).file.pageSize = t.pageSize := hp.pageSize
  unfold takeNew
  rw [hp.returned]
  simp only [pageSize, hpageSize]
  rfl

/-- Where the extents of a new block start. -/
theorem Inv.within_new (h : Inv t extents free) (p : Reference) :
    (Span.mk (p + (t.pageSize - t.totalSpace)) t.totalSpace).Within ⟨p + 8, t.pageSize - 8⟩ := by
  have hspace := h.total.2
  refine ⟨Nat.add_le_add_left (by omega) p, ?_⟩
  simp only [Span.stop]
  rw [Nat.add_assoc, Nat.add_assoc]
  exact Nat.add_le_add_left (by omega) p

theorem covers_rest {r total : Nat} (hm : m < total) : (Span.mk r total).Covers (r + m) :=
  ⟨Nat.le_add_right _ _, Nat.add_lt_add_left hm r⟩

/-- A new block whose rest is not listed yet. -/
def withRest (t : BlockFreeSpace) (p : Reference) (m : Nat) : BlockFreeSpace :=
  { t with alloc := t.alloc.step (.allocate .data), heap := t.takeRest p m }

theorem withRest_pageSize {p : Reference} (hp : Allocation.HandedOut t.alloc .data p) : (t.withRest p m).pageSize = t.pageSize :=
  hp.pageSize

theorem Inv.withRest (h : Inv t extents free) {p : Reference} (hp : Allocation.HandedOut t.alloc .data p) (hm : m < t.totalSpace) :
    Inv (t.withRest p m) extents free := by
  obtain ⟨-, -, hunused⟩ := h.new_data hp
  have hgrow := h.grow hp
  have hcovers := (h.within_new p).covers (covers_rest hm)
  exact ⟨hgrow.partitioned, hgrow.pages, hgrow.offset, hgrow.notData, hgrow.total,
    h.lists.setLink (fun k => Unused.not_mem hunused hcovers) _ _, hgrow.placed, h.limit⟩

/-- The new block may be written to. -/
theorem Inv.written_new (h : Inv t extents free) {p : Reference} (hp : Allocation.HandedOut t.alloc .data p)
    (hw : w.Within ⟨p + (t.pageSize - t.totalSpace), t.totalSpace⟩) : Written (t.withRest p m) extents w := by
  obtain ⟨-, hin, hunused⟩ := h.new_data hp
  have hwithin := h.within_new p
  refine written_of_unused ?_ (hunused.within hwithin) (InData.within hin hwithin) hw
  rw [withRest_pageSize hp]
  exact h.pageSize_ge

theorem Inv.written_rest (h : Inv t extents free) (hwrites : t.heap.writes = []) {p : Reference}
    (hp : Allocation.HandedOut t.alloc .data p) (hm : m + metaSize ≤ t.totalSpace) (hw : w ∈ (t.takeRest p m).writes) :
    Written (t.withRest p m) extents w := by
  rcases List.mem_cons.mp hw with rfl | hw
  · exact h.written_new hp (Span.within_rest hm)
  · rw [hwrites] at hw
    cases hw

/-- The new block is broken in two: the rest has room for a header. -/
theorem Inv.took_rest (h : Inv t extents free) (hwrites : t.heap.writes = []) {p : Reference}
    (hp : Allocation.HandedOut t.alloc .data p) (hm : 8 ∣ m ∧ 8 ≤ m) (hle : m + linkSize ≤ t.totalSpace)
    (hk : k = (t.totalSpace - m) % spaceLimit) (hne : k ≠ 0) :
    ∃ h₂, (t.takeRest p m).linkSpace (p + (t.pageSize - t.totalSpace) + m) (p + (t.pageSize - t.totalSpace) + m) = some h₂ ∧
      ∀ lk, Took t extents free m { reference := p + (t.pageSize - t.totalSpace) + metaSize, size := m }
        { t with alloc := t.alloc.step (.allocate .data), heap := h₂.setMeta (p + (t.pageSize - t.totalSpace)) lk }
        (Function.update free k ((p + (t.pageSize - t.totalSpace) + m) :: free k)) := by
  have h24 : linkSize = 24 := rfl
  have h4 : metaSize = 4 := rfl
  obtain ⟨hdata, hin, hunused⟩ := h.new_data hp
  have hlost := h.withRest hp (m := m) (by omega)
  have hwithin := h.within_new p
  have hkind : 8 ∣ k ∧ 8 ≤ k := by
    have h8 := h.total.1
    simp only [spaceLimit] at hk
    omega
  have hlimit : k < spaceLimit := hk ▸ Nat.mod_lt _ (by decide)
  have hkle : k ≤ t.totalSpace - m := hk ▸ Nat.mod_le _ _
  generalize hr : p + (t.pageSize - t.totalSpace) = r at *
  have hpageSize : (t.alloc.step (.allocate .data)).file.pageSize = t.pageSize := hp.pageSize
  have hpos : 0 < m := by omega
  have htotal : 0 < t.totalSpace := by omega
  have hfirst : (Span.mk r m).Within ⟨r, t.totalSpace⟩ := Span.within_first (by omega)
  have hspan : (freeSpan (r + m) k).Within ⟨r, t.totalSpace⟩ := Span.within_rest (by omega)
  have hcovers : (Span.mk (p + 8) (t.pageSize - 8)).Covers (r + m) := hwithin.covers (covers_rest (by omega))
  have hhead : (Span.mk (p + 8) (t.pageSize - 8)).Covers r := hwithin.covers ⟨le_rfl, Nat.lt_add_of_pos_right htotal⟩
  have hnull : r + m ≠ nullFileAddr := Nat.ne_of_gt (Nat.lt_of_lt_of_le hpos (Nat.le_add_left _ _))
  have hsize : ((t.takeRest p m).link (r + m)).size = k := by
    rw [takeRest, hr, setMeta_link, if_pos rfl, hk]
  obtain ⟨h₂, hrun, hlists, hlist, -⟩ := hlost.lists.link (fun _ => Unused.not_mem hunused hcovers) hnull hsize hkind
  have hne₂ : r ≠ r + m := Nat.ne_of_lt (Nat.lt_add_of_pos_right hpos)
  have hnot : ∀ k', r ∉ Function.update free k ((r + m) :: free k) k' := by
    intro k' hmem
    rcases mem_update hmem with ⟨-, hmem⟩ | ⟨-, hmem⟩
    · rcases List.mem_cons.mp hmem with heq | hmem
      · exact hne₂ heq
      · exact Unused.not_mem hunused hhead hmem
    · exact Unused.not_mem hunused hhead hmem
  refine ⟨h₂, hrun, fun lk => ⟨hr ▸ .rest hp hle hk hne rfl, rfl, ?_, le_rfl, ?_⟩⟩
  · rw [extent_mk]
    have hplaced := hlost.placed.insert (hunused.within (hfirst.trans hwithin)) (hin.within (hfirst.trans hwithin))
    have hapart : (freeSpan (r + m) k).Apart ⟨r, m⟩ := (Span.apart_first_rest r m _).symm
    refine ⟨hlost.partitioned, hlost.pages, ?_, ?_, hlost.total, hlists.setLink hnot _ _,
      hplaced.push ((hunused.within (hspan.trans hwithin)).cons hapart) (hin.within (hspan.trans hwithin)), fun k' hne => ?_⟩
    · change h₂.offset ∈ _
      rw [hlist.offset]
      exact hlost.offset
    · change (t.alloc.step (.allocate .data)).file.getBlock h₂.offset ≠ _
      rw [hlist.offset]
      exact hlost.notData
    · obtain ⟨a, ha⟩ := List.exists_mem_of_ne_nil _ hne
      rcases mem_update ha with ⟨rfl, -⟩ | ⟨-, ha⟩
      · exact hlimit
      · exact h.limit k' (List.ne_nil_of_mem ha)
  · have hall : ∀ w ∈ (h₂.setMeta r lk).writes, Written (t.withRest p m) extents w := by
      intro w hw
      rcases List.mem_cons.mp hw with rfl | hw
      · exact h.written_new hp (hr ▸ Span.within_first (by omega))
      · rcases hlist.writes w hw with hw | hw | rfl | ⟨a, ha, rfl⟩
        · exact h.written_rest hwrites hp (by omega) hw
        · rw [List.mem_singleton.mp hw]
          exact h.written_new hp (hr ▸ Span.within_rest hle)
        · refine hlost.written (.inl ⟨k, ?_, rfl⟩)
          rw [withRest_pageSize hp]
          have hspace := h.total.2
          omega
        · exact hlost.written (.inr ⟨k, a, ha, within_header a k (by decide : 16 + 8 ≤ linkSize)⟩)
    exact fun w hw => (hall w hw).congr rfl hlist.offset

/-- The header of what is left in a new block is 24 bytes long. -/
theorem linkSpace_writes {h h₂ : FreeSpaceHeap} {a : Reference} (hrun : h.linkSpace a r = some h₂) :
    h₂.offset = h.offset ∧ ⟨r, linkSize⟩ ∈ h₂.writes := by
  rw [FreeSpaceHeap.linkSpace, Option.map_eq_some_iff] at hrun
  obtain ⟨d, -, rfl⟩ := hrun
  dsimp only
  split
  · exact ⟨rfl, List.mem_cons_of_mem _ List.mem_cons_self⟩
  · exact ⟨rfl, List.mem_cons_of_mem _ (List.mem_cons_of_mem _ List.mem_cons_self)⟩

/-- The header of the rest would end behind its page. -/
theorem Inv.not_written (h : Inv t extents free) {p : Reference} (hp : Allocation.HandedOut t.alloc .data p) (hm : m < t.totalSpace)
    (hlt : t.totalSpace < m + linkSize) : ¬ Written (t.withRest p m) extents ⟨p + (t.pageSize - t.totalSpace) + m, linkSize⟩ := by
  rintro ⟨⟨q, hq, -, hwithin⟩, -⟩
  obtain ⟨hdata, -, -⟩ := h.new_data hp
  have hspace := h.total.2
  have hcovers : (Span.mk p t.pageSize).Covers (p + (t.pageSize - t.totalSpace) + m) := by
    have hlt : t.pageSize - t.totalSpace + m < t.pageSize := by omega
    refine ⟨?_, ?_⟩
    · rw [Nat.add_assoc]
      exact Nat.le_add_right _ _
    · rw [Nat.add_assoc]
      exact Nat.add_lt_add_left hlt p
  have hcovers' : (Span.mk q t.pageSize).Covers (p + (t.pageSize - t.totalSpace) + m) := by
    rw [withRest_pageSize hp] at hwithin
    exact hwithin.covers ⟨le_rfl, Nat.lt_add_of_pos_right (by decide : 0 < linkSize)⟩
  by_cases heq : q = p
  · subst heq
    have hstop := hwithin.2
    rw [withRest_pageSize hp] at hstop
    simp only [Span.stop, Nat.add_assoc] at hstop
    have hle := Nat.le_of_add_le_add_left hstop
    omega
  · have hpages := apart_of_pages (h.grow hp).partitioned hq hdata.1 heq
    rw [show (t.alloc.step (.allocate .data)).file.pageSize = t.pageSize from hp.pageSize] at hpages
    exact hpages.not_covers hcovers' hcovers

/-! ### A call -/

/-- The size is not refused. -/
def Admitted (t : BlockFreeSpace) (m : Nat) : Prop := freeSpaceOffset ≤ m ∧ m ≤ t.totalSpace ∧ m < spaceLimit

instance (t : BlockFreeSpace) (m : Nat) : Decidable (t.Admitted m) := inferInstanceAs (Decidable (_ ∧ _))

/-- A new `DATA` block is made. -/
def Grows (t : BlockFreeSpace) (m : Nat) : Prop := t.findSpace m = none ∧ (t.alloc.file.allocateNewBlock .data).1 ≠ none

instance (t : BlockFreeSpace) (m : Nat) : Decidable (t.Grows m) := inferInstanceAs (Decidable (_ ∧ _))

/-- There is an extent to hand out: the rest of a new block has a size of 24 bits, which must not be 0. -/
def Served (t : BlockFreeSpace) (m : Nat) : Prop :=
  t.findSpace m ≠ none ∨ t.Grows m ∧ (t.totalSpace = m ∨ (t.totalSpace - m) % spaceLimit ≠ 0)

instance (t : BlockFreeSpace) (m : Nat) : Decidable (t.Served m) := inferInstanceAs (Decidable (_ ∨ _))

/-- No bytes are written yet. -/
def clear (t : BlockFreeSpace) : BlockFreeSpace := { t with heap := { t.heap with writes := [] } }

theorem Inv.clear (h : Inv t extents free) : Inv t.clear extents free :=
  ⟨h.partitioned, h.pages, h.offset, h.notData, h.total, ⟨h.lists.linked, h.lists.size, h.lists.first, h.lists.sizes⟩, h.placed,
    h.limit⟩

theorem getFreeSpace_refused {n : UInt32} (h : ¬ t.Admitted (sizeWithMeta n)) : t.getFreeSpace n = (none, t.clear) := by
  unfold Admitted at h
  unfold getFreeSpace
  simp only
  rw [if_pos (by omega)]
  rfl

theorem getFreeSpace_admitted {n : UInt32} (h : t.Admitted (sizeWithMeta n)) : t.getFreeSpace n =
    (t.findSpace (sizeWithMeta n)).elim (t.clear.takeNew (sizeWithMeta n)) fun d =>
      if d = sizeWithMeta n then t.clear.takeExact (sizeWithMeta n) else t.clear.takeLarger (sizeWithMeta n) d := by
  unfold Admitted at h
  unfold getFreeSpace
  simp only
  rw [if_neg (by omega)]
  change (match t.findSpace (sizeWithMeta n) with | none => _ | some d => _) = _
  cases t.findSpace (sizeWithMeta n) <;> rfl

theorem sizeWithMeta_dvd (n : UInt32) : 8 ∣ sizeWithMeta n := by
  unfold sizeWithMeta roundUp
  simp only [referenceSize]
  omega

/-- A list that is found is not empty, and its extents are large enough. -/
theorem Inv.findSpace (h : Inv t extents free) {d : Nat} (hfound : t.findSpace m = some d) :
    m ≤ d ∧ ∃ r l, free d = r :: l := by
  have hcons {d : Nat} (hd : t.heap.freeSpace d ≠ nullFileAddr) : ∃ r l, free d = r :: l := by
    obtain ⟨_, l, -, -, heq⟩ := (h.lists.linked d).eq_cons hd
    exact ⟨_, l, heq⟩
  unfold BlockFreeSpace.findSpace at hfound
  split at hfound
  · rename_i hexact
    obtain rfl := Option.some.inj hfound
    exact ⟨le_rfl, hcons hexact⟩
  · have hne := List.find?_some hfound
    have hmem := List.mem_of_find?_eq_some hfound
    simp only [largerSizes, List.mem_map] at hmem
    obtain ⟨i, -, rfl⟩ := hmem
    refine ⟨?_, hcons (by simpa using hne)⟩
    split <;> omega

/-- An extent of a list is handed out. -/
theorem Inv.getFreeSpace_found (h : Inv t extents free) {n : UInt32} (hm : t.Admitted (sizeWithMeta n))
    (hfound : t.findSpace (sizeWithMeta n) ≠ none) : ∃ f t' free', t.getFreeSpace n = (some f, t') ∧
      Took t.clear extents free (sizeWithMeta n) f t' free' := by
  obtain ⟨d, hd⟩ := Option.ne_none_iff_exists'.mp hfound
  obtain ⟨hle, r, l, hk⟩ := h.findSpace hd
  rw [getFreeSpace_admitted hm, hd, Option.elim_some]
  split
  · rename_i heq
    rw [heq] at hk
    exact h.clear.takeExact rfl hk
  · rename_i hne
    exact h.clear.takeLarger rfl hk ⟨sizeWithMeta_dvd n, hm.1⟩ (by omega)

/-- There is room for the header of what is left in the new block. -/
def Room (t : BlockFreeSpace) (m : Nat) : Prop := t.totalSpace = m ∨ m + linkSize ≤ t.totalSpace

/-- A call that makes a new block and finds room. -/
theorem Inv.getFreeSpace_grown (h : Inv t extents free) {n : UInt32} (hm : t.Admitted (sizeWithMeta n))
    (hgrows : t.Grows (sizeWithMeta n)) (hroom : t.Room (sizeWithMeta n)) :
    (t.totalSpace = sizeWithMeta n ∨ (t.totalSpace - sizeWithMeta n) % spaceLimit ≠ 0) ∧ (∃ f t' free',
      t.getFreeSpace n = (some f, t') ∧ Took t.clear extents free (sizeWithMeta n) f t' free') ∨
    ∃ p, Allocation.HandedOut t.alloc .data p ∧ t.getFreeSpace n = (none, t.clear.withRest p (sizeWithMeta n)) ∧
      sizeWithMeta n + linkSize ≤ t.totalSpace ∧ (t.totalSpace - sizeWithMeta n) % spaceLimit = 0 := by
  obtain ⟨hfound, hblock⟩ := hgrows
  obtain ⟨p, hp, -⟩ := (h.partitioned.allocate_cases h.pages rfl).resolve_right fun hnone => hblock hnone.1
  have h24 : linkSize = 24 := rfl
  rw [getFreeSpace_admitted hm, hfound, Option.elim_none, takeNew_eq (t := t.clear) hp]
  rcases hroom with heq | hle
  · left
    rw [if_neg (by change ¬ metaSize ≤ t.totalSpace - _; rw [heq, Nat.sub_self]; decide)]
    exact ⟨.inl heq, _, _, _, rfl, h.clear.took_full rfl hp hm.1 heq _⟩
  · rw [if_pos (by change metaSize ≤ t.totalSpace - _; rw [metaSize]; omega)]
    by_cases hzero : (t.totalSpace - sizeWithMeta n) % spaceLimit = 0
    · refine .inr ⟨p, hp, ?_, hle, hzero⟩
      have hsize : ((t.clear.takeRest p (sizeWithMeta n)).link (p + (t.clear.pageSize - t.clear.totalSpace) + sizeWithMeta n)).size = 0 := by
        rw [takeRest, setMeta_link, if_pos rfl]
        exact hzero
      rw [FreeSpaceHeap.linkSpace, hsize]
      rfl
    · left
      obtain ⟨h₂, hrun, htook⟩ := h.clear.took_rest rfl hp ⟨sizeWithMeta_dvd n, hm.1⟩ hle rfl hzero
      rw [hrun]
      exact ⟨.inr hzero, _, _, _, rfl, htook _⟩

/-- Without room, the header of the rest is written behind the page. -/
theorem Inv.getFreeSpace_overrun (h : Inv t extents free) {n : UInt32} (hm : t.Admitted (sizeWithMeta n))
    (hgrows : t.Grows (sizeWithMeta n)) (hroom : ¬ t.Room (sizeWithMeta n)) :
    ∃ w ∈ (t.getFreeSpace n).2.heap.writes, ¬ Written (t.getFreeSpace n).2 extents w := by
  obtain ⟨hfound, hblock⟩ := hgrows
  obtain ⟨p, hp, -⟩ := (h.partitioned.allocate_cases h.pages rfl).resolve_right fun hnone => hblock hnone.1
  obtain ⟨hne, hlt⟩ := not_or.mp hroom
  have hlt := Nat.lt_of_not_le hlt
  obtain ⟨hmin, hmax, hlimit⟩ := hm
  have hdvd := Nat.dvd_sub h.total.1 (sizeWithMeta_dvd n)
  have h24 : linkSize = 24 := rfl
  have hrest : t.totalSpace - sizeWithMeta n < 24 := by omega
  have hsize : ((t.clear.takeRest p (sizeWithMeta n)).link (p + (t.clear.pageSize - t.clear.totalSpace) + sizeWithMeta n)).size =
      t.totalSpace - sizeWithMeta n := by
    rw [takeRest, setMeta_link, if_pos rfl]
    exact Nat.mod_eq_of_lt (Nat.lt_trans hrest (by decide))
  obtain ⟨h₂, hrun⟩ : ∃ h₂, (t.clear.takeRest p (sizeWithMeta n)).linkSpace
      (p + (t.clear.pageSize - t.clear.totalSpace) + sizeWithMeta n)
      (p + (t.clear.pageSize - t.clear.totalSpace) + sizeWithMeta n) = some h₂ := by
    rw [FreeSpaceHeap.linkSpace, hsize, FreeSpaceHeap.getFreeSpacePointer_eq hdvd (by omega)]
    exact ⟨_, rfl⟩
  obtain ⟨hoffset, hmem⟩ := linkSpace_writes hrun
  rw [getFreeSpace_admitted ⟨hmin, hmax, hlimit⟩, hfound, Option.elim_none, takeNew_eq (t := t.clear) hp,
    if_pos (by change metaSize ≤ t.totalSpace - _; rw [metaSize]; omega), hrun]
  refine ⟨_, List.mem_cons_of_mem _ hmem, fun hwritten => ?_⟩
  exact h.clear.not_written hp (Nat.lt_of_le_of_ne hmax (Ne.symm hne)) hlt (hwritten.congr rfl hoffset.symm)

/-- No block can be made. -/
theorem getFreeSpace_none {n : UInt32} (hm : t.Admitted (sizeWithMeta n)) (hfound : t.findSpace (sizeWithMeta n) = none)
    (hblock : (t.alloc.file.allocateNewBlock .data).1 = none) : t.getFreeSpace n = (none, t.clear) := by
  rw [getFreeSpace_admitted hm, hfound, Option.elim_none]
  unfold takeNew
  rw [show (t.clear.alloc.file.allocateNewBlock .data).1 = none from hblock]

/-- What a call comes to when there is room for the header of what is left in a new block. -/
theorem Inv.getFreeSpace (h : Inv t extents free) (n : UInt32)
    (hroom : t.Admitted (sizeWithMeta n) → t.Grows (sizeWithMeta n) → t.Room (sizeWithMeta n)) :
    (¬ (t.Admitted (sizeWithMeta n) ∧ t.Served (sizeWithMeta n)) ∧ ∃ t', t.getFreeSpace n = (none, t') ∧ Inv t' extents free ∧
      ∀ w ∈ t'.heap.writes, Written t' extents w) ∨
    (t.Admitted (sizeWithMeta n) ∧ t.Served (sizeWithMeta n)) ∧ ∃ f t' free', t.getFreeSpace n = (some f, t') ∧
      Took t.clear extents free (sizeWithMeta n) f t' free' := by
  have hclear : Inv t.clear extents free ∧ ∀ w ∈ t.clear.heap.writes, Written t.clear extents w :=
    ⟨h.clear, fun w hw => absurd hw List.not_mem_nil⟩
  by_cases hm : t.Admitted (sizeWithMeta n)
  · by_cases hfound : t.findSpace (sizeWithMeta n) = none
    · by_cases hblock : (t.alloc.file.allocateNewBlock .data).1 = none
      · refine .inl ⟨fun hserved => ?_, t.clear, ?_, hclear⟩
        · exact hserved.2.elim (absurd hfound) fun hgrows => hgrows.1.2 hblock
        · exact getFreeSpace_none hm hfound hblock
      · have hgrows : t.Grows (sizeWithMeta n) := ⟨hfound, hblock⟩
        rcases h.getFreeSpace_grown hm hgrows (hroom hm hgrows) with ⟨hserved, htook⟩ | ⟨p, hp, heq, hle, hzero⟩
        · exact .inr ⟨⟨hm, .inr ⟨hgrows, hserved⟩⟩, htook⟩
        · have hlt : sizeWithMeta n < t.totalSpace := Nat.lt_of_lt_of_le (Nat.lt_add_of_pos_right (by decide)) hle
          refine .inl ⟨fun hserved => ?_, _, heq, h.clear.withRest hp hlt, fun w hw => ?_⟩
          · rcases hserved.2 with hsome | ⟨-, hexact | hne⟩
            · exact hsome hfound
            · exact Nat.ne_of_gt hlt hexact
            · exact hne hzero
          · exact h.clear.written_rest rfl hp (Nat.le_trans (Nat.add_le_add_left (by decide) _) hle) hw
    · exact .inr ⟨⟨hm, .inl hfound⟩, h.getFreeSpace_found hm hfound⟩
  · exact .inl ⟨fun hserved => hm hserved.1, t.clear, getFreeSpace_refused hm, hclear⟩

end BlockFreeSpace

/-! ### Runs -/

/-- The free space of a table and the extents that were handed out. -/
structure Spaces where
  table : BlockFreeSpace
  extents : List Span

namespace Spaces
open BlockFreeSpace

/-- One call of `get_free_space()`. -/
def step (s : Spaces) (n : UInt32) : Spaces :=
  { table := (s.table.getFreeSpace n).2
    extents := (s.table.getFreeSpace n).1.elim s.extents fun f => f.extent :: s.extents }

/-- What a call must do. The size is asked for without the meta data. -/
structure Sound (s : Spaces) (n : UInt32) : Prop where
  size : ∀ f, (s.table.getFreeSpace n).1 = some f → n.toNat + metaSize ≤ f.size
  apart : (s.step n).extents.Pairwise Span.Apart
  inData : ∀ e ∈ (s.step n).extents, InData (s.step n).table.alloc e
  writes : ∀ w ∈ (s.step n).table.heap.writes, Written (s.step n).table s.extents w

/-- The size does not wrap around with the meta data, and what is left in a new block has room for a header. -/
def Fits (s : Spaces) (n : UInt32) : Prop :=
  s.table.Admitted (sizeWithMeta n) → (s.table.Served (sizeWithMeta n) → n.toNat + metaSize < 2 ^ 32) ∧
    (s.table.Grows (sizeWithMeta n) → s.table.Room (sizeWithMeta n))

/-- The `FSPC` block was just created. -/
structure Fresh (s : Spaces) : Prop where
  partitioned : Allocation.Partitioned s.table.alloc
  pages : s.table.alloc.file.pages ≠ []
  offset : s.table.heap.offset ∈ s.table.alloc.live
  block : s.table.alloc.file.getBlock s.table.heap.offset = some (.used .freeSpace)
  freeSpace : ∀ k, s.table.heap.freeSpace k = nullFileAddr
  total : 8 ∣ s.table.totalSpace ∧ s.table.totalSpace + 8 ≤ s.table.pageSize
  extents : s.extents = []

variable {s : Spaces} {n : UInt32} {free : Nat → List Reference}

theorem Fresh.inv (h : Fresh s) : Inv s.table s.extents fun _ => [] := by
  have hnil (k : Nat) (r : Reference) (hr : r ∈ ([] : List Reference)) : False := by cases hr
  refine ⟨h.partitioned, h.pages, h.offset, ?_, h.total, ⟨fun k => ?_, fun k r hr => (hnil k r hr).elim,
    fun k hk => absurd (h.freeSpace k) hk, fun k hk => absurd rfl hk⟩, ?_, fun k hk => absurd rfl hk⟩
  · rw [h.block]
    simp
  · rw [h.freeSpace]
    exact .nil
  · rw [h.extents]
    exact ⟨.nil, fun k r hr => (hnil k r hr).elim, fun k r hr => (hnil k r hr).elim, fun e he => absurd he List.not_mem_nil,
      fun k r hr => (hnil k r hr).elim⟩

/-- The sizes that wrap around are the last three that 32 bits have. -/
theorem sizeWithMeta_wraps (h : s.table.Admitted (sizeWithMeta n)) :
    n.toNat + metaSize < 2 ^ 32 ∧ n.toNat + metaSize ≤ sizeWithMeta n ∨ 2 ^ 32 < n.toNat + metaSize ∧ sizeWithMeta n = 8 := by
  have hlt := n.toNat_lt
  obtain ⟨hmin, -, hlimit⟩ := h
  revert hmin hlimit
  unfold sizeWithMeta roundUp
  simp only [referenceSize, metaSize, spaceLimit, freeSpaceOffset]
  omega

theorem step_some {f : FreeSpaceT} {t : BlockFreeSpace} (h : s.table.getFreeSpace n = (some f, t)) :
    s.step n = { table := t, extents := f.extent :: s.extents } := by
  rw [step, h]
  rfl

theorem step_none {t : BlockFreeSpace} (h : s.table.getFreeSpace n = (none, t)) :
    s.step n = { table := t, extents := s.extents } := by
  rw [step, h]
  rfl

theorem took_size {t t' : BlockFreeSpace} {extents : List Span} {free' : Nat → List Reference} {m : Nat} {f : FreeSpaceT}
    (h : Took t extents free m f t' free') : f.size < m + linkSize := by
  cases h.change with
  | whole _ _ hlt _ => exact hlt
  | split _ _ _ => exact Nat.lt_add_of_pos_right (by decide)
  | full _ _ _ => exact Nat.lt_add_of_pos_right (by decide)
  | rest _ _ _ _ _ => exact Nat.lt_add_of_pos_right (by decide)

/-- A call is sound exactly when it fits, and the free extents stay in order then. -/
theorem Inv.call (h : Inv s.table s.extents free) (n : UInt32) :
    (Sound s n ↔ Fits s n) ∧ (Fits s n → ∃ free', Inv (s.step n).table (s.step n).extents free') := by
  by_cases hroom : s.table.Admitted (sizeWithMeta n) → s.table.Grows (sizeWithMeta n) → s.table.Room (sizeWithMeta n)
  · rcases h.getFreeSpace n hroom with ⟨hserved, t, heq, hinv, hwrites⟩ | ⟨⟨hm, hserved⟩, f, t, free', heq, htook⟩
    · have hfits : Fits s n := fun hm => ⟨fun hs => absurd ⟨hm, hs⟩ hserved, hroom hm⟩
      have hstep := step_none heq
      refine ⟨iff_of_true ⟨fun f hf => ?_, ?_, ?_, ?_⟩ hfits, fun _ => ⟨free, ?_⟩⟩
      · rw [heq] at hf
        cases hf
      · rw [hstep]
        exact hinv.placed.extentsApart
      · rw [hstep]
        exact hinv.placed.extentsIn
      · rw [hstep]
        exact hwrites
      · rw [hstep]
        exact hinv
    · have hstep := step_some heq
      refine ⟨⟨fun hsound _ => ⟨fun _ => ?_, hroom hm⟩, fun hfits => ⟨fun f' hf' => ?_, ?_, ?_, ?_⟩⟩, fun _ => ⟨free', ?_⟩⟩
      · have hle := hsound.size f (by rw [heq])
        have hlt := took_size htook
        rcases sizeWithMeta_wraps hm with ⟨hsmall, -⟩ | ⟨hlarge, hmin⟩
        · exact hsmall
        · have h24 : linkSize = 24 := rfl
          omega
      · rw [heq] at hf'
        obtain rfl := Option.some.inj hf'
        have hsmall := (hfits hm).1 hserved
        rcases sizeWithMeta_wraps hm with ⟨-, hle⟩ | ⟨hlarge, -⟩
        · exact Nat.le_trans hle htook.size
        · exact absurd hlarge (Nat.not_lt.mpr hsmall.le)
      · rw [hstep]
        exact htook.inv.placed.extentsApart
      · rw [hstep]
        exact htook.inv.placed.extentsIn
      · rw [hstep]
        exact htook.writes
      · rw [hstep]
        exact htook.inv
  · have hm : s.table.Admitted (sizeWithMeta n) := by
      by_contra hm
      exact hroom fun h => absurd h hm
    have hgrows : s.table.Grows (sizeWithMeta n) := by
      by_contra hgrows
      exact hroom fun _ h => absurd h hgrows
    have hnot : ¬ Fits s n := fun hfits => hroom fun hm => (hfits hm).2
    obtain ⟨w, hw, hnotWritten⟩ := h.getFreeSpace_overrun hm hgrows fun hroom' => hroom fun _ _ => hroom'
    exact ⟨iff_of_false (fun hsound => hnotWritten (hsound.writes w hw)) hnot, fun hfits => absurd hfits hnot⟩

/-- A table whose `FSPC` block is new and whose total space was not computed for another table. -/
def new (a : Allocation) (offset : Reference) : Spaces where
  table :=
    { alloc := a
      heap := { offset, freeSpace := fun _ => nullFileAddr, link := fun _ => {}, writes := [] }
      totalSpace := totalSpaceAvailableInOneDataBlock a.file.pageSize }
  extents := []

theorem fresh_new {a : Allocation} {offset : Reference} (h : Allocation.Partitioned a) (hpages : a.file.pages ≠ [])
    (hlive : offset ∈ a.live) (hblock : a.file.getBlock offset = some (.used .freeSpace)) (hsize : headerSize ≤ a.file.pageSize) :
    Fresh (new a offset) := by
  refine ⟨h, hpages, hlive, hblock, fun _ => rfl, ?_, rfl⟩
  change 8 ∣ totalSpaceAvailableInOneDataBlock a.file.pageSize ∧ totalSpaceAvailableInOneDataBlock a.file.pageSize + 8 ≤ a.file.pageSize
  simp only [totalSpaceAvailableInOneDataBlock, blockTotalSpace, headerSize, referenceSize] at hsize ⊢
  omega

theorem Fresh.findSpace (h : Fresh s) (m : Nat) : s.table.findSpace m = none := by
  simp [BlockFreeSpace.findSpace, h.freeSpace]

theorem smallPage_pos : 0 < 4096 := Nat.succ_pos 4095

def firstSpace : Allocation := (Allocation.start 4096 smallPage_pos).step (.allocate .freeSpace)

theorem fresh_firstSpace : Fresh (new firstSpace 4096) :=
  fresh_new ((Allocation.partitioned_start 4096 smallPage_pos).allocate (Allocation.start_pages_ne_nil 4096 smallPage_pos) rfl)
    (by decide) (by decide) (by decide) (by decide)

/-- From a new `FSPC` block on, the extents that are handed out are apart, large enough and in the data of `DATA` blocks, and
    nothing is written to them, to other blocks or behind a page exactly when each call fits. -/
theorem sound_iff_fits (h : Fresh s) (ns : List UInt32) : Trace.Along step Sound s ns ↔ Trace.Along step Fits s ns :=
  (Trace.along_congr_of (I := fun s => ∃ free, Inv s.table s.extents free) ⟨_, h.inv⟩
    (fun _ n ⟨_, hinv⟩ hfits => (Inv.call hinv n).2 hfits) fun _ n ⟨_, hinv⟩ => (Inv.call hinv n).1.symm).symm

/-- A small extent is handed out. -/
theorem sound_iff_fits_small : Trace.Along step Sound (new firstSpace 4096) [100] :=
  (sound_iff_fits fresh_firstSpace [100]).mpr ⟨fun _ => ⟨fun _ => by decide, fun _ => .inr (by decide)⟩, trivial⟩

/-- A new block of 4096 bytes has 4088 bytes: after 4080 of them, the header of the rest does not fit. -/
theorem not_sound_small_rest : ¬ ∀ s, Fresh s → ∀ ns : List UInt32,
    Trace.Along step (fun s n => s.table.Admitted (sizeWithMeta n)) s ns → Trace.Along step Sound s ns := by
  intro hall
  have hm : (new firstSpace 4096).table.Admitted (sizeWithMeta 4076) := by decide
  have hsound := (hall _ fresh_firstSpace [4076] ⟨hm, trivial⟩).1
  have hfits := (Inv.call fresh_firstSpace.inv 4076).1.mp hsound
  have hroom := (hfits hm).2 ⟨fresh_firstSpace.findSpace _, by decide⟩
  exact absurd hroom (by unfold Room; decide)

end Spaces
end Snapwebsites.Snapdatabase
