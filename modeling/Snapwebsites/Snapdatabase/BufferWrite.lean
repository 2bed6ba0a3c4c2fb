import Snapwebsites.Snapdatabase.VirtualBuffer

/-! # Writing to a virtual buffer

`pread()` reads the content of the buffers, one behind the other. `pwrite()` replaces bytes of it when the blocks that it writes to
are there from their first byte on, and no byte of them stands at another place of the buffer: the offset of a buffer in its block is
left out of the address. -/

namespace Snapwebsites.Snapdatabase.Data

/-! ### What is shown -/

namespace Vbuf

/-- The bytes of a buffer are there. -/
def Sound (b : Vbuf) : Prop := b.block = none → b.size ≤ b.data.length

/-- The byte at a place of a buffer. -/
def byte (m : Memory) (b : Vbuf) (o : Nat) : UInt8 :=
  match b.block with
  | some r => m (r + b.offset + o)
  | none => b.data.getD o 0

end Vbuf

def sizes (l : List Vbuf) : Nat := (l.map Vbuf.size).sum

def content (m : Memory) (l : List Vbuf) : Bytes := l.flatMap fun b => b.read m 0 b.size

/-- The buffer that holds a byte, and the place of the byte in it. -/
def holder : List Vbuf → Nat → Option (Vbuf × Nat)
  | [], _ => none
  | b :: l, p => if p < b.size then some (b, p) else holder l (p - b.size)

/-- The address of a byte of a block. -/
def place (l : List Vbuf) (p : Nat) : Option Reference :=
  (holder l p).bind fun h => h.1.block.map fun r => r + h.1.offset + h.2

namespace VirtualBuffer

structure Sound (v : VirtualBuffer) : Prop where
  buffers : ∀ b ∈ v.buffers, b.Sound
  totalSize : v.totalSize = sizes v.buffers

/-- Whatever the blocks hold, and whatever is written, the bytes at the offset are replaced, and nothing else changes. -/
def Writes (v : VirtualBuffer) (offset n : Nat) : Prop :=
  ∀ (m : Memory) (s old : Bytes), s.length = n → v.pread m v.totalSize 0 true = some old →
    ∃ v' m', v.pwrite m s offset true = some (v', m') ∧
      v'.pread m' v'.totalSize 0 true = some (old.take offset ++ s ++ old.drop (offset + n)) ∧
      ∀ a, (∀ p, offset ≤ p → p < offset + n → place v.buffers p ≠ some a) → m' a = m a

structure Writable (v : VirtualBuffer) (offset n : Nat) : Prop where
  /-- A block that is written to is there from its first byte on. -/
  straight : ∀ p, offset ≤ p → p < offset + n → ∀ h, holder v.buffers p = some h → h.1.block ≠ none → h.1.offset = 0
  /-- A byte of a block that is written stands at one place. -/
  apart : ∀ p, offset ≤ p → p < offset + n → ∀ a, place v.buffers p = some a → ∀ q, place v.buffers q = some a → q = p

end VirtualBuffer

/-! ### The content -/

section Content
variable {m : Memory} {b : Vbuf} {l l' : List Vbuf} {o n p : Nat}

theorem sizes_cons (b : Vbuf) (l : List Vbuf) : sizes (b :: l) = b.size + sizes l := by simp [sizes]

theorem content_cons (m : Memory) (b : Vbuf) (l : List Vbuf) : content m (b :: l) = b.read m 0 b.size ++ content m l := List.flatMap_cons

theorem content_append (m : Memory) (l l' : List Vbuf) : content m (l ++ l') = content m l ++ content m l' := List.flatMap_append

theorem Vbuf.read_eq (h : b.Sound) (hn : o + n ≤ b.size) : b.read m o n = (List.range n).map fun i => b.byte m (o + i) := by
  unfold Vbuf.read Vbuf.byte
  cases hblock : b.block with
  | some r =>
    refine List.map_congr_left fun i _ => ?_
    simp [Nat.add_assoc]
  | none =>
    have hlength := h hblock
    refine List.ext_getElem (by simp; omega) fun i hi hi' => ?_
    simp at hi hi'
    simp [List.getD_eq_getElem?_getD, List.getElem?_eq_getElem (by omega : o + i < b.data.length)]

theorem Vbuf.length_read (h : b.Sound) (hn : o + n ≤ b.size) : (b.read m o n).length = n := by
  rw [Vbuf.read_eq h hn, List.length_map, List.length_range]

theorem Vbuf.read_read (h : b.Sound) (hn : o + n ≤ b.size) : ((b.read m 0 b.size).drop o).take n = b.read m o n := by
  rw [Vbuf.read_eq h (by omega), Vbuf.read_eq h hn]
  refine List.ext_getElem (by simp; omega) fun i hi hi' => ?_
  simp

theorem length_content (h : ∀ b ∈ l, b.Sound) : (content m l).length = sizes l := by
  induction l with
  | nil => rfl
  | cons b l ih =>
    obtain ⟨hb, hl⟩ := List.forall_mem_cons.mp h
    rw [content_cons, List.length_append, ih hl, Vbuf.length_read hb (by omega), sizes_cons]

theorem getElem?_content (h : ∀ b ∈ l, b.Sound) : (content m l)[p]? = (holder l p).map fun h => h.1.byte m h.2 := by
  induction l generalizing p with
  | nil => rfl
  | cons b l ih =>
    obtain ⟨hb, hl⟩ := List.forall_mem_cons.mp h
    have hlength := Vbuf.length_read (m := m) hb (by omega : 0 + b.size ≤ b.size)
    rw [content_cons, holder]
    split
    · rename_i hp
      rw [List.getElem?_append_left (by omega), Vbuf.read_eq hb (by omega)]
      simp [hp]
    · rw [List.getElem?_append_right (by omega), hlength, ih hl]

/-- The loop of `pread()` goes over the content. -/
theorem preadFrom_eq (h : ∀ b ∈ l, b.Sound) (hn : o + n ≤ sizes l) : VirtualBuffer.preadFrom m l n o = ((content m l).drop o).take n := by
  induction l generalizing o n with
  | nil =>
    simp [VirtualBuffer.preadFrom, content]
  | cons b l ih =>
    obtain ⟨hb, hl⟩ := List.forall_mem_cons.mp h
    have hlength := Vbuf.length_read (m := m) hb (by omega : 0 + b.size ≤ b.size)
    rw [sizes_cons] at hn
    rw [VirtualBuffer.preadFrom, content_cons]
    split
    · rename_i ho
      have hnil : (b.read m 0 b.size).drop o = [] := List.drop_of_length_le (by omega)
      rw [ih hl (by omega), List.drop_append, hlength, hnil, List.nil_append]
    · rename_i ho
      have hdrop : ((b.read m 0 b.size).drop o).length = b.size - o := by rw [List.length_drop, hlength]
      rw [List.drop_append_of_le_length (by omega)]
      dsimp only
      by_cases hn' : n > b.size - o
      · have hall : b.read m o (b.size - o) = (b.read m 0 b.size).drop o := by
          rw [← Vbuf.read_read hb (by omega), List.take_of_length_le (by omega)]
        have htake : ((b.read m 0 b.size).drop o).take n = (b.read m 0 b.size).drop o := List.take_of_length_le (by omega)
        rw [if_pos hn', if_neg (by omega), ih hl (by omega), List.take_append, hdrop, hall, htake, List.drop_zero]
      · rw [if_neg hn', if_pos (Nat.sub_self n), List.append_nil, List.take_append_of_le_length (by omega), Vbuf.read_read hb (by omega)]

theorem VirtualBuffer.pread_eq {v : VirtualBuffer} (h : v.Sound) : v.pread m v.totalSize 0 true = some (content m v.buffers) := by
  have hlength := length_content (m := m) h.buffers
  unfold VirtualBuffer.pread VirtualBuffer.isDataAvailable
  rw [h.totalSize]
  by_cases hzero : sizes v.buffers = 0
  · rw [if_pos hzero, List.length_eq_zero_iff.mp (hlength.trans hzero)]
  · rw [if_neg hzero, if_neg (by simp), preadFrom_eq h.buffers (by omega), List.drop_zero, List.take_of_length_le (by omega)]

end Content

/-! ### The loop of `pwrite()` -/

/-- The address that `pwrite()` takes for a byte of a block. -/
def used (l : List Vbuf) (p : Nat) : Option Reference := (holder l p).bind fun h => h.1.block.map fun r => r + h.2

/-- The byte at a place, when it is one of a buffer's own. -/
def ownByte (l : List Vbuf) (p : Nat) : Option UInt8 :=
  (holder l p).bind fun h => if h.1.block = none then some (h.1.data.getD h.2 0) else none

section Write
variable {m : Memory} {b b' : Vbuf} {l l' : List Vbuf} {s : Bytes} {o n p : Nat}

theorem holder_here (h : p < b.size) : holder (b :: l) p = some (b, p) := if_pos h

theorem holder_behind (h : b.size ≤ p) : holder (b :: l) p = holder l (p - b.size) := if_neg (not_lt.mpr h)

theorem holder_lt {h : Vbuf × Nat} (hp : holder l p = some h) : p < sizes l := by
  induction l generalizing p with
  | nil => cases hp
  | cons b l ih =>
    rw [sizes_cons]
    rcases Nat.lt_or_ge p b.size with hin | hout
    · exact Nat.lt_add_right _ hin
    · rw [holder_behind hout] at hp
      exact (Nat.sub_lt_iff_lt_add' hout).mp (ih hp)

theorem holder_eq_none (h : sizes l ≤ p) : holder l p = none :=
  Option.eq_none_iff_forall_ne_some.mpr fun _ hp => Nat.not_lt.mpr h (holder_lt hp)

theorem place_lt {a : Reference} (h : place l p = some a) : p < sizes l := by
  obtain ⟨_, hp, -⟩ := Option.bind_eq_some_iff.mp h
  exact holder_lt hp

theorem getElem?_content_cases (h : ∀ b ∈ l, b.Sound) :
    (content m l)[p]? = (place l p).elim (ownByte l p) fun a => some (m a) := by
  rw [getElem?_content h, place, ownByte]
  cases holder l p with
  | none => rfl
  | some h =>
    obtain ⟨b, o⟩ := h
    simp only [Option.map_some, Option.bind_some, Vbuf.byte]
    cases b.block <;> simp

/-- The bytes of a list, one by one. -/
def values (s : Bytes) (i : Nat) : Source Reference UInt8 := .value (s.getD i 0)

theorem copyTo_eq (r : Reference) (s : Bytes) (m : Memory) :
    m.copyTo r s = Copy.memory m (values s) (fun i => some (r + i)) s.length := by
  funext a
  have hdest : ∀ {i a : Nat}, some (r + i) = some a → r + i = a := fun h => Option.some.inj h
  by_cases ha : r ≤ a ∧ a < r + s.length
  · obtain ⟨i, rfl⟩ := Nat.exists_eq_add_of_le ha.1
    have hcell : Copy.memory m (values s) (fun i => some (r + i)) s.length (r + i) = s.getD i 0 :=
      Copy.memory_of_unique (Nat.lt_of_add_lt_add_left ha.2) rfl fun j _ hj => Nat.add_left_cancel (hdest hj)
    rw [hcell]
    simp [Memory.copyTo, ha.2]
  · have hcell : Copy.memory m (values s) (fun i => some (r + i)) s.length a = m a :=
      Copy.memory_of_not_dest fun i hi heq => by
        obtain rfl := hdest heq
        exact ha ⟨Nat.le_add_right r i, Nat.add_lt_add_left hi r⟩
    rw [hcell]
    simp only [Memory.copyTo, ha, if_false]

/-- What one buffer gets of the bytes. -/
theorem Vbuf.write_memory (b : Vbuf) (o : Nat) (s : Bytes) (m : Memory) : (b.write o s m).2 =
    Copy.memory m (values s) (fun i => b.block.map fun r => r + (o + i)) s.length := by
  unfold Vbuf.write
  split
  · rename_i r hblock
    rw [hblock, copyTo_eq]
    simp [Nat.add_assoc]
  · rename_i hblock
    rw [hblock]
    exact (funext fun a => Copy.memory_of_not_dest fun i hi heq => by cases heq).symm

theorem Vbuf.write_fields (b : Vbuf) (o : Nat) (s : Bytes) (m : Memory) : (b.write o s m).1.block = b.block ∧
    (b.write o s m).1.offset = b.offset ∧ (b.write o s m).1.size = b.size := by
  unfold Vbuf.write
  split <;> exact ⟨rfl, rfl, rfl⟩

theorem length_memcpy {data : Bytes} (h : o + s.length ≤ data.length) : (memcpy data o s).length = data.length := by
  simp [memcpy]
  omega

theorem getElem?_memcpy {data : Bytes} (h : o ≤ data.length) (p : Nat) :
    (memcpy data o s)[p]? = if o ≤ p ∧ p < o + s.length then s[p - o]? else data[p]? := by
  have ho : (data.take o).length = o := by rw [List.length_take]; omega
  rw [memcpy, List.append_assoc]
  split
  · rw [List.getElem?_append_right (by omega), ho, List.getElem?_append_left (by omega)]
  · by_cases hlt : p < o
    · rw [List.getElem?_append_left (by omega), List.getElem?_take_of_lt hlt]
    · rw [List.getElem?_append_right (by omega), ho, List.getElem?_append_right (by omega), List.getElem?_drop]
      congr 1
      omega

theorem getD_memcpy {data : Bytes} (h : o ≤ data.length) (p : Nat) :
    (memcpy data o s).getD p 0 = if o ≤ p ∧ p < o + s.length then s.getD (p - o) 0 else data.getD p 0 := by
  simp only [List.getD_eq_getElem?_getD, getElem?_memcpy h]
  split <;> rfl

theorem Vbuf.write_sound (h : b.Sound) (hn : o + s.length ≤ b.size) : (b.write o s m).1.Sound := by
  unfold Vbuf.write
  split
  · exact h
  · rename_i hblock
    have hlength := h hblock
    intro _
    show b.size ≤ (memcpy b.data o s).length
    rw [length_memcpy (by omega)]
    exact hlength

/-- The loop keeps the buffers but for what they hold: the bytes of blocks are copied to the addresses that it takes for them, and the
other ones to their places. -/
structure Wrote (m : Memory) (l : List Vbuf) (s : Bytes) (o : Nat) (r : (List Vbuf × Memory) × Bytes) : Prop where
  sound : ∀ b ∈ r.1.1, b.Sound
  sizes : sizes r.1.1 = sizes l
  place : ∀ p, place r.1.1 p = place l p
  memory : r.1.2 = Copy.memory m (values s) (fun i => used l (o + i)) s.length
  own : ∀ p, ownByte r.1.1 p = (ownByte l p).map fun x => if o ≤ p ∧ p < o + s.length then s.getD (p - o) 0 else x
  rest : r.2 = s.drop (Data.sizes l - o)

theorem place_here (h : p < b.size) : place (b :: l) p = b.block.map fun r => r + b.offset + p := by rw [place, holder_here h]; rfl

theorem place_behind (h : b.size ≤ p) : place (b :: l) p = place l (p - b.size) := by rw [place, holder_behind h]; rfl

theorem used_here (h : p < b.size) : used (b :: l) p = b.block.map fun r => r + p := by rw [used, holder_here h]; rfl

theorem used_behind (h : b.size ≤ p) : used (b :: l) p = used l (p - b.size) := by rw [used, holder_behind h]; rfl

theorem ownByte_here (h : p < b.size) : ownByte (b :: l) p = if b.block = none then some (b.data.getD p 0) else none := by
  rw [ownByte, holder_here h]
  rfl

theorem ownByte_behind (h : b.size ≤ p) : ownByte (b :: l) p = ownByte l (p - b.size) := by rw [ownByte, holder_behind h]; rfl

theorem Wrote.skip {r : (List Vbuf × Memory) × Bytes} (hb : b.Sound) (ho : b.size ≤ o) (h : Wrote m l s (o - b.size) r) :
    Wrote m (b :: l) s o ((b :: r.1.1, r.1.2), r.2) := by
  refine ⟨List.forall_mem_cons.mpr ⟨hb, h.sound⟩, by rw [sizes_cons, sizes_cons, h.sizes], fun p => ?_, ?_, fun p => ?_, ?_⟩
  · by_cases hp : p < b.size
    · rw [place_here hp, place_here hp]
    · rw [place_behind (by omega), place_behind (by omega), h.place]
  · rw [h.memory]
    refine Copy.memory_congr (fun _ _ => rfl) fun i _ => ?_
    rw [used_behind (by omega)]
    congr 1
    omega
  · by_cases hp : p < b.size
    · rw [ownByte_here hp, ownByte_here hp]
      have hout : ¬(o ≤ p ∧ p < o + s.length) := by omega
      simp [hout]
    · have hiff : (o - b.size ≤ p - b.size ∧ p - b.size < o - b.size + s.length) ↔ (o ≤ p ∧ p < o + s.length) := by omega
      have hsub : p - b.size - (o - b.size) = p - o := by omega
      rw [ownByte_behind (by omega), ownByte_behind (by omega), h.own]
      simp only [hiff, hsub]
  · rw [h.rest, sizes_cons]
    congr 1
    omega

/-- The part of the bytes that goes into one buffer, and the rest behind it. -/
theorem Wrote.inside {r : (List Vbuf × Memory) × Bytes} {k : Nat} (hb : b.Sound) (ho : o < b.size) (hk : k = min s.length (b.size - o))
    (h : Wrote (b.write o (s.take k) m).2 l (s.drop k) 0 r) :
    Wrote m (b :: l) s o (((b.write o (s.take k) m).1 :: r.1.1, r.1.2), r.2) := by
  obtain ⟨hblock, hoffset, hsize⟩ := b.write_fields o (s.take k) m
  have htake : (s.take k).length = k := by rw [List.length_take]; omega
  have hdrop : (s.drop k).length = s.length - k := List.length_drop
  refine ⟨List.forall_mem_cons.mpr ⟨b.write_sound hb (by omega), h.sound⟩, by rw [sizes_cons, sizes_cons, h.sizes, hsize],
    fun p => ?_, ?_, fun p => ?_, ?_⟩
  · by_cases hp : p < b.size
    · rw [place_here (hp.trans_eq hsize.symm), place_here hp, hblock, hoffset]
    · rw [place_behind (by omega), place_behind (by omega), h.place, hsize]
  · have hfirst : Copy.memory m (values (s.take k)) (fun i => b.block.map fun r => r + (o + i)) k =
        Copy.memory m (values s) (fun i => used (b :: l) (o + i)) k := by
      refine Copy.memory_congr (fun i hi => ?_) fun i hi => ?_
      · rw [values, values, List.getD_eq_getElem?_getD, List.getElem?_take_of_lt hi, List.getD_eq_getElem?_getD]
      · rw [used_here (by omega)]
    have hsum : s.length = k + (s.length - k) := by omega
    rw [h.memory, Vbuf.write_memory, htake, hdrop, hfirst]
    conv_rhs => rw [hsum, Copy.memory_add]
    refine Copy.memory_congr (fun i _ => ?_) fun i hi => ?_
    · rw [values, values, List.getD_eq_getElem?_getD, List.getElem?_drop, List.getD_eq_getElem?_getD]
    · rw [used_behind (by omega)]
      congr 1
      omega
  · by_cases hp : p < b.size
    · rw [ownByte_here (hp.trans_eq hsize.symm), ownByte_here hp, hblock]
      by_cases hown : b.block = none
      · have hlength := hb hown
        have hdata : (b.write o (s.take k) m).1.data = memcpy b.data o (s.take k) := by
          unfold Vbuf.write
          rw [hown]
        have hiff : (o ≤ p ∧ p < o + (s.take k).length) ↔ (o ≤ p ∧ p < o + s.length) := by omega
        rw [if_pos hown, if_pos hown, hdata, getD_memcpy (by omega), Option.map_some]
        simp only [hiff]
        congr 1
        refine ite_congr rfl (fun hin => ?_) fun _ => rfl
        rw [List.getD_eq_getElem?_getD, List.getElem?_take_of_lt (by omega), List.getD_eq_getElem?_getD]
      · rw [if_neg hown, if_neg hown, Option.map_none]
    · have hiff : (0 ≤ p - b.size ∧ p - b.size < 0 + (s.drop k).length) ↔ (o ≤ p ∧ p < o + s.length) := by omega
      rw [ownByte_behind (by omega), ownByte_behind (by omega), h.own, hsize]
      simp only [hiff]
      congr 1
      funext x
      refine ite_congr rfl (fun hin => ?_) fun _ => rfl
      rw [List.getD_eq_getElem?_getD, List.getElem?_drop, List.getD_eq_getElem?_getD]
      congr 2
      omega
  · rw [h.rest, sizes_cons, List.drop_drop]
    rcases Nat.lt_or_ge k s.length with hlt | hge
    · congr 1
      omega
    · rw [List.drop_of_length_le (by omega), List.drop_of_length_le (by omega)]

theorem wrote_nothing (h : ∀ b ∈ l, b.Sound) (m : Memory) (o : Nat) : Wrote m l [] o ((l, m), []) := by
  refine ⟨h, rfl, fun _ => rfl, rfl, fun p => ?_, List.drop_nil.symm⟩
  have hout : ¬(o ≤ p ∧ p < o + 0) := by omega
  simp only [List.length_nil, hout, if_false, Option.map_id']

theorem pwriteFrom_wrote (h : ∀ b ∈ l, b.Sound) : Wrote m l s o (VirtualBuffer.pwriteFrom l s o m) := by
  induction l generalizing s o m with
  | nil =>
    refine ⟨fun b hb => absurd hb List.not_mem_nil, rfl, fun _ => rfl, ?_, fun p => rfl, (congrArg s.drop (Nat.zero_sub o)).symm⟩
    exact (funext fun a => Copy.memory_of_not_dest fun i hi heq => by cases heq).symm
  | cons b l ih =>
    obtain ⟨hb, hl⟩ := List.forall_mem_cons.mp h
    rw [VirtualBuffer.pwriteFrom]
    dsimp only
    split
    · rename_i ho
      exact (ih hl).skip hb ho
    · rename_i ho
      by_cases hn : s.length > b.size - o
      · rw [if_pos hn, if_neg (by omega)]
        exact Wrote.inside (k := b.size - o) hb (by omega) (by omega) (ih hl)
      · rw [if_neg hn, if_pos (Nat.sub_self _)]
        have hrest : Wrote (b.write o (s.take s.length) m).2 l (s.drop s.length) 0 ((l, (b.write o (s.take s.length) m).2), []) := by
          rw [List.drop_length]
          exact wrote_nothing hl _ _
        exact hrest.inside hb (by omega) (by omega)

/-! ### Growth -/

theorem Vbuf.growLast_eq (hb : b.Sound) (m : Memory) (s : Bytes) : (VirtualBuffer.growLast b s).1.Sound ∧
    (VirtualBuffer.growLast b s).1.read m 0 (VirtualBuffer.growLast b s).1.size ++ (VirtualBuffer.growLast b s).2 =
      b.read m 0 b.size ++ s := by
  unfold VirtualBuffer.growLast
  split
  · rename_i hgrow
    obtain ⟨hown, hroom⟩ := hgrow
    have hlength := hb hown
    have hfront : (resize b.data (b.size + min (b.capacity - b.size) s.length)).take b.size = b.data.take b.size := by
      rw [resize, List.take_append_of_le_length (by rw [List.length_take]; omega), List.take_take]
      congr 1
      omega
    have hsize : (resize b.data (b.size + min (b.capacity - b.size) s.length)).length = b.size + min (b.capacity - b.size) s.length := by
      simp [resize]
      omega
    have htake : (s.take (min (b.capacity - b.size) s.length)).length = min (b.capacity - b.size) s.length := by
      rw [List.length_take]
      omega
    have hdata : memcpy (resize b.data (b.size + min (b.capacity - b.size) s.length)) b.size (s.take (min (b.capacity - b.size) s.length)) =
        b.data.take b.size ++ s.take (min (b.capacity - b.size) s.length) := by
      rw [memcpy, hfront, htake, List.drop_of_length_le (Nat.le_of_eq hsize), List.append_nil]
    dsimp only
    rw [hdata]
    have hall : (b.data.take b.size ++ s.take (min (b.capacity - b.size) s.length)).length =
        b.size + min (b.capacity - b.size) s.length := by
      rw [List.length_append, List.length_take, htake]
      omega
    refine ⟨fun _ => Nat.le_of_eq hall.symm, ?_⟩
    unfold Vbuf.read
    simp only [hown, List.drop_zero]
    rw [List.take_of_length_le (Nat.le_of_eq hall), List.append_assoc, List.take_append_drop]
  · exact ⟨hb, rfl⟩

theorem content_appendRest (h : ∀ b ∈ l, b.Sound) (m : Memory) (s : Bytes) :
    (∀ b ∈ VirtualBuffer.appendRest l s, b.Sound) ∧ content m (VirtualBuffer.appendRest l s) = content m l ++ s := by
  unfold VirtualBuffer.appendRest
  split
  · rename_i hs
    exact ⟨h, by rw [hs, List.append_nil]⟩
  · refine ⟨List.forall_mem_append.mpr ⟨h, fun b hb => ?_⟩, ?_⟩
    · rw [List.mem_singleton.mp hb]
      exact fun _ => Nat.le_refl _
    · simp [content, Vbuf.read]

theorem content_grow (h : ∀ b ∈ l, b.Sound) (m : Memory) (s : Bytes) :
    (∀ b ∈ VirtualBuffer.grow l s, b.Sound) ∧ content m (VirtualBuffer.grow l s) = content m l ++ s := by
  unfold VirtualBuffer.grow
  split
  · rename_i hs
    exact ⟨h, by rw [hs, List.append_nil]⟩
  · split
    · rename_i b hlast
      have hsplit : l = l.dropLast ++ [b] := (List.dropLast_append_getLast? b hlast).symm
      have hb := h b (List.mem_of_getLast? hlast)
      have hdrop : ∀ b ∈ l.dropLast, b.Sound := fun b hb => h b (List.mem_of_mem_dropLast hb)
      obtain ⟨hgrown, hread⟩ := Vbuf.growLast_eq hb m s
      obtain ⟨hsound, hcontent⟩ := content_appendRest (l := l.dropLast ++ [(VirtualBuffer.growLast b s).1])
        (List.forall_mem_append.mpr ⟨hdrop, fun b' hb' => by rw [List.mem_singleton.mp hb']; exact hgrown⟩) m (VirtualBuffer.growLast b s).2
      refine ⟨hsound, ?_⟩
      rw [hcontent]
      conv_rhs => rw [hsplit]
      rw [content_append, content_append, List.append_assoc, List.append_assoc]
      simp only [content, List.flatMap_cons, List.flatMap_nil, List.append_nil]
      rw [hread]
    · exact content_appendRest h m s

end Write

/-! ### The result -/

namespace VirtualBuffer

section
variable {v : VirtualBuffer} {m : Memory} {s : Bytes} {offset n p : Nat} {a : Reference}

/-- What `pwrite()` does when there is something to write. -/
theorem pwrite_eq (h : v.Sound) (hs : s ≠ []) (m : Memory) (offset : Nat) : ∃ v', v'.Sound ∧
    v.pwrite m s offset true = some (v', (pwriteFrom v.buffers s offset m).1.2) ∧
    ∀ m', content m' v'.buffers = content m' (pwriteFrom v.buffers s offset m).1.1 ++ s.drop (v.totalSize - offset) := by
  have hwrote : Wrote m v.buffers s offset (pwriteFrom v.buffers s offset m) := pwriteFrom_wrote h.buffers
  have hrest := hwrote.rest
  rw [← h.totalSize] at hrest
  refine ⟨{ buffers := grow (pwriteFrom v.buffers s offset m).1.1 (pwriteFrom v.buffers s offset m).2
            totalSize := v.totalSize + (pwriteFrom v.buffers s offset m).2.length
            modified := true }, ?_, ?_, fun m' => ?_⟩
  · obtain ⟨hsound, hcontent⟩ := content_grow hwrote.sound m (pwriteFrom v.buffers s offset m).2
    refine ⟨hsound, ?_⟩
    rw [← length_content (m := m) hsound, hcontent, List.length_append, length_content hwrote.sound, hwrote.sizes, h.totalSize]
  · rw [pwrite, if_neg hs, if_neg (by simp)]
  · rw [(content_grow hwrote.sound m' _).2, hrest]

theorem used_eq_place (h : ∀ h, holder v.buffers p = some h → h.1.block ≠ none → h.1.offset = 0) : used v.buffers p = place v.buffers p := by
  unfold used place
  cases hp : holder v.buffers p with
  | none => rfl
  | some b =>
    have hb := h b hp
    rw [Option.bind_some, Option.bind_some]
    cases hblock : b.1.block with
    | none => rfl
    | some r =>
      rw [hblock] at hb
      rw [hb nofun]
      rfl

/-- The content behind the loop, where the bytes of blocks are what the memory says. -/
theorem content_wrote (h : v.Sound) (ho : offset ≤ v.totalSize) (m m' : Memory) (s : Bytes)
    (hin : ∀ p a, place v.buffers p = some a → m' a = if offset ≤ p ∧ p < offset + s.length then s.getD (p - offset) 0 else m a) :
    content m' (pwriteFrom v.buffers s offset m).1.1 ++ s.drop (v.totalSize - offset) =
      (content m v.buffers).take offset ++ s ++ (content m v.buffers).drop (offset + s.length) := by
  have hwrote : Wrote m v.buffers s offset (pwriteFrom v.buffers s offset m) := pwriteFrom_wrote h.buffers
  have hlength := length_content (m := m) h.buffers
  have hlength' := length_content (m := m') hwrote.sound
  rw [hwrote.sizes, ← h.totalSize] at hlength'
  rw [← h.totalSize] at hlength
  have hbyte : ∀ p < v.totalSize, (content m' (pwriteFrom v.buffers s offset m).1.1)[p]? =
      if offset ≤ p ∧ p < offset + s.length then s[p - offset]? else (content m v.buffers)[p]? := fun p hp => by
    have hlt : p < (content m v.buffers).length := by omega
    have hget : (content m v.buffers)[p]? = some (content m v.buffers)[p] := List.getElem?_eq_getElem hlt
    have hs : offset ≤ p ∧ p < offset + s.length → s[p - offset]? = some (s.getD (p - offset) 0) := fun hp => by
      rw [List.getD_eq_getElem?_getD, List.getElem?_eq_getElem (by omega), Option.getD_some]
    rw [getElem?_content_cases h.buffers] at hget
    rw [getElem?_content_cases hwrote.sound, getElem?_content_cases h.buffers, hwrote.place, hwrote.own]
    cases hplace : place v.buffers p with
    | some a =>
      simp only [Option.elim_some, hin p a hplace]
      split
      · rename_i hrange
        rw [hs hrange]
      · rfl
    | none =>
      rw [hplace, Option.elim_none] at hget
      simp only [Option.elim_none, hget, Option.map_some]
      split
      · rename_i hrange
        rw [hs hrange]
      · rfl
  show _ = memcpy (content m v.buffers) offset s
  refine List.ext_getElem? fun p => ?_
  rw [getElem?_memcpy (by omega)]
  rcases Nat.lt_or_ge p v.totalSize with hp | hp
  · rw [List.getElem?_append_left (by omega), hbyte p hp]
  · have hindex : v.totalSize - offset + (p - v.totalSize) = p - offset := by omega
    rw [List.getElem?_append_right (by omega), hlength', List.getElem?_drop, hindex]
    split
    · rfl
    · rw [List.getElem?_eq_none (by omega), List.getElem?_eq_none (by omega)]

/-- The bytes of the blocks behind the loop. -/
theorem memory_pwriteFrom (h : v.Sound) (m : Memory) (s : Bytes) (offset : Nat) : (pwriteFrom v.buffers s offset m).1.2 =
    Copy.memory m (values s) (fun i => used v.buffers (offset + i)) s.length :=
  (show Wrote m v.buffers s offset (pwriteFrom v.buffers s offset m) from pwriteFrom_wrote h.buffers).memory

theorem Writable.used_eq (hw : v.Writable offset n) (hle : offset ≤ p) (hlt : p < offset + n) : used v.buffers p = place v.buffers p :=
  used_eq_place (hw.straight p hle hlt)

theorem Writable.memory_placed (h : v.Sound) (hw : v.Writable offset s.length) (m : Memory) (hp : place v.buffers p = some a) :
    (pwriteFrom v.buffers s offset m).1.2 a = if offset ≤ p ∧ p < offset + s.length then s.getD (p - offset) 0 else m a := by
  rw [memory_pwriteFrom h]
  split
  · rename_i hrange
    obtain ⟨i, rfl⟩ := Nat.exists_eq_add_of_le hrange.1
    have hi : i < s.length := Nat.lt_of_add_lt_add_left hrange.2
    rw [Nat.add_sub_cancel_left]
    refine Copy.memory_of_unique hi ((hw.used_eq hrange.1 hrange.2).trans hp) fun j hj hplace => ?_
    rw [hw.used_eq (Nat.le_add_right ..) (Nat.add_lt_add_left hj _)] at hplace
    exact Nat.add_left_cancel (hw.apart _ hrange.1 hrange.2 a hp _ hplace)
  · rename_i hrange
    refine Copy.memory_of_not_dest fun i hi hplace => hrange ?_
    rw [hw.used_eq (Nat.le_add_right ..) (Nat.add_lt_add_left hi _)] at hplace
    rw [hw.apart _ (Nat.le_add_right ..) (Nat.add_lt_add_left hi _) a hplace p hp]
    exact ⟨Nat.le_add_right .., Nat.add_lt_add_left hi _⟩

theorem Writable.writes (h : v.Sound) (ho : offset ≤ v.totalSize) (hw : v.Writable offset n) : v.Writes offset n := by
  intro m s old hn hread
  subst hn
  rw [pread_eq h] at hread
  obtain rfl := Option.some.inj hread
  by_cases hs : s = []
  · subst hs
    refine ⟨v, m, if_pos rfl, ?_, fun _ _ => rfl⟩
    rw [pread_eq h, List.append_nil, List.length_nil, Nat.add_zero, List.take_append_drop]
  · obtain ⟨v', hsound, hwrite, hcontent⟩ := pwrite_eq h hs m offset
    refine ⟨v', _, hwrite, ?_, fun a ha => ?_⟩
    · rw [pread_eq hsound, hcontent, content_wrote h ho m _ s fun p a hp => hw.memory_placed h m hp]
    · rw [memory_pwriteFrom h]
      refine Copy.memory_of_not_dest fun i hi hplace => ha (offset + i) (Nat.le_add_right ..) (Nat.add_lt_add_left hi _) ?_
      rwa [← hw.used_eq (Nat.le_add_right ..) (Nat.add_lt_add_left hi _)]

/-- What is read back. -/
theorem Writes.byte (h : v.Sound) (ho : offset ≤ v.totalSize) (hw : v.Writes offset s.length) (hs : s ≠ []) (hp : place v.buffers p = some a) :
    (pwriteFrom v.buffers s offset m).1.2 a = if offset ≤ p ∧ p < offset + s.length then s.getD (p - offset) 0 else m a := by
  have hwrote : Wrote m v.buffers s offset (pwriteFrom v.buffers s offset m) := pwriteFrom_wrote h.buffers
  have hlt : p < v.totalSize := h.totalSize ▸ place_lt hp
  have hlength := length_content (m := m) h.buffers
  obtain ⟨v', m', hwrite, hread, -⟩ := hw m s _ rfl (pread_eq h)
  obtain ⟨w, hsound, hpwrite, hcontent⟩ := pwrite_eq h hs m offset
  rw [hwrite] at hpwrite
  obtain ⟨rfl, rfl⟩ := Prod.mk.inj (Option.some.inj hpwrite)
  rw [pread_eq hsound, hcontent] at hread
  have hget := congrArg (·[p]?) (Option.some.inj hread)
  change _ = (memcpy (content m v.buffers) offset s)[p]? at hget
  rw [← h.totalSize] at hlength
  rw [getElem?_memcpy (by omega), List.getElem?_append_left (by rw [length_content hwrote.sound, hwrote.sizes, ← h.totalSize]; exact hlt),
    getElem?_content_cases hwrote.sound, getElem?_content_cases h.buffers, hwrote.place, hp, Option.elim_some, Option.elim_some] at hget
  split at hget
  · rename_i hrange
    rw [if_pos hrange, List.getD_eq_getElem?_getD, ← hget, Option.getD_some]
  · rename_i hrange
    rw [if_neg hrange]
    exact Option.some.inj hget

/-- The bytes that are written to find one of them: all but one are zero. -/
def mark (n i : Nat) : Bytes := (List.range n).map fun j => if j = i then 1 else 0

theorem length_mark (n i : Nat) : (mark n i).length = n := by simp [mark]

theorem getD_mark {i j : Nat} (h : j < n) : (mark n i).getD j 0 = if j = i then 1 else 0 := by
  simp [mark, h]

/-- The one that is written at a place is found at no other place. -/
theorem Writes.marked (h : v.Sound) (ho : offset ≤ v.totalSize) (hw : v.Writes offset n) {i : Nat} (hi : i < n) (hp : place v.buffers p = some a) :
    Copy.memory (fun _ => 0) (values (mark n i)) (fun j => used v.buffers (offset + j)) n a = if p = offset + i then 1 else 0 := by
  have hlength := length_mark n i
  have hne : mark n i ≠ [] := List.ne_nil_of_length_pos (by omega)
  have hback := Writes.byte (m := fun _ => 0) h ho (by rwa [hlength]) hne hp
  rw [memory_pwriteFrom h, hlength] at hback
  rw [hback]
  split
  · rename_i hrange
    rw [getD_mark (by omega)]
    exact if_congr (by omega) rfl rfl
  · rename_i hrange
    rw [if_neg (by omega)]

/-- So it was written to the address of its place. -/
theorem Writes.used_eq (h : v.Sound) (ho : offset ≤ v.totalSize) (hw : v.Writes offset n) {i : Nat} (hi : i < n)
    (hp : place v.buffers (offset + i) = some a) : used v.buffers (offset + i) = some a := by
  have hone := hw.marked h ho hi hp
  rw [if_pos rfl] at hone
  obtain hzero | ⟨j, hj, hused, hcopied⟩ :=
    Copy.memory_cases (fun _ => 0) (values (mark n i)) (fun j => used v.buffers (offset + j)) n a
  · rw [hzero] at hone
    cases hone
  · rw [hone] at hcopied
    change 1 = (mark n i).getD j 0 at hcopied
    rw [getD_mark hj] at hcopied
    split at hcopied
    · rename_i heq
      rwa [← heq]
    · cases hcopied

theorem Writes.writable (h : v.Sound) (ho : offset ≤ v.totalSize) (hw : v.Writes offset n) : v.Writable offset n := by
  constructor
  · intro p hle hlt b hb hblock
    obtain ⟨i, rfl⟩ := Nat.exists_eq_add_of_le hle
    obtain ⟨r, hr⟩ := Option.ne_none_iff_exists'.mp hblock
    have hplace : place v.buffers (offset + i) = some (r + b.1.offset + b.2) := by rw [place, hb, Option.bind_some, hr]; rfl
    have hused := hw.used_eq h ho (Nat.lt_of_add_lt_add_left hlt) hplace
    rw [used, hb, Option.bind_some, hr] at hused
    have haddress : r + b.2 = r + b.1.offset + b.2 := Option.some.inj hused
    exact (Nat.add_left_cancel (Nat.add_right_cancel haddress : r + 0 = r + b.1.offset)).symm
  · intro p hle hlt a hp q hq
    obtain ⟨i, rfl⟩ := Nat.exists_eq_add_of_le hle
    have hi := Nat.lt_of_add_lt_add_left hlt
    have hone := hw.marked h ho hi hp
    rw [hw.marked h ho hi hq, if_pos rfl] at hone
    split at hone
    · assumption
    · cases hone

/-- Writing replaces the bytes exactly where the blocks are there from their first byte on and no byte that is written stands at two
places. -/
theorem writes_iff (h : v.Sound) (ho : offset ≤ v.totalSize) : v.Writes offset n ↔ v.Writable offset n :=
  ⟨Writes.writable h ho, Writable.writes h ho⟩

theorem writes_iff_own : ({ buffers := [{ data := [7, 8, 9], capacity := 3, size := 3 }], totalSize := 3 } : VirtualBuffer).Writes 2 4 ↔
    ({ buffers := [{ data := [7, 8, 9], capacity := 3, size := 3 }], totalSize := 3 } : VirtualBuffer).Writable 2 4 :=
  writes_iff ⟨fun b hb => by rw [List.mem_singleton.mp hb]; exact fun _ => Nat.le_refl _, rfl⟩ (by decide)

/-- Two bytes of a block at 100, from its byte 4 on: the byte that is written goes to the first byte of the block. -/
theorem not_writes : ¬∀ (v : VirtualBuffer) (offset n : Nat), v.Sound → offset ≤ v.totalSize → v.Writes offset n := by
  intro hall
  have hsound : ({ buffers := [{ block := some 100, offset := 4, size := 2 }], totalSize := 2 } : VirtualBuffer).Sound :=
    ⟨fun b hb => by rw [List.mem_singleton.mp hb]; exact nofun, rfl⟩
  obtain ⟨v', m', hwrite, hread, -⟩ := hall _ 0 1 hsound (by decide) (fun _ => 0) [1] [0, 0] rfl rfl
  obtain ⟨rfl, rfl⟩ := Prod.mk.inj (Option.some.inj hwrite)
  revert hread
  decide

end

end VirtualBuffer

end Snapwebsites.Snapdatabase.Data
