import Mathlib.Data.List.Forall2
import Snapwebsites.Snapdatabase.BufferInsert

/-! # Erasing from a virtual buffer

`perase()` takes the bytes of a range away when the range starts at a buffer, or takes all from its start to the end of the buffer, or is
within a memory buffer. Behind a buffer that goes, the loop goes on only where nothing is left in front of it, and the number of bytes
is made an `int`. -/

namespace Snapwebsites.Snapdatabase.Data

/-! ### What is shown -/

/-- Two buffers that may differ in the bytes of their own. -/
structure Vbuf.Alike (b c : Vbuf) : Prop where
  block : c.block = b.block
  offset : c.offset = b.offset
  size : c.size = b.size
  length : c.data.length = b.data.length

/-- A range that starts in the middle of a buffer goes up to its end or farther, or is within a memory buffer. -/
def Inside (l : List Vbuf) (n o : Nat) : Prop :=
  ∀ front b back, l = front ++ b :: back → sizes front < o → o < sizes front + b.size →
    b.size ≤ n ∨ b.block = none ∧ o + n ≤ sizes front + b.size

/-- A buffer that goes, and is not the last one of the range, leaves nothing in front of it. -/
def Alone (first : Bool) (l : List Vbuf) (n o : Nat) : Prop :=
  ∀ front b back, l = front ++ b :: back → 0 < b.size → o ≤ sizes front → sizes front + b.size < o + n →
    first = true ∧ o = 0 ∧ ∀ c ∈ front, c.size ≠ 0

namespace VirtualBuffer

/-- Whatever the blocks and the memory buffers hold, the bytes of the range are taken away. -/
def Erases (v : VirtualBuffer) (size offset : Nat) : Prop :=
  ∀ (m : Memory) (w : VirtualBuffer) (old : Bytes), List.Forall₂ Vbuf.Alike v.buffers w.buffers → w.totalSize = v.totalSize →
    w.pread m w.totalSize 0 true = some old →
      ∃ v' k, w.perase size offset = some (v', k) ∧ v'.pread m v'.totalSize 0 true = some (old.take offset ++ old.drop (offset + size)) ∧
        v'.totalSize = (old.take offset ++ old.drop (offset + size)).length ∧ k = ((old.drop offset).take size).length

/-- The number of bytes that there are to erase. -/
def inRange (v : VirtualBuffer) (size offset : Nat) : Nat := min size (v.totalSize - offset)

structure Erasable (v : VirtualBuffer) (size offset : Nat) : Prop where
  small : v.inRange size offset < 0x80000000
  inside : 0 < v.inRange size offset → Inside v.buffers (v.inRange size offset) offset
  alone : Alone true v.buffers (v.inRange size offset) offset

end VirtualBuffer

/-! ### The loop of `perase()` -/

/-- What the loop leaves behind the buffers that it has passed: it only matters whether there are any. -/
def peraseRest (first : Bool) : List Vbuf → Nat → Nat → Option (List Vbuf × Nat)
  | [], _, _ => some ([], 0)
  | b :: l, size, offset =>
    if size = 0 then some (b :: l, 0)
    else if offset ≥ b.size then (peraseRest false l size (offset - b.size)).map fun r => (b :: r.1, r.2)
    else if size ≥ b.size then
      if offset = 0 then
        if size - b.size = 0 then some (l, b.size)
        else if first then (peraseRest true l (size - b.size) 0).map fun r => (r.1, b.size + r.2)
        else none
      else (peraseRest false l (size - (b.size - offset)) 0).map fun r => ({ b with size := offset } :: r.1, b.size - offset + r.2)
    else (VirtualBuffer.eraseWithin b size offset).map fun b => (b :: l, size)

section Loop
variable {m : Memory} {b c : Vbuf} {l l' : List Vbuf} {first : Bool} {kept : List Vbuf} {n o k : Nat}

theorem peraseFrom_eq (kept l : List Vbuf) (n o : Nat) : VirtualBuffer.peraseFrom kept l n o =
    (peraseRest kept.isEmpty l n o).map fun r => (kept ++ r.1, r.2) := by
  induction l generalizing kept n o with
  | nil => simp [VirtualBuffer.peraseFrom, peraseRest]
  | cons b l ih =>
    have happend : ∀ c : Vbuf, (kept ++ [c]).isEmpty = false := fun c => by simp
    rw [VirtualBuffer.peraseFrom, peraseRest]
    split
    · rfl
    · split
      · rw [ih, happend, Option.map_map]
        simp only [Function.comp_def, List.append_assoc, List.singleton_append]
      · split
        · split
          · split
            · rfl
            · by_cases hkept : kept = []
              · subst hkept
                rw [if_pos rfl, ih, Option.map_map]
                simp [Function.comp_def]
              · have hne : ¬kept.isEmpty = true := fun he => hkept (List.isEmpty_iff.mp he)
                rw [if_neg hkept, if_neg hne]
                rfl
          · rw [ih, happend, Option.map_map, Option.map_map]
            simp only [Function.comp_def, List.append_assoc, List.singleton_append]
        · rw [Option.map_map]
          rfl

theorem eraseWithin_sound (hb : b.Sound) (hn : n < b.size) (h : VirtualBuffer.eraseWithin b n o = some c) :
    c.Sound ∧ c.size = b.size - n := by
  unfold VirtualBuffer.eraseWithin at h
  split at h
  · rename_i hblock
    have hne := Option.isSome_iff_ne_none.mp hblock
    split at h
    · obtain rfl := Option.some.inj h
      exact ⟨fun hnone => absurd hnone hne, rfl⟩
    · split at h
      · obtain rfl := Option.some.inj h
        exact ⟨fun hnone => absurd hnone hne, rfl⟩
      · cases h
  · split at h
    · rename_i hle
      obtain rfl := Option.some.inj h
      refine ⟨fun hnone => ?_, rfl⟩
      have hlength := hb hnone
      show b.size - n ≤ (b.data.take o ++ b.data.drop (o + n)).length
      rw [List.length_append, List.length_take, List.length_drop]
      omega
    · cases h

theorem peraseRest_sound {r : List Vbuf × Nat} (hl : ∀ b ∈ l, b.Sound) (h : peraseRest first l n o = some r) :
    (∀ b ∈ r.1, b.Sound) ∧ sizes r.1 + r.2 = sizes l := by
  induction l generalizing first n o r with
  | nil =>
    obtain rfl := Option.some.inj h
    exact ⟨nofun, rfl⟩
  | cons b l ih =>
    obtain ⟨hb, hrest⟩ := List.forall_mem_cons.mp hl
    rw [peraseRest] at h
    rw [sizes_cons]
    split at h
    · obtain rfl := Option.some.inj h
      exact ⟨hl, by rw [sizes_cons]; rfl⟩
    · split at h
      · obtain ⟨s, hs, rfl⟩ := Option.map_eq_some_iff.mp h
        obtain ⟨hsound, hsizes⟩ := ih hrest hs
        exact ⟨List.forall_mem_cons.mpr ⟨hb, hsound⟩, by rw [sizes_cons, Nat.add_assoc, hsizes]⟩
      · rename_i hlt
        split at h
        · split at h
          · split at h
            · obtain rfl := Option.some.inj h
              exact ⟨hrest, Nat.add_comm ..⟩
            · split at h
              · obtain ⟨s, hs, rfl⟩ := Option.map_eq_some_iff.mp h
                obtain ⟨hsound, hsizes⟩ := ih hrest hs
                exact ⟨hsound, by dsimp only; omega⟩
              · cases h
          · obtain ⟨s, hs, rfl⟩ := Option.map_eq_some_iff.mp h
            obtain ⟨hsound, hsizes⟩ := ih hrest hs
            have hcut : ({ b with size := o } : Vbuf).Sound := fun hnone => by
              have := hb hnone
              show o ≤ b.data.length
              omega
            exact ⟨List.forall_mem_cons.mpr ⟨hcut, hsound⟩, by rw [sizes_cons]; dsimp only; omega⟩
        · rename_i hn
          obtain ⟨c, hc, rfl⟩ := Option.map_eq_some_iff.mp h
          obtain ⟨hsound, hsize⟩ := eraseWithin_sound hb (Nat.lt_of_not_le hn) hc
          exact ⟨List.forall_mem_cons.mpr ⟨hsound, hrest⟩, by rw [sizes_cons, hsize]; dsimp only; omega⟩

/-! ### What each branch takes away -/

/-- Whatever the buffers hold, the loop takes away the range. -/
def Taken (first : Bool) (l : List Vbuf) (n o : Nat) : Prop :=
  ∀ l', List.Forall₂ Vbuf.Alike l l' → ∀ m, ∃ r, peraseRest first l' n o = some (r, n) ∧
    content m r = (content m l').take o ++ (content m l').drop (o + n)

theorem Vbuf.Alike.refl (b : Vbuf) : Vbuf.Alike b b := ⟨rfl, rfl, rfl, rfl⟩

theorem Vbuf.Alike.sound (h : Vbuf.Alike b c) (hb : b.Sound) : c.Sound := fun hnone => by
  have := hb (h.block ▸ hnone)
  rw [h.size, h.length]
  exact this

theorem forall_sound (h : List.Forall₂ Vbuf.Alike l l') (hl : ∀ b ∈ l, b.Sound) : ∀ b ∈ l', b.Sound := by
  induction h with
  | nil => exact hl
  | cons hb _ ih =>
    obtain ⟨hsound, hrest⟩ := List.forall_mem_cons.mp hl
    exact List.forall_mem_cons.mpr ⟨hb.sound hsound, ih hrest⟩

theorem sizes_alike (h : List.Forall₂ Vbuf.Alike l l') : sizes l' = sizes l := by
  induction h with
  | nil => rfl
  | cons hb _ ih => rw [sizes_cons, sizes_cons, hb.size, ih]

/-- The content of a buffer that is passed. -/
theorem content_passed (hb : b.Sound) (ho : b.size ≤ o) (m : Memory) (l : List Vbuf) (n : Nat) :
    (content m (b :: l)).take o ++ (content m (b :: l)).drop (o + n) =
      b.read m 0 b.size ++ ((content m l).take (o - b.size) ++ (content m l).drop (o - b.size + n)) := by
  have hlength : (b.read m 0 b.size).length = b.size := Vbuf.length_read hb (by omega)
  have hsub : o + n - b.size = o - b.size + n := by omega
  rw [content_cons, List.take_append, List.drop_append, List.take_of_length_le (by omega),
    List.drop_of_length_le (by omega : (b.read m 0 b.size).length ≤ o + n), hlength, hsub, List.nil_append, List.append_assoc]

theorem Vbuf.read_zero (b : Vbuf) (m : Memory) : b.read m o 0 = [] := by
  unfold Vbuf.read
  cases b.block <;> rfl

/-- The content of a buffer that is left up to the range, which goes on behind it. -/
theorem content_cut (hb : b.Sound) (ho : o ≤ b.size) (hn : b.size ≤ o + n) (m : Memory) (l : List Vbuf) :
    (content m (b :: l)).take o ++ (content m (b :: l)).drop (o + n) =
      b.read m 0 o ++ ((content m l).take 0 ++ (content m l).drop (0 + (n - (b.size - o)))) := by
  have hlength : (b.read m 0 b.size).length = b.size := Vbuf.length_read hb (by omega)
  have htake : (b.read m 0 b.size).take o = b.read m 0 o := by
    rw [← Vbuf.read_read hb (by omega : 0 + o ≤ b.size), List.drop_zero]
  have hsub : o + n - b.size = 0 + (n - (b.size - o)) := by omega
  rw [content_cons, List.take_append_of_le_length (by omega), List.drop_append, List.drop_of_length_le (by omega), hlength, hsub,
    List.nil_append, htake, List.take_zero, List.nil_append]

/-- The content where a buffer goes, and the range goes on behind it. -/
theorem content_gone (hb : b.Sound) (hn : b.size ≤ n) (m : Memory) (l : List Vbuf) :
    (content m (b :: l)).take 0 ++ (content m (b :: l)).drop (0 + n) =
      (content m l).take 0 ++ (content m l).drop (0 + (n - b.size)) := by
  rw [content_cut hb (Nat.zero_le _) (by omega), Vbuf.read_zero]
  rfl

theorem taken_passed (hb : b.Sound) (hn : n ≠ 0) (ho : b.size ≤ o) : Taken first (b :: l) n o ↔ Taken false l n (o - b.size) := by
  constructor
  · intro h l' hl' m
    obtain ⟨r, hr, hcontent⟩ := h (b :: l') (.cons (.refl b) hl') m
    rw [peraseRest, if_neg hn, if_pos ho] at hr
    obtain ⟨s, hs, heq⟩ := Option.map_eq_some_iff.mp hr
    obtain ⟨rfl, hk⟩ := Prod.mk.inj heq
    rw [content_passed hb ho, content_cons] at hcontent
    exact ⟨s.1, by rw [hs, ← hk], List.append_cancel_left hcontent⟩
  · rintro h _ (_ | ⟨hc, hl'⟩) m
    rename_i c l'
    obtain ⟨r, hr, hcontent⟩ := h l' hl' m
    refine ⟨c :: r, ?_, ?_⟩
    · rw [peraseRest, if_neg hn, hc.size, if_pos ho, hr]
      rfl
    · rw [content_passed (hc.sound hb) (hc.size ▸ ho), content_cons, hcontent, hc.size]

theorem taken_last (hb : b.Sound) (hn : b.size ≠ 0) : Taken first (b :: l) b.size 0 := by
  rintro _ (_ | ⟨hc, hl'⟩) m
  rename_i c l'
  have hcontent := content_gone (hc.sound hb) (Nat.le_of_eq hc.size) m l'
  refine ⟨l', ?_, ?_⟩
  · rw [peraseRest, if_neg hn, hc.size, if_neg (by omega), if_pos (Nat.le_refl _), if_pos rfl, if_pos (Nat.sub_self _)]
  · rw [hcontent, hc.size, Nat.sub_self]
    rfl

theorem peraseRest_gone (hpos : 0 < b.size) (hn : b.size < n) : peraseRest first (b :: l) n 0 =
    if first then (peraseRest true l (n - b.size) 0).map fun r => (r.1, b.size + r.2) else none := by
  rw [peraseRest, if_neg (by omega), if_neg (by omega), if_pos (Nat.le_of_lt hn), if_pos rfl, if_neg (by omega)]

theorem taken_gone (hb : b.Sound) (hpos : 0 < b.size) (hn : b.size < n) :
    Taken first (b :: l) n 0 ↔ first = true ∧ Taken true l (n - b.size) 0 := by
  have hcontent := fun m l' => content_gone (l := l') hb (Nat.le_of_lt hn) m
  constructor
  · intro h
    have hfirst : first = true := by
      obtain ⟨r, hr, -⟩ := h (b :: l) (List.forall₂_same.mpr fun b _ => .refl b) fun _ => 0
      rw [peraseRest_gone hpos hn] at hr
      cases first
      · cases hr
      · rfl
    refine ⟨hfirst, fun l' hl' m => ?_⟩
    obtain ⟨r, hr, htaken⟩ := h (b :: l') (.cons (.refl b) hl') m
    rw [peraseRest_gone hpos hn, if_pos hfirst] at hr
    obtain ⟨s, hs, heq⟩ := Option.map_eq_some_iff.mp hr
    obtain ⟨rfl, hk⟩ := Prod.mk.inj heq
    have hcount : s.2 = n - b.size := by omega
    exact ⟨s.1, by rw [hs, ← hcount], htaken.trans (hcontent m l')⟩
  · rintro ⟨hfirst, h⟩ _ (_ | ⟨hc, hl'⟩) m
    rename_i c l'
    obtain ⟨r, hr, htaken⟩ := h l' hl' m
    have hcount : b.size + (n - b.size) = n := by omega
    refine ⟨r, ?_, ?_⟩
    · rw [peraseRest_gone (hc.size ▸ hpos) (hc.size ▸ hn), if_pos hfirst, hc.size, hr]
      exact congrArg (fun k => some (r, k)) hcount
    · rw [htaken, content_gone (hc.sound hb) (hc.size ▸ Nat.le_of_lt hn), hc.size]

theorem peraseRest_cut (hpos : 0 < o) (ho : o < b.size) (hn : b.size ≤ n) : peraseRest first (b :: l) n o =
    (peraseRest false l (n - (b.size - o)) 0).map fun r => ({ b with size := o } :: r.1, b.size - o + r.2) := by
  rw [peraseRest, if_neg (by omega), if_neg (by omega), if_pos hn, if_neg (by omega)]

theorem taken_cut (hb : b.Sound) (hpos : 0 < o) (ho : o < b.size) (hn : b.size ≤ n) :
    Taken first (b :: l) n o ↔ Taken false l (n - (b.size - o)) 0 := by
  have hread : ∀ c : Vbuf, ∀ m, ({ c with size := o } : Vbuf).read m 0 o = c.read m 0 o := fun _ _ => rfl
  constructor
  · intro h l' hl' m
    obtain ⟨r, hr, htaken⟩ := h (b :: l') (.cons (.refl b) hl') m
    rw [peraseRest_cut hpos ho hn] at hr
    obtain ⟨s, hs, heq⟩ := Option.map_eq_some_iff.mp hr
    obtain ⟨rfl, hk⟩ := Prod.mk.inj heq
    have hcount : s.2 = n - (b.size - o) := by omega
    rw [content_cut hb (Nat.le_of_lt ho) (by omega), content_cons, hread] at htaken
    exact ⟨s.1, by rw [hs, ← hcount], List.append_cancel_left htaken⟩
  · rintro h _ (_ | ⟨hc, hl'⟩) m
    rename_i c l'
    obtain ⟨r, hr, htaken⟩ := h l' hl' m
    have hcount : b.size - o + (n - (b.size - o)) = n := by omega
    have hsize := hc.size
    refine ⟨{ c with size := o } :: r, ?_, ?_⟩
    · rw [peraseRest_cut hpos (hc.size ▸ ho) (hc.size ▸ hn), hc.size, hr]
      exact congrArg (fun k => some (({ c with size := o } : Vbuf) :: r, k)) hcount
    · rw [content_cut (hc.sound hb) (by omega) (by omega), content_cons, hread, htaken, hc.size]

/-! ### A range that does not reach the end of a buffer -/

theorem peraseRest_within (hpos : 0 < n) (ho : o < b.size) (hn : n < b.size) : peraseRest first (b :: l) n o =
    (VirtualBuffer.eraseWithin b n o).map fun b => (b :: l, n) := by
  rw [peraseRest, if_neg (by omega), if_neg (by omega), if_neg (by omega)]

theorem Vbuf.read_drop (hb : b.Sound) (hn : n ≤ b.size) : (b.read m 0 b.size).drop n = b.read m n (b.size - n) := by
  rw [← Vbuf.read_read hb (by omega : n + (b.size - n) ≤ b.size), List.take_of_length_le]
  rw [List.length_drop, Vbuf.length_read hb (by omega)]

theorem eraseWithin_front (hb : b.Sound) (hn : n ≤ b.size) : ∃ c, VirtualBuffer.eraseWithin b n 0 = some c ∧
    ∀ m, c.read m 0 c.size = (b.read m 0 b.size).drop n := by
  unfold VirtualBuffer.eraseWithin
  split
  · rename_i hblock
    obtain ⟨r, hr⟩ := Option.isSome_iff_exists.mp hblock
    refine ⟨_, rfl, fun m => ?_⟩
    rw [Vbuf.read_drop hb hn]
    unfold Vbuf.read
    simp only [hr, Nat.add_zero, Nat.add_assoc]
  · rename_i hblock
    have hown := Option.not_isSome_iff_eq_none.mp hblock
    have hdata := hb hown
    rw [if_pos (by omega)]
    refine ⟨_, rfl, fun m => ?_⟩
    rw [Vbuf.read_drop hb hn]
    unfold Vbuf.read
    simp only [hown, List.take_zero, List.nil_append, List.drop_zero, Nat.zero_add]

theorem eraseWithin_own (hb : b.Sound) (hown : b.block = none) (hn : o + n ≤ b.size) : ∃ c, VirtualBuffer.eraseWithin b n o = some c ∧
    ∀ m, c.read m 0 c.size = (b.read m 0 b.size).take o ++ (b.read m 0 b.size).drop (o + n) := by
  have hdata := hb hown
  have htake : (b.data.take o).length = o := by rw [List.length_take]; omega
  unfold VirtualBuffer.eraseWithin
  rw [hown, if_neg nofun, if_pos (by omega)]
  refine ⟨_, rfl, fun m => ?_⟩
  have hsub : b.size - n - o = b.size - (o + n) := by omega
  rw [Vbuf.read_drop hb hn]
  unfold Vbuf.read
  simp only [hown, List.drop_zero]
  rw [List.take_append, htake, hsub, List.take_of_length_le (by omega), List.take_take, Nat.min_eq_left (by omega)]

/-- The content where bytes within a buffer go. -/
theorem content_within (hb : b.Sound) (hn : o + n ≤ b.size) (m : Memory) (l : List Vbuf) :
    (content m (b :: l)).take o ++ (content m (b :: l)).drop (o + n) =
      (b.read m 0 b.size).take o ++ (b.read m 0 b.size).drop (o + n) ++ content m l := by
  have hlength : (b.read m 0 b.size).length = b.size := Vbuf.length_read hb (by omega)
  rw [content_cons, List.take_append_of_le_length (by omega), List.drop_append_of_le_length (by omega), List.append_assoc]

theorem taken_front (hb : b.Sound) (hpos : 0 < n) (hn : n < b.size) : Taken first (b :: l) n 0 := by
  rintro _ (_ | ⟨hc, hl'⟩) m
  rename_i c l'
  have hsize := hc.size
  have hsound := hc.sound hb
  obtain ⟨d, herase, hread⟩ := eraseWithin_front (n := n) hsound (by omega)
  rw [peraseRest_within hpos (by omega) (by omega), herase]
  refine ⟨d :: l', rfl, ?_⟩
  rw [content_within hsound (by omega), content_cons, hread, Nat.zero_add]
  rfl

theorem taken_own (hb : b.Sound) (hown : b.block = none) (hpos : 0 < n) (ho : 0 < o) (hn : o + n ≤ b.size) : Taken first (b :: l) n o := by
  rintro _ (_ | ⟨hc, hl'⟩) m
  rename_i c l'
  have hsize := hc.size
  have hsound := hc.sound hb
  obtain ⟨d, herase, hread⟩ := eraseWithin_own (n := n) (o := o) hsound (hc.block.trans hown) (by omega)
  rw [peraseRest_within hpos (by omega) (by omega), herase]
  refine ⟨d :: l', rfl, ?_⟩
  rw [content_within hsound (by omega), content_cons, hread]

theorem getElem?_take_append {x y : Bytes} {i : Nat} (hi : i < o) (ho : o ≤ x.length) : (x.take o ++ y)[i]? = x[i]? := by
  rw [List.getElem?_append_left (by rw [List.length_take]; omega), List.getElem?_take_of_lt hi]

/-- A block loses its first bytes where the last ones are to go, and nothing works in its middle. -/
theorem own_of_taken (hl : ∀ c ∈ b :: l, c.Sound) (hpos : 0 < n) (ho : 0 < o) (hob : o < b.size) (hn : n < b.size)
    (h : Taken first (b :: l) n o) : b.block = none := by
  have hlength := fun m => length_content (m := m) hl
  cases hblock : b.block with
  | none => rfl
  | some r =>
    obtain ⟨s, hs, htaken⟩ := h (b :: l) (List.forall₂_same.mpr fun b _ => .refl b) fun a => if a = r + b.offset + o then 1 else 0
    rw [peraseRest_within hpos hob hn] at hs
    obtain ⟨c, hc, heq⟩ := Option.map_eq_some_iff.mp hs
    obtain ⟨rfl, -⟩ := Prod.mk.inj heq
    unfold VirtualBuffer.eraseWithin at hc
    rw [if_pos (Option.isSome_iff_exists.mpr ⟨r, hblock⟩), if_neg (by omega)] at hc
    split at hc
    · obtain rfl := Option.some.inj hc
      have hsound : ∀ c ∈ { b with offset := b.offset + o, size := b.size - n } :: l, c.Sound :=
        List.forall_mem_cons.mpr ⟨fun hnone => (by rw [hblock] at hnone; cases hnone), (List.forall_mem_cons.mp hl).2⟩
      have hget := congrArg (·[0]?) htaken
      change _ = (_ ++ _)[0]? at hget
      rw [getElem?_take_append ho (by rw [hlength, sizes_cons]; omega), getElem?_content hl, holder_here (by omega),
        getElem?_content hsound, holder_here (show 0 < b.size - n by omega)] at hget
      simp [Vbuf.byte, hblock, Nat.add_assoc] at hget
      exact absurd hget (Nat.ne_of_gt ho)
    · cases hc

/-- The buffer with one byte all over. -/
def Vbuf.fill (x : UInt8) (b : Vbuf) : Vbuf := { b with data := List.replicate b.data.length x }

theorem Vbuf.alike_fill (x : UInt8) (b : Vbuf) : b.Alike (b.fill x) := ⟨rfl, rfl, rfl, List.length_replicate⟩

theorem forall₂_fill (x : UInt8) (l : List Vbuf) : List.Forall₂ Vbuf.Alike l (l.map (Vbuf.fill x)) := by
  rw [List.forall₂_map_right_iff]
  exact List.forall₂_same.mpr fun b _ => Vbuf.alike_fill x b

theorem Vbuf.byte_fill (x : UInt8) (hown : b.block = none) (ho : o < b.data.length) : (b.fill x).byte m o = x := by
  simp [Vbuf.byte, Vbuf.fill, hown, ho]

/-- Buffers that are filled have nothing but the byte. -/
theorem content_fill (x : UInt8) (hl : ∀ b ∈ l, b.Sound) : ∀ y ∈ content (fun _ => x) (l.map (Vbuf.fill x)), y = x := by
  intro y hy
  obtain ⟨b', hb', hy⟩ := List.mem_flatMap.mp hy
  obtain ⟨b, hb, rfl⟩ := List.mem_map.mp hb'
  rw [Vbuf.read_eq ((Vbuf.alike_fill x b).sound (hl b hb)) (by omega)] at hy
  obtain ⟨i, hi, rfl⟩ := List.mem_map.mp hy
  rw [Nat.zero_add]
  cases hblock : b.block with
  | none => exact Vbuf.byte_fill x hblock ((List.mem_range.mp hi).trans_le (hl b hb hblock))
  | some r => simp [Vbuf.byte, Vbuf.fill, hblock]

/-- A memory buffer keeps fewer bytes than it has where the range goes on behind it. -/
theorem within_of_taken (hl : ∀ c ∈ b :: l, c.Sound) (hown : b.block = none) (hpos : 0 < n) (hob : o < b.size) (hn : n < b.size)
    (h : Taken first (b :: l) n o) : o + n ≤ b.size := by
  by_contra hover
  obtain ⟨hb, hrest⟩ := List.forall_mem_cons.mp hl
  have halike : List.Forall₂ Vbuf.Alike (b :: l) (b.fill 1 :: l.map (Vbuf.fill 0)) := .cons (b.alike_fill 1) (forall₂_fill 0 l)
  have hsound := forall_sound halike hl
  obtain ⟨s, hs, htaken⟩ := h _ halike fun _ => 0
  rw [peraseRest_within (b := b.fill 1) hpos hob hn] at hs
  obtain ⟨c, hc, heq⟩ := Option.map_eq_some_iff.mp hs
  obtain ⟨rfl, -⟩ := Prod.mk.inj heq
  obtain ⟨hcsound, hcsize⟩ := eraseWithin_sound (hsound _ List.mem_cons_self) hn hc
  have hget := congrArg (·[b.size - n]?) htaken
  change _ = (_ ++ _)[b.size - n]? at hget
  have hlength : (c.read (fun _ => 0) 0 c.size).length = b.size - n := (Vbuf.length_read hcsound (by omega)).trans hcsize
  rw [getElem?_take_append (by omega) (by rw [length_content hsound, sizes_cons]; exact Nat.le_add_right_of_le (Nat.le_of_lt hob)),
    getElem?_content hsound, holder_here (show b.size - n < (b.fill 1).size from Nat.sub_lt (by omega) hpos), content_cons, List.getElem?_append_right (by omega), hlength,
    Nat.sub_self, Option.map_some] at hget
  have hzero := content_fill 0 hrest _ (List.mem_of_getElem? hget)
  have hdata := hb hown
  rw [Vbuf.byte_fill 1 hown (by omega)] at hzero
  cases hzero

/-! ### The condition, buffer by buffer -/

theorem forall_split_cons {q : List Vbuf → Vbuf → Prop} : (∀ front c back, b :: l = front ++ c :: back → q front c) ↔
    q [] b ∧ ∀ front c back, l = front ++ c :: back → q (b :: front) c := by
  constructor
  · intro h
    exact ⟨h [] b l rfl, fun front c back heq => h (b :: front) c back (by rw [heq]; rfl)⟩
  · rintro ⟨hhead, htail⟩ (_ | ⟨d, front⟩) c back heq
    · obtain ⟨rfl, rfl⟩ := List.cons.inj heq
      exact hhead
    · obtain ⟨rfl, hrest⟩ := List.cons.inj heq
      exact htail front c back hrest

theorem sizes_nil : sizes [] = 0 := rfl

theorem inside_zero (l : List Vbuf) (n : Nat) : Inside l n 0 := fun _ _ _ _ hlt => absurd hlt (Nat.not_lt_zero _)

theorem inside_passed (ho : b.size ≤ o) : Inside (b :: l) n o ↔ Inside l n (o - b.size) := by
  unfold Inside
  rw [forall_split_cons]
  constructor
  · rintro ⟨-, h⟩ front c back heq hlt hin
    have hc := h front c back heq
    rw [sizes_cons] at hc
    exact (hc (by omega) (by omega)).imp_right fun hown => ⟨hown.1, by omega⟩
  · intro h
    refine ⟨fun _ hin => absurd hin (by rw [sizes_nil]; omega), fun front c back heq hlt hin => ?_⟩
    rw [sizes_cons] at hlt hin ⊢
    exact (h front c back heq (by omega) (by omega)).imp_right fun hown => ⟨hown.1, by omega⟩

theorem inside_cut (ho : o < b.size) (hn : b.size ≤ n) : Inside (b :: l) n o := by
  unfold Inside
  rw [forall_split_cons]
  refine ⟨fun _ _ => .inl hn, fun front c back _ hlt => absurd hlt ?_⟩
  rw [sizes_cons]
  omega

theorem inside_within (hpos : 0 < o) (ho : o < b.size) (hn : n < b.size) : Inside (b :: l) n o ↔ b.block = none ∧ o + n ≤ b.size := by
  unfold Inside
  rw [forall_split_cons, sizes_nil, Nat.zero_add]
  constructor
  · rintro ⟨h, -⟩
    exact (h hpos ho).resolve_left (Nat.not_le.mpr hn)
  · intro h
    refine ⟨fun _ _ => .inr h, fun front c back _ hlt => absurd hlt ?_⟩
    rw [sizes_cons]
    omega

theorem alone_passed (ho : b.size ≤ o) : Alone first (b :: l) n o ↔ Alone false l n (o - b.size) := by
  unfold Alone
  rw [forall_split_cons, sizes_nil]
  constructor
  · rintro ⟨-, h⟩ front c back heq hpos hle hlt
    have hc := h front c back heq hpos
    rw [sizes_cons] at hc
    obtain ⟨-, hzero, hall⟩ := hc (by omega) (by omega)
    have hb := hall b List.mem_cons_self
    omega
  · intro h
    refine ⟨fun hpos hle => by omega, fun front c back heq hpos hle hlt => ?_⟩
    rw [sizes_cons] at hle hlt
    exact nomatch (h front c back heq hpos (by omega) (by omega)).1

/-- Nothing goes before the end of the range where it ends in the first buffer. -/
theorem alone_within (hn : o + n ≤ b.size) : Alone first (b :: l) n o := by
  unfold Alone
  rw [forall_split_cons, sizes_nil]
  refine ⟨fun _ _ hlt => by omega, fun front c back _ _ _ hlt => ?_⟩
  rw [sizes_cons] at hlt
  omega

theorem alone_gone (hpos : 0 < b.size) (hn : b.size < n) :
    Alone first (b :: l) n 0 ↔ first = true ∧ Alone true l (n - b.size) 0 := by
  unfold Alone
  rw [forall_split_cons, sizes_nil]
  constructor
  · rintro ⟨hhead, h⟩
    refine ⟨(hhead hpos (Nat.le_refl _) (by omega)).1, fun front c back heq hc hle hlt => ?_⟩
    have hc := h front c back heq hc (Nat.zero_le _)
    rw [sizes_cons] at hc
    exact ⟨rfl, rfl, (List.forall_mem_cons.mp (hc (by omega)).2.2).2⟩
  · rintro ⟨hfirst, h⟩
    refine ⟨fun _ _ _ => ⟨hfirst, rfl, nofun⟩, fun front c back heq hc _ hlt => ?_⟩
    rw [sizes_cons] at hlt
    exact ⟨hfirst, rfl, List.forall_mem_cons.mpr ⟨by omega, (h front c back heq hc (Nat.zero_le _) (by omega)).2.2⟩⟩

theorem alone_cut (hpos : 0 < o) (ho : o < b.size) (hn : b.size ≤ n) :
    Alone first (b :: l) n o ↔ Alone false l (n - (b.size - o)) 0 := by
  unfold Alone
  rw [forall_split_cons, sizes_nil]
  constructor
  · rintro ⟨-, h⟩ front c back heq hc hle hlt
    have hc := h front c back heq hc
    rw [sizes_cons] at hc
    exact absurd (hc (by omega) (by omega)).2.1 (Nat.ne_of_gt hpos)
  · intro h
    refine ⟨fun _ hle => by omega, fun front c back heq hc _ hlt => ?_⟩
    rw [sizes_cons] at hlt
    exact nomatch (h front c back heq hc (Nat.zero_le _) (by omega)).1

/-- The loop takes the range away exactly under the condition. -/
theorem taken_iff (hl : ∀ b ∈ l, b.Sound) (hn : 0 < n) (ho : o + n ≤ sizes l) : Taken first l n o ↔ Inside l n o ∧ Alone first l n o := by
  induction l generalizing first n o with
  | nil =>
    rw [sizes_nil] at ho
    omega
  | cons b l ih =>
    obtain ⟨hb, hrest⟩ := List.forall_mem_cons.mp hl
    rw [sizes_cons] at ho
    rcases Nat.lt_or_ge o b.size with hin | hout
    · rcases Nat.lt_or_ge n b.size with hlt | hge
      · rcases Nat.eq_zero_or_pos o with rfl | hpos
        · exact iff_of_true (taken_front hb hn hlt) ⟨inside_zero _ _, alone_within (by omega)⟩
        · rw [inside_within hpos hin hlt]
          constructor
          · intro h
            have hown := own_of_taken hl hn hpos hin hlt h
            have hle := within_of_taken hl hown hn hin hlt h
            exact ⟨⟨hown, hle⟩, alone_within hle⟩
          · rintro ⟨⟨hown, hle⟩, -⟩
            exact taken_own hb hown hn hpos hle
      · rcases Nat.eq_zero_or_pos o with rfl | hpos
        · rcases Nat.eq_or_lt_of_le hge with rfl | hlt
          · exact iff_of_true (taken_last hb (by omega)) ⟨inside_zero _ _, alone_within (by omega)⟩
          · rw [taken_gone hb hin hlt, alone_gone hin hlt, ih hrest (by omega) (by omega)]
            simp only [inside_zero, true_and]
        · rw [taken_cut hb hpos hin hge, alone_cut hpos hin hge, ih hrest (by omega) (by omega)]
          simp only [inside_zero, inside_cut hin hge, true_and]
    · rw [taken_passed hb (by omega) hout, inside_passed hout, alone_passed hout, ih hrest hn (by omega)]

end Loop

/-! ### The result -/

theorem toInt_eq_iff (n : Nat) : toInt n = n ↔ n < 0x80000000 := by
  have hhalf : (((0x100000000 : Nat) : Int) + 1) / 2 = 0x80000000 := by decide
  unfold toInt Int.bmod
  dsimp only
  rw [hhalf]
  split <;> omega

namespace VirtualBuffer
variable {v w : VirtualBuffer} {m : Memory} {size offset n : Nat}

theorem perase_nothing (h : v.inRange size offset = 0) : v.perase size offset = some (v, 0) := by
  unfold inRange at h
  rw [perase]
  by_cases hsize : size = 0
  · rw [if_pos hsize]
  · rw [if_neg hsize, if_pos (by omega)]

theorem perase_eq (h : 0 < v.inRange size offset) : v.perase size offset =
    (peraseRest true v.buffers (v.inRange size offset) offset).map fun r =>
      ({ buffers := r.1, totalSize := v.totalSize - r.2, modified := decide (r.2 ≠ 0) }, toInt r.2) := by
  have hclamp : (if size > v.totalSize - offset then v.totalSize - offset else size) = v.inRange size offset := by
    unfold inRange
    split <;> omega
  unfold inRange at h
  rw [perase, if_neg (by omega), if_neg (by omega), hclamp]
  dsimp only
  rw [peraseFrom_eq, Option.map_map]
  rfl

/-- The range that the content is to lose. -/
theorem take_drop_inRange {old : Bytes} (h : old.length = v.totalSize) :
    old.take offset ++ old.drop (offset + size) = old.take offset ++ old.drop (offset + v.inRange size offset) := by
  unfold inRange
  rcases Nat.le_total size (v.totalSize - offset) with hle | hle
  · rw [Nat.min_eq_left hle]
  · rw [Nat.min_eq_right hle, List.drop_of_length_le (by omega), List.drop_of_length_le (by omega)]

theorem Sound.alike (h : v.Sound) (hw : List.Forall₂ Vbuf.Alike v.buffers w.buffers) (htotal : w.totalSize = v.totalSize) : w.Sound :=
  ⟨forall_sound hw h.buffers, by rw [htotal, h.totalSize, sizes_alike hw]⟩

theorem erases_nothing (h : v.Sound) (hn : v.inRange size offset = 0) : v.Erases size offset := by
  intro m w old hw htotal hread
  have hsound := h.alike hw htotal
  rw [pread_eq hsound] at hread
  obtain rfl := Option.some.inj hread
  have hlength : (content m w.buffers).length = w.totalSize := (length_content hsound.buffers).trans hsound.totalSize.symm
  have hrange : w.inRange size offset = 0 := by rw [inRange, htotal]; exact hn
  have hsame : (content m w.buffers).take offset ++ (content m w.buffers).drop (offset + size) = content m w.buffers := by
    unfold inRange at hrange
    rcases Nat.eq_zero_or_pos size with rfl | hpos
    · exact List.take_append_drop ..
    · rw [List.take_of_length_le (by omega), List.drop_of_length_le (by omega), List.append_nil]
  refine ⟨w, 0, perase_nothing hrange, by rw [pread_eq hsound, hsame], by rw [hsame, hlength], ?_⟩
  rw [List.length_take, List.length_drop, hlength]
  exact (congrArg Nat.cast hrange).symm

/-- The result of `perase()` is right when the one of its loop is, and the number of bytes is that `int`. -/
theorem erased_iff (h : v.Sound) (hn : 0 < v.inRange size offset) (m : Memory) :
    (∃ v' k, v.perase size offset = some (v', k) ∧ v'.pread m v'.totalSize 0 true =
        some ((content m v.buffers).take offset ++ (content m v.buffers).drop (offset + size)) ∧
      v'.totalSize = ((content m v.buffers).take offset ++ (content m v.buffers).drop (offset + size)).length ∧
      k = (((content m v.buffers).drop offset).take size).length) ↔
    (∃ r, peraseRest true v.buffers (v.inRange size offset) offset = some (r, v.inRange size offset) ∧
      content m r = (content m v.buffers).take offset ++ (content m v.buffers).drop (offset + v.inRange size offset)) ∧
    v.inRange size offset < 0x80000000 := by
  have hlength : (content m v.buffers).length = v.totalSize := (length_content h.buffers).trans h.totalSize.symm
  have hcount : (((content m v.buffers).drop offset).take size).length = v.inRange size offset := by
    rw [List.length_take, List.length_drop, hlength]
    rfl
  have hleft : ((content m v.buffers).take offset ++ (content m v.buffers).drop (offset + v.inRange size offset)).length +
      v.inRange size offset = v.totalSize := by
    rw [List.length_append, List.length_take, List.length_drop, hlength]
    unfold inRange at hn ⊢
    omega
  have hsound : ∀ {r : List Vbuf × Nat}, peraseRest true v.buffers (v.inRange size offset) offset = some r →
      ({ buffers := r.1, totalSize := v.totalSize - r.2, modified := decide (r.2 ≠ 0) } : VirtualBuffer).Sound := fun hr => by
    obtain ⟨hrest, hsizes⟩ := peraseRest_sound h.buffers hr
    exact ⟨hrest, Nat.sub_eq_of_eq_add (h.totalSize.trans hsizes.symm)⟩
  rw [perase_eq hn, take_drop_inRange hlength, hcount]
  constructor
  · rintro ⟨v', k, herase, hread, -, hk⟩
    obtain ⟨⟨r, n⟩, hr, heq⟩ := Option.map_eq_some_iff.mp herase
    obtain ⟨rfl, rfl⟩ := Prod.mk.inj heq
    rw [pread_eq (hsound hr)] at hread
    have hcontent := Option.some.inj hread
    have hsizes := (peraseRest_sound h.buffers hr).2
    rw [← h.totalSize, ← length_content (m := m) (hsound hr).buffers, hcontent] at hsizes
    have hnumber : n = v.inRange size offset := Nat.add_left_cancel (hsizes.trans hleft.symm)
    subst hnumber
    exact ⟨⟨r, hr, hcontent⟩, (toInt_eq_iff _).mp hk⟩
  · rintro ⟨⟨r, hr, hcontent⟩, hsmall⟩
    refine ⟨_, _, by rw [hr]; rfl, by rw [pread_eq (hsound hr), hcontent], ?_, (toInt_eq_iff _).mpr hsmall⟩
    exact Nat.sub_eq_of_eq_add hleft.symm

theorem erases_iff_taken (h : v.Sound) (hn : 0 < v.inRange size offset) :
    v.Erases size offset ↔ Taken true v.buffers (v.inRange size offset) offset ∧ v.inRange size offset < 0x80000000 := by
  constructor
  · intro he
    have hback : ∀ l', List.Forall₂ Vbuf.Alike v.buffers l' → ∀ m, _ := fun l' hl' m =>
      (erased_iff (v := { v with buffers := l' }) (h.alike hl' rfl) hn m).mp (he m _ _ hl' rfl (pread_eq (h.alike hl' rfl)))
    exact ⟨fun l' hl' m => (hback l' hl' m).1, (hback _ (List.forall₂_same.mpr fun b _ => .refl b) fun _ => 0).2⟩
  · rintro ⟨htaken, hsmall⟩ m w old hw htotal hread
    have hsound := h.alike hw htotal
    have hrange : w.inRange size offset = v.inRange size offset := by rw [inRange, inRange, htotal]
    rw [pread_eq hsound] at hread
    obtain rfl := Option.some.inj hread
    refine (erased_iff hsound (hrange ▸ hn) m).mpr ?_
    rw [hrange]
    exact ⟨htaken _ hw m, hsmall⟩

/-- The range goes exactly where it starts at a buffer, goes up to the end of the one that it starts in, or is within a memory buffer,
and leaves nothing in front of a buffer that goes before its end. -/
theorem erases_iff (h : v.Sound) : v.Erases size offset ↔ v.Erasable size offset := by
  rcases Nat.eq_zero_or_pos (v.inRange size offset) with hzero | hpos
  · refine iff_of_true (erases_nothing h hzero) ⟨by omega, fun hpos => by omega, fun front b back _ hb hle hlt => by omega⟩
  · have hrange : offset + v.inRange size offset ≤ sizes v.buffers := by
      rw [← h.totalSize]
      unfold inRange at hpos ⊢
      omega
    rw [erases_iff_taken h hpos, taken_iff h.buffers hpos hrange]
    constructor
    · rintro ⟨⟨hinside, halone⟩, hsmall⟩
      exact ⟨hsmall, fun _ => hinside, halone⟩
    · rintro ⟨hsmall, hinside, halone⟩
      exact ⟨⟨hinside hpos, halone⟩, hsmall⟩

theorem erases_iff_own : ({ buffers := [{ data := [7, 8, 9], capacity := 3, size := 3 }], totalSize := 3 } : VirtualBuffer).Erases 1 1 ↔
    ({ buffers := [{ data := [7, 8, 9], capacity := 3, size := 3 }], totalSize := 3 } : VirtualBuffer).Erasable 1 1 :=
  erases_iff ⟨fun b hb => by rw [List.mem_singleton.mp hb]; exact fun _ => Nat.le_refl _, rfl⟩

/-- The last two of the bytes 7, 8 and 9 of a block: what is left is the last one. -/
theorem not_erases : ¬∀ (v : VirtualBuffer) (size offset : Nat), v.Sound → v.Erases size offset := by
  intro hall
  have hsound : ({ buffers := [{ block := some 100, size := 3 }], totalSize := 3 } : VirtualBuffer).Sound :=
    ⟨fun b hb => by rw [List.mem_singleton.mp hb]; exact nofun, rfl⟩
  obtain ⟨v', k, herase, hread, -⟩ := hall _ 2 1 hsound (fun a => if a = 100 then 7 else if a = 101 then 8 else 9) _ _
    (List.forall₂_same.mpr fun b _ => .refl b) rfl rfl
  obtain ⟨rfl, rfl⟩ := Prod.mk.inj (Option.some.inj herase)
  revert hread
  decide

end VirtualBuffer
end Snapwebsites.Snapdatabase.Data
