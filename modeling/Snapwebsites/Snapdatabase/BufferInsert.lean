import Snapwebsites.Snapdatabase.BufferWrite

/-! # Inserting into a virtual buffer

`pinsert()` puts bytes between those of a buffer that has bytes of its own, and behind the end. A buffer of a block is to be split in
two, but the iterator that is used for the second half is no longer valid, and the bytes are copied to a vector that is empty. -/

namespace Snapwebsites.Snapdatabase.Data

namespace VirtualBuffer

/-- Whatever the blocks hold, the bytes are inserted at the offset. -/
def Inserts (v : VirtualBuffer) (s : Bytes) (offset : Nat) : Prop :=
  ∀ (m : Memory) (old : Bytes), v.pread m v.totalSize 0 true = some old →
    ∃ v' m', v.pinsert m s offset = some (v', m') ∧ v'.totalSize = v.totalSize + s.length ∧
      v'.pread m' v'.totalSize 0 true = some (old.take offset ++ s ++ old.drop offset)

end VirtualBuffer

/-! ### The loop of `pinsert()` -/

section Insert
variable {m : Memory} {b : Vbuf} {l : List Vbuf} {s : Bytes} {o : Nat} {h : Vbuf × Nat}

/-- A byte of the content has a buffer. -/
theorem exists_holder (hlt : o < sizes l) : ∃ h, holder l o = some h := by
  induction l generalizing o with
  | nil => cases hlt
  | cons b l ih =>
    rw [sizes_cons] at hlt
    rcases Nat.lt_or_ge o b.size with hin | hout
    · exact ⟨_, holder_here hin⟩
    · obtain ⟨h, hh⟩ := ih (o := o - b.size) (by omega)
      exact ⟨h, (holder_behind hout).trans hh⟩

theorem pinsertFrom_block (hp : holder l o = some h) (hblock : h.1.block ≠ none) : VirtualBuffer.pinsertFrom l s o = .ok none := by
  induction l generalizing o with
  | nil => cases hp
  | cons b l ih =>
    rw [VirtualBuffer.pinsertFrom]
    rcases Nat.lt_or_ge o b.size with hin | hout
    · rw [holder_here hin] at hp
      obtain rfl := Option.some.inj hp
      rw [if_neg (Nat.not_le.mpr hin), if_pos (Option.isSome_iff_ne_none.mpr hblock)]
    · rw [holder_behind hout] at hp
      rw [if_pos hout, ih hp]
      rfl

/-- The bytes go between those of the buffer. -/
theorem Vbuf.insert_read (hb : b.Sound) (hown : b.block = none) (ho : o ≤ b.size) (m : Memory) (c : Nat) :
    let b' := { b with data := b.data.take o ++ s ++ b.data.drop o, capacity := c, size := b.size + s.length }
    b'.Sound ∧ b'.read m 0 b'.size = (b.read m 0 b.size).take o ++ s ++ (b.read m 0 b.size).drop o := by
  have hlength := hb hown
  have htake : (b.data.take o).length = o := by rw [List.length_take]; omega
  have hsize : b.size = o + (b.size - o) := by omega
  have hfront : (b.data.take b.size).take o = b.data.take o := by rw [List.take_take, Nat.min_eq_left ho]
  have hback : (b.data.take b.size).drop o = (b.data.drop o).take (b.size - o) := by rw [List.drop_take]
  refine ⟨fun _ => ?_, ?_⟩
  · show b.size + s.length ≤ (b.data.take o ++ s ++ b.data.drop o).length
    rw [List.length_append, List.length_append, htake, List.length_drop]
    omega
  · unfold Vbuf.read
    simp only [hown, List.drop_zero]
    rw [hfront, hback, List.take_append, List.take_of_length_le (by rw [List.length_append, htake]; omega), List.length_append, htake]
    congr 2
    omega

theorem pinsertFrom_own (hl : ∀ b ∈ l, b.Sound) (hp : holder l o = some h) (hown : h.1.block = none) :
    ∃ l', VirtualBuffer.pinsertFrom l s o = .ok (some l') ∧ (∀ b ∈ l', b.Sound) ∧
      ∀ m, content m l' = (content m l).take o ++ s ++ (content m l).drop o := by
  induction l generalizing o with
  | nil => cases hp
  | cons b l ih =>
    obtain ⟨hb, hl⟩ := List.forall_mem_cons.mp hl
    have hlength : ∀ m, (b.read m 0 b.size).length = b.size := fun m => Vbuf.length_read hb (by omega)
    rw [VirtualBuffer.pinsertFrom]
    rcases Nat.lt_or_ge o b.size with hin | hout
    · rw [holder_here hin] at hp
      obtain rfl := Option.some.inj hp
      have hread := Vbuf.insert_read (s := s) hb hown (Nat.le_of_lt hin)
      rw [if_neg (Nat.not_le.mpr hin), if_neg (by rw [hown]; exact nofun)]
      refine ⟨_, rfl, List.forall_mem_cons.mpr ⟨(hread (fun _ => 0) _).1, hl⟩, fun m => ?_⟩
      rw [content_cons, content_cons, (hread m _).2, List.take_append_of_le_length (by rw [hlength]; omega),
        List.drop_append_of_le_length (by rw [hlength]; omega)]
      simp only [List.append_assoc]
    · rw [holder_behind hout] at hp
      obtain ⟨l', hinsert, hsound, hcontent⟩ := ih hl hp
      rw [if_pos hout, hinsert]
      refine ⟨b :: l', rfl, List.forall_mem_cons.mpr ⟨hb, hsound⟩, fun m => ?_⟩
      have hle : (b.read m 0 b.size).length ≤ o := (hlength m).trans_le hout
      rw [content_cons, content_cons, hcontent, List.take_append, List.drop_append, List.take_of_length_le hle,
        List.drop_of_length_le hle, hlength, List.nil_append]
      simp only [List.append_assoc]

end Insert

/-! ### The result -/

namespace VirtualBuffer
variable {v : VirtualBuffer} {m : Memory} {s : Bytes} {offset : Nat}

/-- Behind the end `pinsert()` writes. -/
theorem pinsert_end (h : v.Sound) (hs : s ≠ []) (m : Memory) : ∃ v' m', v'.Sound ∧ v.pinsert m s v.totalSize = some (v', m') ∧
    content m' v'.buffers = content m v.buffers ++ s := by
  obtain ⟨v', hsound, hwrite, hcontent⟩ := pwrite_eq h hs m v.totalSize
  refine ⟨v', _, hsound, by rw [pinsert, if_neg hs, if_pos (Nat.le_refl _), hwrite], ?_⟩
  have hlength : (content m v.buffers).length = v.totalSize := (length_content h.buffers).trans h.totalSize.symm
  rw [hcontent, content_wrote h (Nat.le_refl _) m _ s fun p a hp => ?_, List.take_of_length_le (by omega),
    List.drop_of_length_le (by omega), List.append_nil]
  have hlt : p < v.totalSize := h.totalSize ▸ place_lt hp
  have hnone : ∀ i, used v.buffers (v.totalSize + i) = none := fun i => by
    rw [used, holder_eq_none (h.totalSize ▸ Nat.le_add_right ..)]
    rfl
  rw [if_neg (by omega), memory_pwriteFrom h]
  exact Copy.memory_of_not_dest fun i _ hi => by rw [hnone] at hi; cases hi

theorem pinsert_own (h : v.Sound) (hs : s ≠ []) (ho : offset < v.totalSize)
    (hown : ∀ h, holder v.buffers offset = some h → h.1.block = none) (m : Memory) : ∃ v', v'.Sound ∧
      v.pinsert m s offset = some (v', m) ∧ content m v'.buffers = (content m v.buffers).take offset ++ s ++ (content m v.buffers).drop offset := by
  obtain ⟨b, hb⟩ := exists_holder (h.totalSize ▸ ho)
  obtain ⟨l', hinsert, hsound, hcontent⟩ := pinsertFrom_own (s := s) h.buffers hb (hown b hb)
  refine ⟨{ buffers := l', totalSize := v.totalSize + s.length, modified := true }, ⟨hsound, ?_⟩, ?_, hcontent m⟩
  · have hlength := length_content (m := m) h.buffers
    rw [← h.totalSize] at hlength
    show v.totalSize + s.length = sizes l'
    rw [← length_content (m := m) hsound, hcontent, List.length_append, List.length_append, List.length_take, List.length_drop, hlength]
    omega
  · rw [pinsert, if_neg hs, if_neg (Nat.not_le.mpr ho), hinsert]
    rfl

/-- The bytes go in between. -/
theorem pinsert_at (h : v.Sound) (ho : offset ≤ v.totalSize) (hown : s = [] ∨ ∀ h, holder v.buffers offset = some h → h.1.block = none)
    (m : Memory) : ∃ v' m', v.pinsert m s offset = some (v', m') ∧ v'.Sound ∧
      content m' v'.buffers = (content m v.buffers).take offset ++ s ++ (content m v.buffers).drop offset := by
  have hlength : (content m v.buffers).length = v.totalSize := (length_content h.buffers).trans h.totalSize.symm
  by_cases hs : s = []
  · exact ⟨v, m, if_pos hs, h, by rw [hs, List.append_nil, List.take_append_drop]⟩
  · have hown := hown.resolve_left hs
    rcases Nat.lt_or_ge offset v.totalSize with hlt | hge
    · obtain ⟨v', hv', hinsert, hcontent⟩ := pinsert_own h hs hlt hown m
      exact ⟨v', m, hinsert, hv', hcontent⟩
    · obtain rfl := Nat.le_antisymm ho hge
      obtain ⟨v', m', hv', hinsert, hcontent⟩ := pinsert_end h hs m
      refine ⟨v', m', hinsert, hv', ?_⟩
      rw [hcontent, List.take_of_length_le (by omega), List.drop_of_length_le (by omega), List.append_nil]

/-- The bytes are inserted exactly where there are none, or the byte at the offset is not one of a block. -/
theorem inserts_iff (h : v.Sound) (ho : offset ≤ v.totalSize) :
    v.Inserts s offset ↔ s = [] ∨ ∀ h, holder v.buffers offset = some h → h.1.block = none := by
  constructor
  · intro hi
    by_cases hs : s = []
    · exact .inl hs
    · refine .inr fun b hb => by_contra fun hblock => ?_
      have hlt : offset < v.totalSize := h.totalSize ▸ holder_lt hb
      obtain ⟨v', m', hinsert, -⟩ := hi (fun _ => 0) _ (pread_eq h)
      rw [pinsert, if_neg hs, if_neg (Nat.not_le.mpr hlt), pinsertFrom_block hb hblock] at hinsert
      cases hinsert
  · intro hor m old hread
    rw [pread_eq h] at hread
    obtain rfl := Option.some.inj hread
    have hlength : (content m v.buffers).length = v.totalSize := (length_content h.buffers).trans h.totalSize.symm
    obtain ⟨v', m', hinsert, hv', hcontent⟩ := pinsert_at h ho hor m
    refine ⟨v', m', hinsert, ?_, by rw [pread_eq hv', hcontent]⟩
    rw [hv'.totalSize, ← length_content (m := m') hv'.buffers, hcontent, List.length_append, List.length_append, List.length_take,
      List.length_drop]
    omega

theorem inserts_iff_own : ({ buffers := [{ data := [7, 8, 9], capacity := 3, size := 3 }], totalSize := 3 } : VirtualBuffer).Inserts [1, 2] 1 ↔
    ([1, 2] : Bytes) = [] ∨ ∀ h, holder [{ data := [7, 8, 9], capacity := 3, size := 3 }] 1 = some h → h.1.block = none :=
  inserts_iff ⟨fun b hb => by rw [List.mem_singleton.mp hb]; exact fun _ => Nat.le_refl _, rfl⟩ (by decide)

/-- Nothing can be inserted in front of two bytes of a block. -/
theorem not_inserts : ¬∀ (v : VirtualBuffer) (s : Bytes) (offset : Nat), v.Sound → offset ≤ v.totalSize → v.Inserts s offset := by
  intro hall
  have hsound : ({ buffers := [{ block := some 100, size := 2 }], totalSize := 2 } : VirtualBuffer).Sound :=
    ⟨fun b hb => by rw [List.mem_singleton.mp hb]; exact nofun, rfl⟩
  obtain ⟨v', m', hinsert, -⟩ := hall _ [1] 0 hsound (by decide) (fun _ => 0) [0, 0] rfl
  cases hinsert

end VirtualBuffer
end Snapwebsites.Snapdatabase.Data
