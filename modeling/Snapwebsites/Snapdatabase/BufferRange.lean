import Snapwebsites.Snapdatabase.BufferErase

/-! # Within a virtual buffer

Writing within a virtual buffer leaves the buffers as they are but for what they hold, so what the operations ask of the places of a
buffer is still so for the next one. -/

namespace Snapwebsites.Snapdatabase.Data

/-! ### Buffers that are alike -/

section Alike
variable {m : Memory} {b c : Vbuf} {l l' : List Vbuf} {s : Bytes} {o n p : Nat} {h : Vbuf × Nat} {a : Reference}

theorem alike_trans {r : List Vbuf} (h : List.Forall₂ Vbuf.Alike l l') (h' : List.Forall₂ Vbuf.Alike l' r) : List.Forall₂ Vbuf.Alike l r := by
  induction h generalizing r with
  | nil => exact h'
  | cons hb _ ih =>
    obtain _ | ⟨hc, hrest⟩ := h'
    exact .cons ⟨hc.block.trans hb.block, hc.offset.trans hb.offset, hc.size.trans hb.size, hc.length.trans hb.length⟩ (ih hrest)

theorem forall_alike {q : Vbuf → Prop} (hq : ∀ {b c}, Vbuf.Alike b c → q b → q c) (h : List.Forall₂ Vbuf.Alike l l') (hl : ∀ b ∈ l, q b) :
    ∀ b ∈ l', q b := by
  induction h with
  | nil => exact hl
  | cons hb _ ih =>
    obtain ⟨hfirst, hrest⟩ := List.forall_mem_cons.mp hl
    exact List.forall_mem_cons.mpr ⟨hq hb hfirst, ih hrest⟩

theorem Vbuf.write_alike (hb : b.Sound) (hn : o + s.length ≤ b.size) : b.Alike (b.write o s m).1 := by
  unfold Vbuf.write
  split
  · exact .refl b
  · rename_i hown
    exact ⟨rfl, rfl, rfl, length_memcpy (hn.trans (hb hown))⟩

/-- The loop of `pwrite()` within the buffers. -/
theorem pwriteFrom_alike (hl : ∀ b ∈ l, b.Sound) (hn : o + s.length ≤ sizes l) :
    List.Forall₂ Vbuf.Alike l (VirtualBuffer.pwriteFrom l s o m).1.1 ∧ (VirtualBuffer.pwriteFrom l s o m).2 = [] := by
  induction l generalizing s o m with
  | nil =>
    rw [sizes_nil] at hn
    have hs : s = [] := List.length_eq_zero_iff.mp (by omega)
    exact ⟨.nil, hs⟩
  | cons b l ih =>
    obtain ⟨hb, hrest⟩ := List.forall_mem_cons.mp hl
    have hsame : List.Forall₂ Vbuf.Alike l l := List.forall₂_same.mpr fun b _ => .refl b
    rw [sizes_cons] at hn
    rw [VirtualBuffer.pwriteFrom]
    rcases Nat.lt_or_ge o b.size with hin | hout
    · rw [if_neg (Nat.not_le.mpr hin)]
      by_cases hlong : s.length > b.size - o
      · obtain ⟨halike, hnil⟩ := ih (s := s.drop (b.size - o)) (o := 0) (m := (b.write o (s.take (b.size - o)) m).2) hrest
          (by rw [List.length_drop]; omega)
        dsimp only
        rw [if_pos hlong, if_neg (by omega)]
        exact ⟨.cons (Vbuf.write_alike hb (by rw [List.length_take]; omega)) halike, hnil⟩
      · dsimp only
        rw [if_neg hlong, if_pos (Nat.sub_self _)]
        exact ⟨.cons (Vbuf.write_alike hb (by rw [List.length_take]; omega)) hsame, rfl⟩
    · rw [if_pos hout]
      obtain ⟨halike, hnil⟩ := ih (s := s) (o := o - b.size) (m := m) hrest (by omega)
      exact ⟨.cons (.refl b) halike, hnil⟩

theorem holder_alike (hl : List.Forall₂ Vbuf.Alike l l') (hp : holder l' p = some h) :
    ∃ b, holder l p = some (b, h.2) ∧ b.Alike h.1 := by
  induction hl generalizing p with
  | nil => cases hp
  | @cons b c l l' hb _ ih =>
    rcases Nat.lt_or_ge p c.size with hin | hout
    · rw [holder_here hin] at hp
      obtain rfl := Option.some.inj hp
      exact ⟨b, holder_here (hb.size ▸ hin), hb⟩
    · rw [holder_behind hout] at hp
      obtain ⟨d, hd, halike⟩ := ih hp
      exact ⟨d, by rw [holder_behind (hb.size ▸ hout), ← hb.size, hd], halike⟩

theorem place_alike (hl : List.Forall₂ Vbuf.Alike l l') (hp : place l' p = some a) : place l p = some a := by
  obtain ⟨h, hh, ha⟩ := Option.bind_eq_some_iff.mp hp
  obtain ⟨b, hb, halike⟩ := holder_alike hl hh
  rw [place, hb, Option.bind_some]
  dsimp only
  rw [← halike.block, ← halike.offset]
  exact ha

/-- A buffer among others stands where another one stood that is like it. -/
theorem split_alike {front back : List Vbuf} (hl : List.Forall₂ Vbuf.Alike l (front ++ b :: back)) :
    ∃ front' c back', l = front' ++ c :: back' ∧ List.Forall₂ Vbuf.Alike front' front ∧ c.Alike b := by
  induction front generalizing l with
  | nil =>
    obtain _ | ⟨hb, hback⟩ := hl
    exact ⟨[], _, _, rfl, .nil, hb⟩
  | cons d front ih =>
    obtain _ | ⟨hd, hrest⟩ := hl
    obtain ⟨front', c, back', rfl, hfront, hb⟩ := ih hrest
    exact ⟨_ :: front', c, back', rfl, .cons hd hfront, hb⟩

theorem Inside.alike (h : Inside l n o) (hl : List.Forall₂ Vbuf.Alike l l') : Inside l' n o := by
  rintro front b back rfl hlt hin
  obtain ⟨front', c, back', rfl, hfront, hb⟩ := split_alike hl
  have hc := h front' c back' rfl
  rw [← sizes_alike hfront, ← hb.size, ← hb.block] at hc
  exact hc hlt hin

theorem Alone.alike {first : Bool} (h : Alone first l n o) (hl : List.Forall₂ Vbuf.Alike l l') : Alone first l' n o := by
  rintro front b back rfl hpos hle hlt
  obtain ⟨front', c, back', rfl, hfront, hb⟩ := split_alike hl
  have hc := h front' c back' rfl
  rw [← sizes_alike hfront, ← hb.size] at hc
  obtain ⟨hfirst, hzero, hall⟩ := hc hpos hle hlt
  exact ⟨hfirst, hzero, forall_alike (fun hd hne => by rwa [hd.size]) hfront hall⟩

end Alike

theorem holder_mem {l : List Vbuf} {p : Nat} {h : Vbuf × Nat} (hp : holder l p = some h) : h.1 ∈ l := by
  induction l generalizing p with
  | nil => cases hp
  | cons b l ih =>
    rcases Nat.lt_or_ge p b.size with hin | hout
    · rw [holder_here hin] at hp
      rw [← Option.some.inj hp]
      exact List.mem_cons_self
    · rw [holder_behind hout] at hp
      exact List.mem_cons_of_mem _ (ih hp)

/-! ### Insertions -/

/-- The bytes of blocks in `l'` are ones of `l`, and those in front of an offset, and behind it, stay there. -/
def Kept (l l' : List Vbuf) (o : Nat) : Prop :=
  ∀ p h, holder l' p = some h → h.1.block ≠ none →
    ∃ q b, holder l q = some (b, h.2) ∧ b.block = h.1.block ∧ b.offset = h.1.offset ∧ (p < o → q = p) ∧ (o ≤ p → o ≤ q)

section Kept
variable {m : Memory} {b : Vbuf} {l l' : List Vbuf} {s : Bytes} {o p : Nat}

theorem Kept.refl (l : List Vbuf) (o : Nat) : Kept l l o := fun p h hp _ => ⟨p, h.1, hp, rfl, rfl, fun _ => rfl, id⟩

theorem Kept.cons (h : Kept l l' o) (b : Vbuf) : Kept (b :: l) (b :: l') (o + b.size) := by
  intro p h' hp hblock
  rcases Nat.lt_or_ge p b.size with hin | hout
  · rw [holder_here hin] at hp
    obtain rfl := Option.some.inj hp
    exact ⟨p, b, holder_here hin, rfl, rfl, fun _ => rfl, id⟩
  · rw [holder_behind hout] at hp
    obtain ⟨q, c, hq, hc, hoffset, hbefore, hbehind⟩ := h _ _ hp hblock
    refine ⟨q + b.size, c, ?_, hc, hoffset, fun hlt => ?_, fun hge => ?_⟩
    · rw [holder_behind (Nat.le_add_left ..), Nat.add_sub_cancel]
      exact hq
    · rw [hbefore (by omega), Nat.sub_add_cancel hout]
    · exact Nat.add_le_add_right (hbehind (by omega)) _

theorem pinsertFrom_kept (h : VirtualBuffer.pinsertFrom l s o = .ok (some l')) : Kept l l' o := by
  induction l generalizing o l' with
  | nil => cases h
  | cons b l ih =>
    rw [VirtualBuffer.pinsertFrom] at h
    split at h
    · rename_i ho
      cases hrest : VirtualBuffer.pinsertFrom l s (o - b.size) with
      | error => rw [hrest] at h; cases h
      | ok r =>
        rw [hrest] at h
        obtain ⟨l'', rfl, rfl⟩ := Option.map_eq_some_iff.mp (Except.ok.inj h)
        have hkept := (ih hrest).cons b
        rwa [Nat.sub_add_cancel ho] at hkept
    · rename_i ho
      split at h
      · cases h
      · rename_i hown
        obtain rfl := Option.some.inj (Except.ok.inj h)
        intro p h' hp hblock
        rw [Option.not_isSome_iff_eq_none] at hown
        rcases Nat.lt_or_ge p (b.size + s.length) with hin | hout
        · rw [holder_here hin] at hp
          obtain rfl := Option.some.inj hp
          exact absurd hown hblock
        · rw [holder_behind hout] at hp
          refine ⟨p - s.length, h'.1, ?_, rfl, rfl, fun hlt => by omega, fun _ => by omega⟩
          rw [holder_behind (by omega), Nat.sub_sub, Nat.add_comm s.length]
          exact hp

theorem pwriteFrom_behind (h : sizes l ≤ o) (s : Bytes) (m : Memory) : VirtualBuffer.pwriteFrom l s o m = ((l, m), s) := by
  induction l generalizing o with
  | nil => rfl
  | cons b l ih =>
    rw [sizes_cons] at h
    rw [VirtualBuffer.pwriteFrom, if_pos (by omega)]
    dsimp only
    rw [ih (by omega)]

theorem kept_append {back : List Vbuf} (h : ∀ b ∈ back, b.block = none) (l : List Vbuf) (o : Nat) : Kept l (l ++ back) o := by
  induction l generalizing o with
  | nil =>
    intro p h' hp hblock
    exact absurd (h _ (holder_mem hp)) hblock
  | cons b l ih =>
    intro p h' hp hblock
    rcases Nat.lt_or_ge p b.size with hin | hout
    · rw [List.cons_append, holder_here hin] at hp
      obtain rfl := Option.some.inj hp
      exact ⟨p, b, holder_here hin, rfl, rfl, fun _ => rfl, id⟩
    · rw [List.cons_append, holder_behind hout] at hp
      obtain ⟨q, c, hq, hc, hoffset, hbefore, -⟩ := ih p.succ _ _ hp hblock
      have hqp := hbefore (by omega)
      refine ⟨p, c, by rw [holder_behind hout, ← hqp]; exact hq, hc, hoffset, fun _ => rfl, id⟩

theorem holder_append {h : Vbuf × Nat} (hp : holder l p = some h) (back : List Vbuf) : holder (l ++ back) p = some h := by
  induction l generalizing p with
  | nil => cases hp
  | cons b l ih =>
    rcases Nat.lt_or_ge p b.size with hin | hout
    · rw [holder_here hin] at hp
      rw [List.cons_append, holder_here hin, hp]
    · rw [holder_behind hout] at hp
      rw [List.cons_append, holder_behind hout, ih hp]

/-- What is written behind the end is the buffer's own. -/
theorem grow_kept (l : List Vbuf) (s : Bytes) (o : Nat) : Kept l (VirtualBuffer.grow l s) o := by
  have happend : ∀ r s, ∃ back : List Vbuf, VirtualBuffer.appendRest r s = r ++ back ∧ ∀ b ∈ back, b.block = none := fun r s => by
    unfold VirtualBuffer.appendRest
    split
    · exact ⟨[], (List.append_nil _).symm, nofun⟩
    · exact ⟨_, rfl, fun b hb => by rw [List.mem_singleton.mp hb]⟩
  unfold VirtualBuffer.grow
  split
  · exact .refl l o
  · split
    · rename_i b hlast
      have hsplit : l = l.dropLast ++ [b] := (List.dropLast_append_getLast? b hlast).symm
      obtain ⟨back, hback, hown⟩ := happend (l.dropLast ++ [(VirtualBuffer.growLast b s).1]) (VirtualBuffer.growLast b s).2
      rw [hback]
      by_cases hgrow : b.block = none ∧ b.capacity - b.size > 0
      · have hlast : (VirtualBuffer.growLast b s).1.block = none := by
          rw [VirtualBuffer.growLast, if_pos hgrow]
          exact hgrow.1
        rw [List.append_assoc]
        intro p h' hp hblock
        obtain ⟨q, c, hq, hc⟩ := kept_append (List.forall_mem_cons.mpr ⟨hlast, hown⟩) l.dropLast o p h' hp hblock
        refine ⟨q, c, ?_, hc⟩
        rw [hsplit]
        exact holder_append hq [b]
      · rw [VirtualBuffer.growLast, if_neg hgrow, ← hsplit]
        exact kept_append hown l o
    · obtain ⟨back, hback, hown⟩ := happend l s
      rw [hback]
      exact kept_append hown l o

end Kept

/-! ### One operation after another -/

namespace VirtualBuffer
variable {v w : VirtualBuffer} {m : Memory} {s : Bytes} {offset n : Nat}

/-- Bytes that are all the buffer's own can be written. -/
theorem writable_own (h : ∀ b ∈ v.buffers, b.block = none) : v.Writable offset n where
  straight p _ _ b hb hblock := absurd (h _ (holder_mem hb)) hblock
  apart p _ _ a hp := by
    obtain ⟨b, hb, ha⟩ := Option.bind_eq_some_iff.mp hp
    rw [h _ (holder_mem hb)] at ha
    cases ha

theorem Writable.alike (h : v.Writable offset n) (hw : List.Forall₂ Vbuf.Alike v.buffers w.buffers) : w.Writable offset n where
  straight p hle hlt b hb hblock := by
    obtain ⟨c, hc, halike⟩ := holder_alike hw hb
    rw [halike.offset]
    exact h.straight p hle hlt _ hc (halike.block ▸ hblock)
  apart p hle hlt a hp q hq := h.apart p hle hlt a (place_alike hw hp) q (place_alike hw hq)

/-- Writing within the buffer. -/
theorem pwrite_within (h : v.Sound) (hin : offset + s.length ≤ v.totalSize) (hw : v.Writable offset s.length) (m : Memory) :
    ∃ v' m', v.pwrite m s offset false = some (v', m') ∧ v'.Sound ∧ v'.totalSize = v.totalSize ∧
      List.Forall₂ Vbuf.Alike v.buffers v'.buffers ∧ content m' v'.buffers = memcpy (content m v.buffers) offset s := by
  by_cases hs : s = []
  · subst hs
    refine ⟨v, m, if_pos rfl, h, rfl, List.forall₂_same.mpr fun b _ => .refl b, ?_⟩
    simp [memcpy]
  · obtain ⟨halike, hnil⟩ := pwriteFrom_alike (m := m) h.buffers (h.totalSize ▸ hin)
    refine ⟨{ buffers := (pwriteFrom v.buffers s offset m).1.1, totalSize := v.totalSize, modified := true },
      (pwriteFrom v.buffers s offset m).1.2, ?_, h.alike halike rfl, rfl, halike, ?_⟩
    · have hthere : v.isDataAvailable offset s.length = true := decide_eq_true hin
      rw [pwrite, if_neg hs, hthere, if_neg (by simp)]
      dsimp only
      rw [hnil]
      rfl
    · have hcontent := content_wrote h (by omega) m _ s fun p a hp => hw.memory_placed h m hp
      rwa [List.drop_of_length_le (by omega), List.append_nil] at hcontent

theorem Writable.kept {x : Nat} (h : v.Writable offset n) (hx : offset + n ≤ x) (hw : Kept v.buffers w.buffers x) : w.Writable offset n := by
  have hplace : ∀ {p a}, place w.buffers p = some a → ∃ q, place v.buffers q = some a ∧ (p < x → q = p) ∧ (x ≤ p → x ≤ q) := fun {p a} hp => by
    obtain ⟨b, hb, ha⟩ := Option.bind_eq_some_iff.mp hp
    have hblock : b.1.block ≠ none := fun hnone => by
      rw [hnone] at ha
      cases ha
    obtain ⟨q, c, hq, hc, hoffset, hpq⟩ := hw _ _ hb hblock
    refine ⟨q, ?_, hpq⟩
    rw [place, hq, Option.bind_some, hc, hoffset]
    exact ha
  constructor
  · intro p hle hlt b hb hblock
    obtain ⟨q, c, hq, hc, hoffset, hbefore, -⟩ := hw _ _ hb hblock
    obtain rfl := hbefore (by omega)
    rw [← hoffset]
    exact h.straight q hle hlt _ hq (hc ▸ hblock)
  · intro p hle hlt a hp q hq
    obtain ⟨p', hp', hsame, -⟩ := hplace hp
    obtain rfl := hsame (by omega)
    obtain ⟨q', hq', hbefore, hbehind⟩ := hplace hq
    have heq := h.apart p' hle hlt a hp' q' hq'
    rcases Nat.lt_or_ge q x with hqx | hqx
    · exact (hbefore hqx).symm.trans heq
    · have hge := hbehind hqx
      omega

/-- Bytes in front of an insertion can be written as before. -/
theorem pinsert_kept {m' : Memory} (h : v.Sound) (hinsert : v.pinsert m s offset = some (w, m')) : Kept v.buffers w.buffers offset := by
  unfold pinsert at hinsert
  split at hinsert
  · obtain ⟨rfl, -⟩ := Prod.mk.inj (Option.some.inj hinsert)
    exact .refl _ _
  · split at hinsert
    · rename_i hs hge
      rw [pwrite, if_neg hs, if_neg (by simp)] at hinsert
      dsimp only at hinsert
      rw [pwriteFrom_behind (h.totalSize ▸ hge)] at hinsert
      obtain ⟨rfl, -⟩ := Prod.mk.inj (Option.some.inj hinsert)
      exact grow_kept _ _ _
    · rename_i hs hlt
      obtain ⟨b, hb⟩ := exists_holder (h.totalSize ▸ Nat.lt_of_not_le hlt)
      obtain ⟨r, hr, heq⟩ := Option.map_eq_some_iff.mp hinsert
      obtain ⟨rfl, -⟩ := Prod.mk.inj heq
      by_cases hown : b.1.block = none
      · obtain ⟨l', hl', -⟩ := pinsertFrom_own (s := s) h.buffers hb hown
        rw [hl'] at hr
        obtain rfl := Option.some.inj hr
        exact pinsertFrom_kept hl'
      · rw [pinsertFrom_block hb hown] at hr
        cases hr

theorem perase_at (h : v.Sound) (hn : 0 < n) (hin : offset + n ≤ v.totalSize) (hinside : Inside v.buffers n offset)
    (halone : Alone true v.buffers n offset) (m : Memory) : ∃ v' k, v.perase n offset = some (v', k) ∧ v'.Sound ∧
      content m v'.buffers = (content m v.buffers).take offset ++ (content m v.buffers).drop (offset + n) := by
  have hrange : v.inRange n offset = n := Nat.min_eq_left (by omega)
  have htaken := (taken_iff h.buffers hn (h.totalSize ▸ hin)).mpr ⟨hinside, halone⟩
  obtain ⟨r, hr, hcontent⟩ := htaken _ (List.forall₂_same.mpr fun b _ => .refl b) m
  obtain ⟨hsound, hsizes⟩ := peraseRest_sound h.buffers hr
  have hsome : 0 < v.inRange n offset := by omega
  have herase := perase_eq hsome
  rw [hrange, hr] at herase
  exact ⟨_, _, herase, ⟨hsound, Nat.sub_eq_of_eq_add (h.totalSize.trans hsizes.symm)⟩, hcontent⟩

end VirtualBuffer

end Snapwebsites.Snapdatabase.Data
