import Snapwebsites.SnapUri.Relax

/-! # What decoding leaves as it is

In the relaxed mode a text never grows. Its weight, the number of its characters with each `%` and each `+` counted twice, gets
smaller with every `+` and every `%` that has a digit behind it (`relaxFrom_shrinks`), and a text without them is left as it is. -/

namespace Snapwebsites
open QString

namespace SnapUri

/-- Bytes without a `+`, and without a `%` that has a digit behind it. -/
structure Unescaped (b : Bytes) : Prop where
  plus : 0x2B ∉ b
  percent : ∀ s, 0x25 :: s <:+ b → escapeAt s = none

def byteWeight (b : Bytes) : Nat := b.length + b.count 0x25 + b.count 0x2B

def weight (s : QString) : Nat := s.length + s.count '%' + s.count '+'

variable {b s : Bytes} {n : Nat}

/-! ### Bytes -/

theorem unescaped_nil : Unescaped [] := ⟨List.not_mem_nil, fun s hs => by simp at hs⟩

theorem Unescaped.cons {x : UInt8} (h : Unescaped s) (hplus : x ≠ 0x2B) (hpercent : x = 0x25 → escapeAt s = none) :
    Unescaped (x :: s) := by
  refine ⟨fun hmem => ?_, fun t ht => ?_⟩
  · rcases List.mem_cons.mp hmem with heq | hmem
    · exact hplus heq.symm
    · exact h.plus hmem
  · rcases List.suffix_cons_iff.mp ht with heq | ht
    · obtain ⟨hx, rfl⟩ := List.cons.inj heq
      exact hpercent hx.symm
    · exact h.percent t ht

theorem byteWeight_cons (x : UInt8) (b : Bytes) :
    byteWeight (x :: b) = byteWeight b + 1 + (if x = 0x25 then 1 else 0) + (if x = 0x2B then 1 else 0) := by
  simp only [byteWeight, List.length_cons, List.count_cons, beq_iff_eq]
  omega

/-- A byte weighs at most two. -/
theorem byteWeight_cons_le (x : UInt8) (b : Bytes) : byteWeight (x :: b) ≤ byteWeight b + 2 := by
  rw [byteWeight_cons]
  split
  · rename_i hx
    rw [if_neg (by rw [hx]; decide)]
  · split <;> omega

theorem byteWeight_percent (b : Bytes) : byteWeight (0x25 :: b) = byteWeight b + 2 := by
  rw [byteWeight_cons, if_pos rfl, if_neg (by decide)]

theorem byteWeight_plus (b : Bytes) : byteWeight (0x2B :: b) = byteWeight b + 2 := by
  rw [byteWeight_cons, if_neg (by decide), if_pos rfl]

theorem byteWeight_cons_of_ne {x : UInt8} (hpercent : x ≠ 0x25) (hplus : x ≠ 0x2B) (b : Bytes) :
    byteWeight (x :: b) = byteWeight b + 1 := by
  rw [byteWeight_cons, if_neg hpercent, if_neg hplus]

theorem lt_byteWeight_cons (x : UInt8) (b : Bytes) : byteWeight b < byteWeight (x :: b) := by
  rw [byteWeight_cons]
  omega

/-- The bytes are left as they are, or something is decoded and they get lighter. -/
theorem relaxFrom_shrinks (n : Nat) (b : Bytes) :
    relaxFrom n b = b.drop n ∧ Unescaped (b.drop n) ∨ byteWeight (relaxFrom n b) < byteWeight (b.drop n) := by
  have hle : ∀ {a c : Bytes}, a = c ∧ Unescaped c ∨ byteWeight a < byteWeight c → byteWeight a ≤ byteWeight c := by
    rintro a c (⟨rfl, -⟩ | hlt)
    · exact le_refl _
    · exact hlt.le
  fun_induction relaxFrom n b with
  | case1 n => simpa [relaxFrom] using unescaped_nil
  | case2 n x s ih => exact ih
  | case3 s => exact .inr (lt_of_le_of_lt (Nat.zero_le _) (lt_byteWeight_cons _ _))
  | case4 s _ ih =>
    have hrest := hle ih
    right
    rw [List.drop_zero] at hrest ⊢
    rw [byteWeight_cons_of_ne (by decide) (by decide), byteWeight_plus]
    omega
  | case5 s he _ _ ih =>
    simp only [List.drop_zero] at ih ⊢
    rcases ih with ⟨heq, hs⟩ | hlt
    · exact .inl ⟨by rw [heq], hs.cons (by decide) fun _ => he⟩
    · right
      rw [byteWeight_cons, byteWeight_cons]
      omega
  | case6 s h he _ _ ih =>
    have hrest := hle ih
    have hplus : UInt8.ofNat (h * 16) ≠ 0x2B := fun heq => by
      have := congrArg UInt8.toNat heq
      rw [UInt8.toNat_ofNat'] at this
      have hbyte : (0x2B : UInt8).toNat = 43 := rfl
      omega
    right
    rw [List.drop_zero] at hrest ⊢
    rw [byteWeight_cons_of_ne (value_ne_percent h) hplus, byteWeight_percent]
    omega
  | case7 s h l he _ _ ih =>
    have hrest := hle ih
    obtain ⟨x, y, rest, rfl, -, -⟩ := escapeAt_whole he
    have hout := byteWeight_cons_le (UInt8.ofNat (h * 16 + l)) (relaxFrom 2 (x :: y :: rest))
    have hx := lt_byteWeight_cons x (y :: rest)
    have hy := lt_byteWeight_cons y rest
    right
    simp only [List.drop_zero, List.drop_succ_cons] at hrest ⊢
    rw [byteWeight_percent]
    omega
  | case8 x s h0 hplus hpercent ih =>
    simp only [List.drop_zero] at ih ⊢
    rcases ih with ⟨heq, hs⟩ | hlt
    · exact .inl ⟨by rw [heq], hs.cons hplus fun hx => absurd hx hpercent⟩
    · right
      rw [byteWeight_cons, byteWeight_cons]
      omega

/-! ### Texts -/

theorem count_utf8 {x : UInt8} (hx : x.toNat < 128) (s : QString) : s.utf8.count x = s.count (Char.ofNat x.toNat) := by
  rw [← count_decodeUtf8 hx, decodeUtf8_utf8]

theorem length_utf8_ascii {s : QString} (hs : ∀ c ∈ s, c.toNat < 128) : s.utf8.length = s.length := by
  rw [utf8_ascii hs, List.length_map]

theorem byteWeight_utf8 {s : QString} (hs : ∀ c ∈ s, c.toNat < 128) : byteWeight s.utf8 = weight s := by
  have hpercent : (0x25 : UInt8).toNat < 128 := by decide
  have hplus : (0x2B : UInt8).toNat < 128 := by decide
  rw [byteWeight, length_utf8_ascii hs, count_utf8 hpercent, count_utf8 hplus]
  rfl

theorem weight_decodeUtf8_le (b : Bytes) : weight (decodeUtf8 0 b) ≤ byteWeight b := by
  have hpercent : (decodeUtf8 0 b).count '%' = b.count 0x25 := count_decodeUtf8 (x := 0x25) (by decide) b
  have hplus : (decodeUtf8 0 b).count '+' = b.count 0x2B := count_decodeUtf8 (x := 0x2B) (by decide) b
  have hlength := (decodeUtf8_spec 0 b).1
  rw [weight, byteWeight, hpercent, hplus]
  omega

theorem weight_le_of_sublist {s t : QString} (h : s.Sublist t) : weight s ≤ weight t := by
  have hlength := h.length_le
  have hpercent := h.count_le '%'
  have hplus := h.count_le '+'
  rw [weight, weight]
  omega

theorem weight_urldecodeRelax_le_byteWeight (s : QString) : weight (urldecodeRelax s) ≤ byteWeight (relaxFrom 0 s.utf8) := by
  have htake := List.takeWhile_sublist (l := relaxFrom 0 s.utf8) (· ≠ 0)
  have hlength := htake.length_le
  have hpercent := htake.count_le 0x25
  have hplus := htake.count_le 0x2B
  have hbytes := weight_decodeUtf8_le ((relaxFrom 0 s.utf8).takeWhile (· ≠ 0))
  refine (weight_le_of_sublist (fromUtf8_sublist _)).trans (hbytes.trans ?_)
  rw [byteWeight, byteWeight]
  omega

/-- A text of ASCII does not get heavier. -/
theorem weight_urldecodeRelax_le {s : QString} (hs : ∀ c ∈ s, c.toNat < 128) : weight (urldecodeRelax s) ≤ weight s := by
  refine (weight_urldecodeRelax_le_byteWeight s).trans ?_
  rw [← byteWeight_utf8 hs]
  rcases relaxFrom_shrinks 0 s.utf8 with ⟨heq, -⟩ | hlt
  · rw [heq, List.drop_zero]
  · exact hlt.le

/-- A text of ASCII that gets no lighter has nothing to decode. -/
theorem unescaped_of_weight_le {s : QString} (hs : ∀ c ∈ s, c.toNat < 128) (h : weight s ≤ weight (urldecodeRelax s)) :
    Unescaped s.utf8 := by
  rcases relaxFrom_shrinks 0 s.utf8 with ⟨-, hu⟩ | hlt
  · exact hu
  · have hle := h.trans (weight_urldecodeRelax_le_byteWeight s)
    rw [← byteWeight_utf8 hs] at hle
    exact absurd hlt (Nat.not_lt.mpr hle)

/-- A text with nothing to decode is left as it is. -/
theorem urldecodeRelax_of_unescaped {s : QString} (hs : ∀ c ∈ s, c.toNat < 128) (hnul : nul ∉ s) (h : Unescaped s.utf8) :
    urldecodeRelax s = s := by
  have hloop : relaxFrom 0 s.utf8 = s.utf8 := by
    have hzero := zero_notMem_utf8 hnul
    clear hs hnul
    generalize s.utf8 = b at *
    induction b with
    | nil => rfl
    | cons x b ih =>
      have hb : Unescaped b := ⟨fun hmem => h.plus (List.mem_cons_of_mem _ hmem), fun s hs => h.percent s (hs.trans (List.suffix_cons x b))⟩
      have htail := ih hb fun hmem => hzero (List.mem_cons_of_mem _ hmem)
      have hx0 : x ≠ 0 := fun hx => hzero (hx ▸ List.mem_cons_self)
      have hplus : x ≠ 0x2B := fun hx => h.plus (hx ▸ List.mem_cons_self)
      rw [relaxFrom, if_neg hx0, if_neg hplus, htail]
      split
      · rename_i hx
        rw [hx, h.percent b (hx ▸ List.suffix_refl _)]
      · rfl
  rw [urldecodeRelax, hloop, fromCString_utf8 hnul]
  refine fromUtf8_eq_self fun hbom => ?_
  have := hs bom (List.mem_of_mem_head? hbom)
  exact absurd this (by decide)

end SnapUri
end Snapwebsites
