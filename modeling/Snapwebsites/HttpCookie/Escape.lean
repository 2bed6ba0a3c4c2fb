import Snapwebsites.HttpCookie.Cookie
import Snapwebsites.SnapUri.Shrink

/-! # Escaped bytes

A byte of a value that is not written as it is becomes two `%` and its digits, so that the reader finds a `%` in front of the byte.
The direct characters in front of the first escaped byte tell the value from what is read: there are as many of them in the value
as its direct prefix is long, and another number, or other ones, in what is read (`decoded_ne`). -/

namespace Snapwebsites
open QString SnapUri

/-! ### Decoding in pieces -/

namespace SnapUri

variable {b p s t : Bytes} {n h l : Nat}

theorem escapeAt_append_percent (s t : Bytes) : escapeAt (s ++ 0x25 :: t) = escapeAt s := by
  match s with
  | [] => cases t <;> rfl
  | [x] => rfl
  | x :: y :: s => rfl

theorem escapeAt_append (he : escapeAt s = some (h, some l)) (t : Bytes) : escapeAt (s ++ t) = some (h, some l) := by
  obtain ⟨x, y, rest, rfl, -, -⟩ := escapeAt_whole he
  exact he

theorem relaxFrom_percent_none (he : escapeAt s = none) : relaxFrom 0 (0x25 :: s) = 0x25 :: relaxFrom 0 s := by
  rw [relaxFrom, if_neg (by decide), if_neg (by decide), if_pos rfl, he]

theorem relaxFrom_percent_whole (he : escapeAt s = some (h, some l)) :
    relaxFrom 0 (0x25 :: s) = UInt8.ofNat (h * 16 + l) :: relaxFrom 2 s := by
  rw [relaxFrom, if_neg (by decide), if_neg (by decide), if_pos rfl, he]

/-- No escape goes on behind another `%`. -/
theorem relaxFrom_append (hp : 0 ∉ p) (hn : n ≤ p.length) (t : Bytes) :
    relaxFrom n (p ++ 0x25 :: t) = relaxFrom n p ++ relaxFrom 0 (0x25 :: t) := by
  fun_induction relaxFrom n p with
  | case1 n =>
    rw [Nat.le_zero.mp hn]
    rfl
  | case2 n x s ih => exact ih (fun hmem => hp (List.mem_cons_of_mem _ hmem)) (Nat.le_of_succ_le_succ hn)
  | case3 s => exact absurd List.mem_cons_self hp
  | case4 s _ ih =>
    rw [List.cons_append, relaxFrom, if_neg (by decide), if_pos rfl, List.cons_append,
      ih (fun hmem => hp (List.mem_cons_of_mem _ hmem)) (Nat.zero_le _)]
  | case5 s he _ _ ih =>
    rw [List.cons_append, relaxFrom, if_neg (by decide), if_neg (by decide), if_pos rfl, escapeAt_append_percent, he,
      List.cons_append, ih (fun hmem => hp (List.mem_cons_of_mem _ hmem)) (Nat.zero_le _)]
  | case6 s h he _ _ ih =>
    rw [List.cons_append, relaxFrom, if_neg (by decide), if_neg (by decide), if_pos rfl, escapeAt_append_percent, he,
      List.cons_append, ih (fun hmem => hp (List.mem_cons_of_mem _ hmem)) (Nat.zero_le _)]
  | case7 s h l he _ _ ih =>
    have hlength : 2 ≤ s.length := by
      obtain ⟨x, y, rest, rfl, -, -⟩ := escapeAt_whole he
      exact Nat.le_add_left 2 rest.length
    rw [List.cons_append, relaxFrom, if_neg (by decide), if_neg (by decide), if_pos rfl, escapeAt_append_percent, he,
      List.cons_append, ih (fun hmem => hp (List.mem_cons_of_mem _ hmem)) hlength]
  | case8 x s h0 hplus hpercent ih =>
    rw [List.cons_append, relaxFrom, if_neg h0, if_neg hplus, if_neg hpercent, List.cons_append,
      ih (fun hmem => hp (List.mem_cons_of_mem _ hmem)) (Nat.zero_le _)]

/-- A whole escape is two bytes longer than its byte, everything else has the length of what it gives. -/
theorem length_relaxFrom (hb : 0 ∉ b) (n : Nat) : ∃ m, (relaxFrom n b).length + 2 * m = (b.drop n).length := by
  fun_induction relaxFrom n b with
  | case1 n => exact ⟨0, by simp⟩
  | case2 n x s ih => exact ih fun hmem => hb (List.mem_cons_of_mem _ hmem)
  | case3 s => exact absurd List.mem_cons_self hb
  | case7 s h l he _ _ ih =>
    obtain ⟨m, hm⟩ := ih fun hmem => hb (List.mem_cons_of_mem _ hmem)
    obtain ⟨x, y, rest, rfl, -, -⟩ := escapeAt_whole he
    refine ⟨m + 1, ?_⟩
    simp only [List.drop_zero, List.drop_succ_cons, List.length_cons] at hm ⊢
    omega
  | case4 s _ ih =>
    obtain ⟨m, hm⟩ := ih fun hmem => hb (List.mem_cons_of_mem _ hmem)
    refine ⟨m, ?_⟩
    simp only [List.drop_zero, List.length_cons] at hm ⊢
    omega
  | case5 s _ _ _ ih =>
    obtain ⟨m, hm⟩ := ih fun hmem => hb (List.mem_cons_of_mem _ hmem)
    refine ⟨m, ?_⟩
    simp only [List.drop_zero, List.length_cons] at hm ⊢
    omega
  | case6 s h _ _ _ ih =>
    obtain ⟨m, hm⟩ := ih fun hmem => hb (List.mem_cons_of_mem _ hmem)
    refine ⟨m, ?_⟩
    simp only [List.drop_zero, List.length_cons] at hm ⊢
    omega
  | case8 x s _ _ _ ih =>
    obtain ⟨m, hm⟩ := ih fun hmem => hb (List.mem_cons_of_mem _ hmem)
    refine ⟨m, ?_⟩
    simp only [List.drop_zero, List.length_cons] at hm ⊢
    omega

/-- Where no escape is whole, an equal sign in front comes from an equal sign. -/
theorem head_of_relaxFrom (hb : 0 ∉ b) (hlength : b.length ≤ (relaxFrom 0 b).length)
    (hhead : (relaxFrom 0 b).head? = some 0x3D) : b.head? = some 0x3D := by
  match b with
  | [] => cases hhead
  | x :: s =>
    have hs : 0 ∉ s := fun hmem => hb (List.mem_cons_of_mem _ hmem)
    have hx : x ≠ 0 := fun hx => hb (hx ▸ List.mem_cons_self)
    rw [relaxFrom, if_neg hx] at hhead hlength
    split at hhead
    · cases hhead
    · rename_i hplus
      rw [if_neg hplus] at hlength
      split at hhead
      · rename_i hpercent
        rw [if_pos hpercent] at hlength
        split at hhead
        · cases hhead
        · rename_i h _
          have hbyte := congrArg UInt8.toNat (Option.some.inj hhead)
          rw [UInt8.toNat_ofNat'] at hbyte
          have hequal : (0x3D : UInt8).toNat = 61 := rfl
          omega
        · rename_i h l he
          obtain ⟨y, z, rest, rfl, -, -⟩ := escapeAt_whole he
          obtain ⟨m, hm⟩ := length_relaxFrom hs 2
          rw [he] at hlength
          simp only [List.drop_succ_cons, List.drop_zero, List.length_cons] at hm hlength
          omega
      · exact hhead

end SnapUri

namespace HttpCookie

variable {b d p s t : Bytes} {x : UInt8}

/-! ### Direct characters -/

def isDirectChar (c : Char) : Bool := c.toNat < 128 && isDirect (UInt8.ofNat c.toNat)

theorem zero_notMem_of_isDirect (hd : ∀ x ∈ d, isDirect x = true) : 0 ∉ d := fun hmem => by
  have := hd 0 hmem
  exact absurd this (by decide)

theorem isDirectChar_byte (hx : x.toNat < 128) : isDirectChar (Char.ofNat x.toNat) = isDirect x := by
  rw [isDirectChar, toNat_ofNat_byte, UInt8.ofNat_toNat, decide_eq_true hx, Bool.true_and]

theorem decodeUtf8_ascii_cons (hx : x.toNat < 128) (b : Bytes) :
    decodeUtf8 0 (x :: b) = Char.ofNat x.toNat :: decodeUtf8 0 b := by
  have hchar := decodeUtf8_char (Char.ofNat x.toNat) b
  rwa [utf8EncodeChar_byte hx] at hchar

/-- A byte that is not direct does not start a direct character. -/
theorem decodeUtf8_cons_of_not_isDirect (hx : isDirect x = false) (b : Bytes) :
    ∃ c s, decodeUtf8 0 (x :: b) = c :: s ∧ isDirectChar c = false := by
  by_cases hascii : x.toNat < 128
  · exact ⟨_, _, decodeUtf8_ascii_cons hascii b, by rw [isDirectChar_byte hascii, hx]⟩
  · cases hc : ByteArray.utf8DecodeChar? (x :: b).toByteArray 0 with
    | none => exact ⟨_, _, by rw [decodeUtf8, hc], by decide⟩
    | some c =>
      refine ⟨_, _, by rw [decodeUtf8, hc], ?_⟩
      by_contra hdirect
      rw [Bool.not_eq_false, isDirectChar, Bool.and_eq_true, decide_eq_true_eq] at hdirect
      -- a character of ASCII is the first byte
      have hbyte : (UInt8.ofNat c.toNat).toNat = c.toNat := by
        rw [UInt8.toNat_ofNat', Nat.mod_eq_of_lt (by omega)]
      obtain ⟨rest, hrest⟩ := ByteArray.exists_of_utf8DecodeChar?_eq_some hc
      have hbytes := congrArg (fun a : ByteArray => a.data.toList) hrest
      simp only [ByteArray.data_append, Array.toList_append, List.data_toByteArray, utf8EncodeChar_ascii hdirect.1,
        List.singleton_append] at hbytes
      rw [(List.cons.inj hbytes).1] at hascii
      omega

/-- The direct characters in front of a text are the direct bytes in front of its bytes. -/
theorem takeWhile_decodeUtf8 (b : Bytes) :
    (decodeUtf8 0 b).takeWhile isDirectChar = (b.takeWhile isDirect).map fun x => Char.ofNat x.toNat := by
  induction b with
  | nil => rfl
  | cons x b ih =>
    cases hx : isDirect x with
    | true =>
      have hascii : x.toNat < 128 := by
        have := (lt_of_isDirect hx).2
        omega
      rw [decodeUtf8_ascii_cons hascii, List.takeWhile_cons_of_pos (by rw [isDirectChar_byte hascii, hx]), ih,
        List.takeWhile_cons_of_pos hx, List.map_cons]
    | false =>
      obtain ⟨c, s, hcs, hc⟩ := decodeUtf8_cons_of_not_isDirect hx b
      rw [hcs, List.takeWhile_cons_of_neg (by simp [hc]), List.takeWhile_cons_of_neg (by simp [hx]), List.map_nil]

theorem takeWhile_eq_of_decodeUtf8_eq (h : decodeUtf8 0 s = decodeUtf8 0 t) : s.takeWhile isDirect = t.takeWhile isDirect := by
  have hmap := takeWhile_decodeUtf8 s
  rw [h, takeWhile_decodeUtf8] at hmap
  refine (List.map_injective_iff.mpr fun x y hxy => ?_) hmap.symm
  have hnat := congrArg Char.toNat hxy
  rwa [toNat_ofNat_byte, toNat_ofNat_byte, UInt8.toNat_inj] at hnat

/-- The direct bytes in front end at a byte that is not direct. -/
theorem takeWhile_isDirect_append (hd : ∀ x ∈ d, isDirect x = true) (hx : isDirect x = false) (s : Bytes) :
    (d ++ x :: s).takeWhile isDirect = d := by
  rw [List.takeWhile_append_of_pos hd, List.takeWhile_cons_of_neg (by simp [hx]), List.append_nil]

/-- The direct bytes in front do not reach over a byte that is not direct. -/
theorem takeWhile_front (hb : b <+: s ++ x :: t) (hx : isDirect x = false) : b.takeWhile isDirect <+: s := by
  have hfront : b.takeWhile isDirect <+: s ++ x :: t := (List.takeWhile_prefix _).trans hb
  refine List.prefix_of_prefix_length_le hfront (List.prefix_append _ _) ?_
  by_contra! hlt
  have hget := hfront.getElem hlt
  rw [List.getElem_append_right (le_refl _)] at hget
  simp only [Nat.sub_self, List.getElem_cons_zero] at hget
  have hdirect := List.mem_takeWhile_imp (List.getElem_mem hlt)
  rw [hget, hx] at hdirect
  cases hdirect

theorem takeWhile_takeWhile_ne_zero (b : Bytes) : (b.takeWhile (· ≠ 0)).takeWhile isDirect = b.takeWhile isDirect := by
  induction b with
  | nil => rfl
  | cons x b ih =>
    by_cases hx : x = 0
    · subst hx
      rfl
    · rw [List.takeWhile_cons_of_pos (by simpa using hx), List.takeWhile_cons, List.takeWhile_cons, ih]

/-! ### An escaped byte is not read back -/

theorem escapedByte_digits : ∀ n < 256, (escapedByte (UInt8.ofNat n)).utf8.take 2 = [0x25, 0x25] ∧
    escapeAt ((escapedByte (UInt8.ofNat n)).utf8.drop 2) = if n < 128 then some (n / 16, some (n % 16)) else some (15, some 15) := by
  decide +kernel

/-- The reader finds a `%` and a byte that is not direct. -/
theorem relaxFrom_escapedByte (hx : isDirect x = false) (t : Bytes) :
    ∃ s y u, (escapedByte x).utf8 = 0x25 :: s ∧ relaxFrom 0 (0x25 :: (s ++ t)) = 0x25 :: y :: u ∧ isDirect y = false := by
  obtain ⟨htake, hdigits⟩ := escapedByte_digits x.toNat x.toNat_lt
  rw [UInt8.ofNat_toNat] at htake hdigits
  have hbytes : (escapedByte x).utf8 = 0x25 :: 0x25 :: (escapedByte x).utf8.drop 2 := by
    rw [← List.take_append_drop 2 (escapedByte x).utf8, htake]
    rfl
  have hpercent : ∀ s : Bytes, escapeAt (0x25 :: s) = none := fun s => by cases s <;> rfl
  have hread : ∀ {h l : Nat} (s : Bytes), escapeAt s = some (h, some l) →
      relaxFrom 0 (0x25 :: 0x25 :: s) = 0x25 :: UInt8.ofNat (h * 16 + l) :: relaxFrom 2 s := fun s hs => by
    rw [relaxFrom_percent_none (hpercent s), relaxFrom_percent_whole hs]
  split at hdigits
  · have hfirst := hread _ (escapeAt_append hdigits t)
    rw [Nat.div_add_mod' x.toNat 16, UInt8.ofNat_toNat] at hfirst
    exact ⟨_, x, _, hbytes, hfirst, hx⟩
  · exact ⟨_, 0xFF, _, hbytes, hread _ (escapeAt_append hdigits t), by decide⟩

/-- A byte order mark is three bytes. -/
theorem bytes_of_decodeUtf8_bom {s : QString} (h : decodeUtf8 0 b = bom :: s) :
    ∃ t, b = 0xEF :: 0xBB :: 0xBF :: t ∧ decodeUtf8 0 t = s := by
  cases b with
  | nil => cases h
  | cons x b =>
    cases hc : ByteArray.utf8DecodeChar? (x :: b).toByteArray 0 with
    | none =>
      rw [decodeUtf8, hc] at h
      exact absurd (List.cons.inj h).1 (by decide)
    | some c =>
      obtain ⟨rest, hrest⟩ := ByteArray.exists_of_utf8DecodeChar?_eq_some hc
      have hbytes := congrArg (fun a : ByteArray => a.data.toList) hrest
      simp only [ByteArray.data_append, Array.toList_append, List.data_toByteArray] at hbytes
      rw [hbytes, decodeUtf8_char] at h
      obtain ⟨rfl, hs⟩ := List.cons.inj h
      have hbom : String.utf8EncodeChar bom = [0xEF, 0xBB, 0xBF] := by decide
      exact ⟨_, by rw [hbytes, hbom]; rfl, hs⟩

/-- The direct bytes in front of a text that is read. Where a byte order mark is lost, there are three bytes less. -/
theorem takeWhile_of_fromCString {o v : Bytes} (hy : isDirect x = false)
    (h : fromCString (o ++ 0x25 :: x :: t) = decodeUtf8 0 v) :
    v.takeWhile isDirect = (o ++ 0x25 :: x :: t).takeWhile isDirect ∨ (v.takeWhile isDirect).length + 2 ≤ o.length := by
  have hfront : (o ++ 0x25 :: x :: t).takeWhile (· ≠ 0) <+: o ++ 0x25 :: x :: t := List.takeWhile_prefix _
  by_cases hbom : (decodeUtf8 0 ((o ++ 0x25 :: x :: t).takeWhile (· ≠ 0))).head? = some bom
  · right
    obtain ⟨s, hs⟩ := List.head?_eq_some_iff.mp hbom
    obtain ⟨b, hb, hdecode⟩ := bytes_of_decodeUtf8_bom hs
    rw [fromCString, hs, fromUtf8_bom, ← hdecode] at h
    rw [hb] at hfront
    rw [← takeWhile_eq_of_decodeUtf8_eq h]
    rcases o with _ | ⟨o₁, _ | ⟨o₂, _ | ⟨o₃, o⟩⟩⟩
    case cons.cons.cons =>
      simp only [List.cons_append, List.cons_prefix_cons] at hfront
      have hshort := (takeWhile_front (s := o ++ [0x25]) (by simpa using hfront.2.2.2) hy).length_le
      simp only [List.length_append, List.length_cons, List.length_nil] at hshort ⊢
      omega
    all_goals simp at hfront
  · left
    rw [fromCString, fromUtf8_eq_self hbom] at h
    rw [← takeWhile_eq_of_decodeUtf8_eq h, takeWhile_takeWhile_ne_zero]

/-- Whether equal signs were cut off in front or not, the bytes are not what is read of them and a `%`. -/
theorem ne_relaxFrom_dropWhile (hd : 0 ∉ d) : d ≠ relaxFrom 0 (d.dropWhile (· = 0x3D)) ++ [0x25] := by
  intro heq
  have hlength := congrArg List.length heq
  rw [List.length_append, List.length_singleton] at hlength
  match d, hd, heq, hlength with
  | c :: d, hd, heq, hlength =>
    have hd' : 0 ∉ d := fun hmem => hd (List.mem_cons_of_mem _ hmem)
    by_cases hc : c = 0x3D
    · subst hc
      have hcut : (0x3D :: d).dropWhile (· = 0x3D) = d.dropWhile (· = 0x3D) := rfl
      have hsuffix : d.dropWhile (· = 0x3D) <:+ d := List.dropWhile_suffix _
      have hzero : 0 ∉ d.dropWhile (· = 0x3D) := fun hmem => hd' (hsuffix.subset hmem)
      obtain ⟨m, hm⟩ := length_relaxFrom hzero 0
      rw [hcut] at heq hlength
      rw [List.drop_zero] at hm
      rw [List.length_cons] at hlength
      have hle := hsuffix.length_le
      have hhead : (relaxFrom 0 (d.dropWhile (· = 0x3D))).head? = some 0x3D := by
        cases ho : relaxFrom 0 (d.dropWhile (· = 0x3D)) with
        | nil =>
          rw [ho] at heq
          exact absurd (List.cons.inj heq).1 (by decide)
        | cons o₁ o =>
          rw [ho] at heq
          rw [← (List.cons.inj heq).1, List.head?_cons]
      have hfirst := head_of_relaxFrom hzero (by omega) hhead
      have hnot := List.head?_dropWhile_not (fun x : UInt8 => decide (x = 0x3D)) d
      rw [hfirst] at hnot
      cases hnot
    · have hcut : (c :: d).dropWhile (· = 0x3D) = c :: d := List.dropWhile_cons_of_neg (by simpa using hc)
      obtain ⟨m, hm⟩ := length_relaxFrom hd 0
      rw [hcut] at hlength
      rw [List.drop_zero] at hm
      omega

/-- The reader finds a `%` behind as many direct bytes as the value has in front of the escaped byte, or behind fewer. -/
theorem decoded_ne (hd : ∀ y ∈ d, isDirect y = true) (hx : isDirect x = false) (rest : Bytes) {w : QString}
    (hw : w.utf8 = d.dropWhile (· = 0x3D) ++ (escapedByte x).utf8 ++ t) :
    urldecodeRelax w ≠ decodeUtf8 0 (d ++ x :: rest) := by
  intro heq
  obtain ⟨s, y, u, hbytes, hread, hy⟩ := relaxFrom_escapedByte hx t
  have hsuffix : d.dropWhile (· = 0x3D) <:+ d := List.dropWhile_suffix _
  have hzero : 0 ∉ d.dropWhile (· = 0x3D) := fun hmem => zero_notMem_of_isDirect hd (hsuffix.subset hmem)
  obtain ⟨m, hm⟩ := length_relaxFrom hzero 0
  rw [List.drop_zero] at hm
  have hle := hsuffix.length_le
  have hrelax : relaxFrom 0 w.utf8 = relaxFrom 0 (d.dropWhile (· = 0x3D)) ++ 0x25 :: y :: u := by
    rw [hw, hbytes, List.append_assoc, List.cons_append, relaxFrom_append hzero (Nat.zero_le _), hread]
  rw [urldecodeRelax, hrelax] at heq
  have hcases := takeWhile_of_fromCString hy heq
  have hpercent : (0x25 :: y :: u).takeWhile isDirect = [0x25] := takeWhile_isDirect_append (List.forall_mem_singleton.mpr rfl) hy u
  rw [takeWhile_isDirect_append hd hx, List.takeWhile_append, hpercent] at hcases
  obtain hcases | hshort := hcases
  · split at hcases
    · exact ne_relaxFrom_dropWhile (zero_notMem_of_isDirect hd) hcases
    · rename_i hlength
      have hshort := (List.takeWhile_sublist (l := relaxFrom 0 (d.dropWhile (· = 0x3D))) isDirect).length_le
      have hd := congrArg List.length hcases
      omega
  · omega

end HttpCookie
end Snapwebsites
