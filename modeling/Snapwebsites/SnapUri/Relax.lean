import Mathlib.Data.List.Count
import Snapwebsites.SnapUri.Codec

/-! # Decoding in the relaxed mode

`snap_uri::urldecode()` with `relax`, which throws nothing. It is meant to keep the `%` of a malformed sequence, and
does where no digit is behind it; where one is and no second one, it writes the value of the digit in place of the
`%`. The result ends at the first NUL and loses a leading byte order mark (`codec_iff`). -/

namespace Snapwebsites
open QString

namespace SnapUri

/-- The value of a hexadecimal digit in the text. -/
def byteDigit (b : UInt8) : Option Nat := hexDigit (Char.ofNat b.toNat)

/-- What is behind a `%`: a digit and, if there is one, a second digit. -/
def escapeAt : Bytes → Option (Nat × Option Nat)
  | h :: l :: _ => (byteDigit h).map fun n => (n, byteDigit l)
  | [h] => (byteDigit h).map fun n => (n, none)
  | [] => none

/-- The loop over the bytes of the text; the counter is the number of bytes left to skip. -/
def relaxFrom : Nat → Bytes → Bytes
  | _, [] => []
  | n + 1, _ :: s => relaxFrom n s
  | 0, b :: s =>
    if b = 0 then []
    else if b = 0x2B then 0x20 :: relaxFrom 0 s
    else if b = 0x25 then
      match escapeAt s with
      | none => 0x25 :: relaxFrom 0 s
      -- "use the % as is"
      | some (h, none) => UInt8.ofNat (h * 16) :: relaxFrom 0 s
      | some (h, some l) => UInt8.ofNat (h * 16 + l) :: relaxFrom 2 s
    else b :: relaxFrom 0 s

/-- `urldecode()` with `relax`. -/
def urldecodeRelax (uri : QString) : QString := fromCString (relaxFrom 0 uri.utf8)

/-- The bytes with each well formed escape replaced by its byte and each `+` by a space. -/
def replaceFrom : Nat → Bytes → Bytes
  | _, [] => []
  | n + 1, _ :: s => replaceFrom n s
  | 0, b :: s =>
    if b = 0x2B then 0x20 :: replaceFrom 0 s
    else if b = 0x25 then
      match escapeAt s with
      | some (h, some l) => UInt8.ofNat (h * 16 + l) :: replaceFrom 2 s
      | _ => 0x25 :: replaceFrom 0 s
    else b :: replaceFrom 0 s

/-- The text that the relaxed mode is meant to give. -/
def replaced (uri : QString) : QString := decodeUtf8 0 (replaceFrom 0 uri.utf8)

/-- A `%` with one digit behind it and no second one. -/
def Half (b : Bytes) : Prop := ∃ s h, 0x25 :: s <:+ b ∧ escapeAt s = some (h, none)

/-- A text without a half escape, a NUL (as it is or escaped), and a leading byte order mark. -/
structure Regular (uri : QString) : Prop where
  whole : ¬ Half uri.utf8
  nul : 0 ∉ replaceFrom 0 uri.utf8
  mark : (replaced uri).head? ≠ some bom

/-- The sets of characters that `snap_uri` leaves as they are. -/
def acceptedSets : List QString := [[], ['~'], "!/~".toList, [',']]

end SnapUri

/-! ### The characters of ASCII in a text -/

namespace QString

theorem utf8EncodeChar_byte {x : UInt8} (hx : x.toNat < 128) : String.utf8EncodeChar (Char.ofNat x.toNat) = [x] := by
  have hval : (Char.ofNat x.toNat).toNat = x.toNat := SnapUri.toNat_ofNat_byte x
  rw [utf8EncodeChar_ascii (by omega), hval, UInt8.ofNat_toNat]

theorem count_utf8EncodeChar {x : UInt8} (hx : x.toNat < 128) (c : Char) :
    (String.utf8EncodeChar c).count x = if c = Char.ofNat x.toNat then 1 else 0 := by
  split
  · rename_i hc
    rw [hc, utf8EncodeChar_byte hx, List.count_singleton_self]
  · rename_i hc
    refine List.count_eq_zero.mpr fun hmem => hc ?_
    apply Char.toNat_inj.mp
    rw [toNat_eq_of_mem hmem hx, SnapUri.toNat_ofNat_byte]

/-- A character of ASCII is in a text as often as its byte is in the bytes. -/
theorem count_decodeUtf8 {x : UInt8} (hx : x.toNat < 128) (b : Bytes) :
    (decodeUtf8 0 b).count (Char.ofNat x.toNat) = b.count x := by
  induction hn : b.length using Nat.strong_induction_on generalizing b with
  | _ n ih =>
    cases b with
    | nil => rfl
    | cons y b =>
      cases hc : ByteArray.utf8DecodeChar? (y :: b).toByteArray 0 with
      | some c =>
        obtain ⟨rest, hrest⟩ := ByteArray.exists_of_utf8DecodeChar?_eq_some hc
        have hbytes := congrArg (fun a : ByteArray => a.data.toList) hrest
        simp only [ByteArray.data_append, Array.toList_append, List.data_toByteArray] at hbytes
        rw [hbytes, decodeUtf8_char, List.count_append, count_utf8EncodeChar hx, List.count_cons]
        have hpos := c.utf8Size_pos
        have hlength := congrArg List.length hbytes
        rw [List.length_append, String.length_utf8EncodeChar] at hlength
        rw [ih _ (by omega) _ rfl, Nat.add_comm]
        simp only [beq_iff_eq]
      | none =>
        have hxy : y ≠ x := by
          rintro rfl
          have hdecode : ByteArray.utf8DecodeChar? (y :: b).toByteArray 0 = some (Char.ofNat y.toNat) := by
            have henc := utf8EncodeChar_byte hx
            have hcons : y :: b = String.utf8EncodeChar (Char.ofNat y.toNat) ++ b := by
              rw [henc]
              rfl
            rw [hcons, List.toByteArray_append]
            exact ByteArray.utf8DecodeChar?_utf8EncodeChar_append
          rw [hc] at hdecode
          cases hdecode
        have hmark : Char.ofNat 0xFFFD ≠ Char.ofNat x.toNat := by
          intro h
          have hn := congrArg Char.toNat h
          rw [SnapUri.toNat_ofNat_byte] at hn
          have : (Char.ofNat 0xFFFD).toNat = 0xFFFD := by decide
          omega
        have hlt : b.length < n := by
          rw [← hn]
          exact Nat.lt_succ_self _
        rw [decodeUtf8, hc]
        simp only
        rw [List.count_cons_of_ne hmark, List.count_cons_of_ne hxy]
        exact ih _ hlt _ rfl

end QString

/-! ### The two loops -/

namespace SnapUri

variable {b s : Bytes} {n h l : Nat}

theorem byteDigit_percent : byteDigit 0x25 = none := by decide

theorem escapeAt_whole (he : escapeAt s = some (h, some l)) :
    ∃ x y rest, s = x :: y :: rest ∧ byteDigit x = some h ∧ byteDigit y = some l := by
  match s, he with
  | x :: y :: rest, he =>
    obtain ⟨k, hk, heq⟩ := Option.map_eq_some_iff.mp he
    obtain ⟨rfl, hl⟩ := Prod.mk.inj heq
    exact ⟨x, y, rest, rfl, hk, hl⟩
  | [x], he =>
    obtain ⟨k, hk, heq⟩ := Option.map_eq_some_iff.mp he
    cases heq

theorem half_cons_of_ne {x : UInt8} (hx : x ≠ 0x25) : Half (x :: s) ↔ Half s := by
  constructor
  · rintro ⟨t, h, hsuffix, he⟩
    rcases List.suffix_cons_iff.mp hsuffix with heq | hsuffix
    · exact absurd (List.cons.inj heq).1.symm hx
    · exact ⟨t, h, hsuffix, he⟩
  · rintro ⟨t, h, hsuffix, he⟩
    exact ⟨t, h, hsuffix.trans (List.suffix_cons x s), he⟩

theorem half_percent : Half (0x25 :: s) ↔ (∃ h, escapeAt s = some (h, none)) ∨ Half s := by
  constructor
  · rintro ⟨t, h, hsuffix, he⟩
    rcases List.suffix_cons_iff.mp hsuffix with heq | hsuffix
    · rw [← (List.cons.inj heq).2]
      exact .inl ⟨h, he⟩
    · exact .inr ⟨t, h, hsuffix, he⟩
  · rintro (⟨h, he⟩ | ⟨t, h, hsuffix, he⟩)
    · exact ⟨s, h, List.suffix_refl _, he⟩
    · exact ⟨t, h, hsuffix.trans (List.suffix_cons _ s), he⟩

theorem half_whole (he : escapeAt s = some (h, some l)) : Half (0x25 :: s) ↔ Half (s.drop 2) := by
  have hne : ∀ {x : UInt8} {k : Nat}, byteDigit x = some k → x ≠ 0x25 := fun hx hpercent => by
    rw [hpercent, byteDigit_percent] at hx
    cases hx
  rw [half_percent]
  obtain ⟨x, y, rest, rfl, hx, hy⟩ := escapeAt_whole he
  rw [half_cons_of_ne (hne hx), half_cons_of_ne (hne hy)]
  constructor
  · rintro (⟨k, hk⟩ | hrest)
    · rw [he] at hk
      cases hk
    · exact hrest
  · exact .inr

theorem value_ne_percent (h : Nat) : UInt8.ofNat (h * 16) ≠ 0x25 := by
  intro heq
  have := congrArg UInt8.toNat heq
  rw [UInt8.toNat_ofNat'] at this
  have hpercent : (0x25 : UInt8).toNat = 37 := by decide
  omega

/-- Where no NUL is decoded, the loop does what it is meant to, or it takes a `%` away. -/
theorem relaxFrom_cases (h0 : 0 ∉ replaceFrom n b) :
    (relaxFrom n b = replaceFrom n b ∧ ¬ Half (b.drop n)) ∨
      (Half (b.drop n) ∧ (relaxFrom n b).count 0x25 < (replaceFrom n b).count 0x25) := by
  have hnil : ¬ Half [] := fun ⟨s, _, hsuffix, _⟩ => by simp at hsuffix
  fun_induction replaceFrom n b with
  | case1 n =>
    rw [List.drop_nil]
    exact .inl ⟨by simp [relaxFrom], hnil⟩
  | case2 n x s ih =>
    rw [relaxFrom, List.drop_succ_cons]
    exact ih h0
  | case3 s ih =>
    rw [relaxFrom, if_neg (by decide), if_pos rfl, List.drop_zero, half_cons_of_ne (by decide)]
    have ih := ih fun hmem => h0 (List.mem_cons_of_mem _ hmem)
    rw [List.drop_zero] at ih
    simpa using ih
  | case4 s h l he _ ih =>
    have ih := ih fun hmem => h0 (List.mem_cons_of_mem _ hmem)
    rw [relaxFrom, if_neg (by decide), if_neg (by decide), if_pos rfl, he, List.drop_zero, half_whole he]
    simpa [List.count_cons] using ih
  | case5 s hmatch _ ih =>
    have ih := ih fun hmem => h0 (List.mem_cons_of_mem _ hmem)
    rw [relaxFrom, if_neg (by decide), if_neg (by decide), if_pos rfl, List.drop_zero, half_percent]
    rw [List.drop_zero] at ih
    cases he : escapeAt s with
    | none => simpa using ih
    | some p =>
      obtain ⟨h, l⟩ := p
      cases l with
      | some l => exact absurd he (hmatch h l)
      | none =>
        have hle : (relaxFrom 0 s).count 0x25 ≤ (replaceFrom 0 s).count 0x25 := by
          rcases ih with ⟨heq, -⟩ | ⟨-, hlt⟩
          · rw [heq]
          · exact hlt.le
        refine .inr ⟨.inl ⟨h, rfl⟩, ?_⟩
        simp only [List.count_cons_of_ne (value_ne_percent h), List.count_cons_self]
        exact Nat.lt_succ_of_le hle
  | case6 x s hplus hpercent ih =>
    have ih := ih fun hmem => h0 (List.mem_cons_of_mem _ hmem)
    have hx : x ≠ 0 := fun hx => h0 (hx ▸ List.mem_cons_self)
    rw [relaxFrom, if_neg hx, if_neg hplus, if_neg hpercent, List.drop_zero, half_cons_of_ne hpercent]
    rw [List.drop_zero] at ih
    simpa [List.count_cons, hpercent] using ih

theorem count_urldecodeRelax_le (uri : QString) :
    (urldecodeRelax uri).count '%' ≤ (relaxFrom 0 uri.utf8).count 0x25 := by
  have hchar : '%' = Char.ofNat (0x25 : UInt8).toNat := by decide
  have hascii : (0x25 : UInt8).toNat < 128 := by decide
  calc (urldecodeRelax uri).count '%'
      ≤ (decodeUtf8 0 ((relaxFrom 0 uri.utf8).takeWhile (· ≠ 0))).count '%' := (fromUtf8_sublist _).count_le _
    _ = ((relaxFrom 0 uri.utf8).takeWhile (· ≠ 0)).count 0x25 := by rw [hchar, count_decodeUtf8 hascii]
    _ ≤ (relaxFrom 0 uri.utf8).count 0x25 := (List.takeWhile_sublist _).count_le _

theorem nul_notMem_urldecodeRelax (uri : QString) : nul ∉ urldecodeRelax uri := by
  have hzero : 0 ∉ (relaxFrom 0 uri.utf8).takeWhile (· ≠ 0) := fun hmem => by
    have := List.mem_takeWhile_imp hmem
    simp at this
  exact fun hmem => (decodeUtf8_spec 0 _).2 hzero ((fromUtf8_sublist _).subset hmem)

/-- The relaxed mode decodes the regular texts as it is meant to, and no other. -/
theorem urldecodeRelax_eq_replaced (uri : QString) : urldecodeRelax uri = replaced uri ↔ Regular uri := by
  have hnulChar : nul = Char.ofNat (0 : UInt8).toNat := by decide
  have hpercentChar : '%' = Char.ofNat (0x25 : UInt8).toNat := by decide
  constructor
  · intro heq
    have hnul : 0 ∉ replaceFrom 0 uri.utf8 := by
      intro hmem
      have hcount : 0 < (replaced uri).count nul := by
        rw [hnulChar, replaced, count_decodeUtf8 (by decide)]
        exact List.count_pos_iff.mpr hmem
      exact nul_notMem_urldecodeRelax uri (heq ▸ List.count_pos_iff.mp hcount)
    rcases relaxFrom_cases hnul with ⟨hloop, hwhole⟩ | ⟨-, hlt⟩
    · refine ⟨hwhole, hnul, fun hmark => ?_⟩
      rw [urldecodeRelax, hloop, fromCString, takeWhile_ne_zero hnul, ← replaced] at heq
      cases hr : replaced uri with
      | nil =>
        rw [hr] at hmark
        cases hmark
      | cons c rest =>
        rw [hr] at heq hmark
        cases hmark
        rw [fromUtf8_bom] at heq
        exact absurd (congrArg List.length heq) (Nat.ne_of_lt (Nat.lt_succ_self _))
    · -- one `%` less than there should be
      have hle := count_urldecodeRelax_le uri
      rw [heq, replaced, hpercentChar, count_decodeUtf8 (by decide)] at hle
      exact absurd hlt (Nat.not_lt.mpr hle)
  · intro hregular
    rcases relaxFrom_cases hregular.nul with ⟨hloop, -⟩ | ⟨hhalf, -⟩
    · rw [urldecodeRelax, hloop, fromCString, takeWhile_ne_zero hregular.nul, ← replaced, fromUtf8_eq_self hregular.mark]
    · exact absurd hhalf hregular.whole

theorem acceptedSets_accepted {accepted : QString} (h : accepted ∈ acceptedSets) : ∀ c ∈ accepted, isAccepted c = true := by
  revert accepted
  decide

/-- Encoding is undone but for a byte order mark, and the relaxed mode replaces what it should in the regular texts. -/
theorem codec_iff (s accepted t : QString) (haccepted : accepted ∈ acceptedSets) (hs : nul ∉ s) :
    (urldecode (urlencode s accepted) = some s ↔ s.head? ≠ some bom) ∧ (urldecodeRelax t = replaced t ↔ Regular t) := by
  refine ⟨?_, urldecodeRelax_eq_replaced t⟩
  rw [urldecode_urlencode (acceptedSets_accepted haccepted) hs]
  constructor
  · rintro hround hhead
    cases s with
    | nil => cases hhead
    | cons c s =>
      cases hhead
      have heq := Option.some.inj hround
      rw [fromUtf8_bom] at heq
      exact absurd (congrArg List.length heq) (Nat.ne_of_lt (Nat.lt_succ_self _))
  · intro hhead
    rw [fromUtf8_eq_self hhead]

theorem codec_iff_dot : (urldecode (urlencode "a b".toList ['~']) = some "a b".toList ↔ "a b".toList.head? ≠ some bom) ∧
    (urldecodeRelax "50%".toList = replaced "50%".toList ↔ Regular "50%".toList) :=
  codec_iff "a b".toList ['~'] "50%".toList (by decide) (by decide)

/-- "%4" becomes "@4". -/
theorem not_codec : ¬ ((∀ s accepted, accepted ∈ acceptedSets → nul ∉ s → urldecode (urlencode s accepted) = some s) ∧
    ∀ t, urldecodeRelax t = replaced t) := by
  rintro ⟨-, h⟩
  exact absurd (h "%4".toList) (by decide)

end SnapUri
end Snapwebsites
