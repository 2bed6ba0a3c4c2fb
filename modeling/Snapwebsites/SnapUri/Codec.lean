import Snapwebsites.Communicator.QString

/-! # URL encoding

`snap_uri::urlencode()` and `snap_uri::urldecode()`, and what is left of a text that is encoded and decoded again:
everything but a byte order mark in front of it (`urldecode_urlencode`). -/

namespace Snapwebsites
open QString

/-! ### Bytes to texts -/

namespace QString

/-- `QString::fromUtf8()` of any bytes, but for the byte order mark: a byte that starts no character becomes U+FFFD.
    The counter is the number of bytes of the last character left to skip. -/
def decodeUtf8 : Nat → Bytes → QString
  | _, [] => []
  | n + 1, _ :: b => decodeUtf8 n b
  | 0, x :: b =>
    match ByteArray.utf8DecodeChar? (x :: b).toByteArray 0 with
    | some c => c :: decodeUtf8 (c.utf8Size - 1) b
    | none => Char.ofNat 0xFFFD :: decodeUtf8 0 b

/-- `QString::fromUtf8()` of a pointer to bytes, which end at the first NUL. -/
def fromCString (b : Bytes) : QString := fromUtf8 (decodeUtf8 0 (b.takeWhile (· ≠ 0)))

theorem decodeUtf8_skip : ∀ (b rest : Bytes), decodeUtf8 b.length (b ++ rest) = decodeUtf8 0 rest
  | [], _ => rfl
  | _ :: b, rest => decodeUtf8_skip b rest

theorem decodeUtf8_char (c : Char) (rest : Bytes) :
    decodeUtf8 0 (String.utf8EncodeChar c ++ rest) = c :: decodeUtf8 0 rest := by
  have hlength := String.length_utf8EncodeChar c
  cases hc : String.utf8EncodeChar c with
  | nil =>
    rw [hc] at hlength
    exact absurd hlength.symm c.utf8Size_pos.ne'
  | cons x b =>
    have hdecode : ByteArray.utf8DecodeChar? (x :: (b ++ rest)).toByteArray 0 = some c := by
      rw [← List.cons_append, ← hc, List.toByteArray_append]
      exact ByteArray.utf8DecodeChar?_utf8EncodeChar_append
    rw [hc, List.length_cons] at hlength
    rw [List.cons_append, decodeUtf8, hdecode]
    simp only [← hlength, Nat.add_sub_cancel, decodeUtf8_skip]

theorem decodeUtf8_utf8 : ∀ s : QString, decodeUtf8 0 s.utf8 = s
  | [] => rfl
  | c :: s => by rw [utf8, List.flatMap_cons, decodeUtf8_char, ← utf8, decodeUtf8_utf8 s]

theorem utf8_inj {s t : QString} (h : s.utf8 = t.utf8) : s = t := by rw [← decodeUtf8_utf8 s, h, decodeUtf8_utf8]

theorem utf8EncodeChar_ascii {c : Char} (hc : c.toNat < 128) : String.utf8EncodeChar c = [UInt8.ofNat c.toNat] := by
  have hle : c.val.toNat ≤ 127 := Nat.le_of_lt_succ hc
  unfold String.utf8EncodeChar
  simp only [hle, if_true]
  rfl

/-- The bytes of a text of ASCII are the numbers of its characters. -/
theorem utf8_ascii {s : QString} (hs : ∀ c ∈ s, c.toNat < 128) : s.utf8 = s.map fun c => UInt8.ofNat c.toNat := by
  induction s with
  | nil => rfl
  | cons c s ih =>
    rw [utf8, List.flatMap_cons, utf8EncodeChar_ascii (hs c List.mem_cons_self), ← utf8,
      ih fun d hd => hs d (List.mem_cons_of_mem _ hd)]
    rfl

/-- A byte of ASCII is a character of its own. -/
theorem toNat_eq_of_mem {c : Char} {x : UInt8} (h : x ∈ String.utf8EncodeChar c) (hx : x.toNat < 128) :
    c.toNat = x.toNat := by
  have hbyte : ∀ {n : Nat}, x = UInt8.ofNat n → x.toNat = n % 256 := fun h => by rw [h, UInt8.toNat_ofNat']
  unfold String.utf8EncodeChar at h
  simp only at h
  split at h
  · have hv := hbyte (List.mem_singleton.mp h)
    have hc : c.toNat = c.val.toNat := rfl
    omega
  · exfalso
    split at h
    · simp only [List.mem_cons, List.not_mem_nil, or_false] at h
      obtain h | h := h <;> have := hbyte h <;> omega
    · split at h
      · simp only [List.mem_cons, List.not_mem_nil, or_false] at h
        obtain h | h | h := h <;> have := hbyte h <;> omega
      · simp only [List.mem_cons, List.not_mem_nil, or_false] at h
        obtain h | h | h | h := h <;> have := hbyte h <;> omega

theorem zero_notMem_utf8 {s : QString} (h : nul ∉ s) : 0 ∉ s.utf8 := by
  intro hmem
  obtain ⟨c, hc, hzero⟩ := List.mem_flatMap.mp hmem
  have hnul : c = nul := Char.toNat_inj.mp (toNat_eq_of_mem hzero (by decide))
  exact h (hnul ▸ hc)

theorem takeWhile_ne_zero {b : Bytes} (h : 0 ∉ b) : b.takeWhile (· ≠ 0) = b :=
  List.takeWhile_eq_self_iff.mpr fun x hx => decide_eq_true fun h0 : x = 0 => h (h0 ▸ hx)

/-- A text comes back from its bytes, less a leading byte order mark. -/
theorem fromCString_utf8 {s : QString} (h : nul ∉ s) : fromCString s.utf8 = fromUtf8 s := by
  rw [fromCString, takeWhile_ne_zero (zero_notMem_utf8 h), decodeUtf8_utf8]

/-- Bytes make at most as many characters, and no NUL. -/
theorem decodeUtf8_spec : ∀ (n : Nat) (b : Bytes), (decodeUtf8 n b).length ≤ b.length ∧ (0 ∉ b → nul ∉ decodeUtf8 n b)
  | _, [] => ⟨by simp [decodeUtf8], fun _ => by simp [decodeUtf8]⟩
  | n + 1, x :: b => by
    obtain ⟨hle, hnul⟩ := decodeUtf8_spec n b
    rw [decodeUtf8]
    exact ⟨hle.trans (Nat.le_succ _), fun h => hnul fun hb => h (List.mem_cons_of_mem _ hb)⟩
  | 0, x :: b => by
    have htail : 0 ∉ x :: b → 0 ∉ b := fun h hb => h (List.mem_cons_of_mem _ hb)
    rw [decodeUtf8]
    split
    · rename_i c hc
      obtain ⟨hle, hnul⟩ := decodeUtf8_spec (c.utf8Size - 1) b
      refine ⟨Nat.succ_le_succ hle, fun h hmem => ?_⟩
      rcases List.mem_cons.mp hmem with rfl | hmem
      · -- the byte of NUL would be the first one
        obtain ⟨rest, hrest⟩ := ByteArray.exists_of_utf8DecodeChar?_eq_some hc
        have hbytes := congrArg (fun a : ByteArray => a.data.toList) hrest
        have hbyte : String.utf8EncodeChar nul = [0] := by decide
        simp [hbyte] at hbytes
        exact h (hbytes.1 ▸ List.mem_cons_self)
      · exact hnul (htail h) hmem
    · obtain ⟨hle, hnul⟩ := decodeUtf8_spec 0 b
      refine ⟨Nat.succ_le_succ hle, fun h hmem => ?_⟩
      rcases List.mem_cons.mp hmem with hnul' | hmem
      · exact absurd hnul' (by decide)
      · exact hnul (htail h) hmem

end QString

/-! ### Encoding -/

namespace SnapUri

def isAlphanumeric (c : Char) : Bool := ('A' ≤ c && c ≤ 'Z') || ('a' ≤ c && c ≤ 'z') || ('0' ≤ c && c ≤ '9')

/-- The characters that are not encoded. -/
def isPlain (accepted : QString) (c : Char) : Bool :=
  isAlphanumeric c || c = '.' || c = '-' || c = '_' || accepted.contains c

/-- A byte as it is, or as `%` and two hexadecimal digits. -/
def encodeByte (accepted : QString) (b : UInt8) : QString :=
  if isPlain accepted (Char.ofNat b.toNat) then [Char.ofNat b.toNat]
  else ['%', Nat.digitChar (b.toNat / 16), Nat.digitChar (b.toNat % 16)]

def urlencode (uri accepted : QString) : QString := (uri.utf8.takeWhile (· ≠ 0)).flatMap (encodeByte accepted)

def hexDigit (c : Char) : Option Nat :=
  if '0' ≤ c && c ≤ '9' then some (c.toNat - '0'.toNat)
  else if 'A' ≤ c && c ≤ 'F' then some (c.toNat - 'A'.toNat + 10)
  else if 'a' ≤ c && c ≤ 'f' then some (c.toNat - 'a'.toNat + 10)
  else none

/-- The characters that `urldecode()` takes as they are. -/
def isAccepted (c : Char) : Bool :=
  isAlphanumeric c || c = '.' || c = '-' || c = '/' || c = '_' || c = '~' || c = '!' || c = '@' || c = ',' || c = ';' ||
    c = ':' || c = '(' || c = ')'

/-- The bytes of `urldecode()`, up to a NUL; nothing when it throws. A character outside ASCII has no byte that is
    accepted. -/
def urldecodeBytes : QString → Option Bytes
  | [] => some []
  | '%' :: h :: l :: s => do
    let h ← hexDigit h
    let l ← hexDigit l
    let b ← urldecodeBytes s
    some (UInt8.ofNat (h * 16 + l) :: b)
  | c :: s =>
    if c = nul then some []
    else if c = '+' then (urldecodeBytes s).map (0x20 :: ·)
    else if isAccepted c then (urldecodeBytes s).map (UInt8.ofNat c.toNat :: ·)
    else none

/-- `urldecode()` without its `relax` mode; nothing when it throws. -/
def urldecode (uri : QString) : Option QString := (urldecodeBytes uri).map fromCString

/-! ### The characters of a text that is encoded -/

/-- What becomes of a character that is not NUL. -/
def encodeChar (accepted : QString) (c : Char) : QString := (String.utf8EncodeChar c).flatMap (encodeByte accepted)

variable {s t accepted : QString} {c : Char}

theorem urlencode_eq (h : nul ∉ s) : urlencode s accepted = s.flatMap (encodeChar accepted) := by
  rw [urlencode, takeWhile_ne_zero (zero_notMem_utf8 h), utf8, List.flatMap_assoc]
  rfl

theorem urlencode_append (hs : nul ∉ s) (ht : nul ∉ t) :
    urlencode (s ++ t) accepted = urlencode s accepted ++ urlencode t accepted := by
  have hst : nul ∉ s ++ t := fun h => (List.mem_append.mp h).elim hs ht
  rw [urlencode_eq hs, urlencode_eq ht, urlencode_eq hst, List.flatMap_append]

theorem encodeByte_ne_nil (accepted : QString) (b : UInt8) : encodeByte accepted b ≠ [] := by
  unfold encodeByte
  split <;> simp

theorem urlencode_eq_nil (accepted : QString) (h : nul ∉ s) : urlencode s accepted = [] ↔ s = [] := by
  rw [urlencode_eq h]
  cases s with
  | nil => simp
  | cons c s =>
    have hlength := String.length_utf8EncodeChar c
    cases hc : String.utf8EncodeChar c with
    | nil =>
      rw [hc] at hlength
      exact absurd hlength.symm c.utf8Size_pos.ne'
    | cons b rest => simp [encodeChar, hc, encodeByte_ne_nil]

theorem isAlphanumeric_digitChar {n : Nat} (h : n < 16) : isAlphanumeric (Nat.digitChar n) = true := by
  revert n
  decide

theorem mem_encodeByte {b : UInt8} (h : c ∈ encodeByte accepted b) : isPlain accepted c = true ∨ c = '%' := by
  have hdigit : ∀ {n : Nat}, n < 16 → isPlain accepted (Nat.digitChar n) = true := fun hn => by
    simp [isPlain, isAlphanumeric_digitChar hn]
  unfold encodeByte at h
  split at h
  · rename_i hplain
    rw [List.mem_singleton.mp h]
    exact .inl hplain
  · simp only [List.mem_cons, List.not_mem_nil, or_false] at h
    have hb := b.toNat_lt
    obtain rfl | rfl | rfl := h
    · exact .inr rfl
    · exact .inl (hdigit (by omega))
    · exact .inl (hdigit (by omega))

theorem mem_urlencode (h : c ∈ urlencode s accepted) : isPlain accepted c = true ∨ c = '%' := by
  obtain ⟨b, -, hb⟩ := List.mem_flatMap.mp h
  exact mem_encodeByte hb

/-- An encoded text has none of the characters that a URI is split at, unless they are accepted. -/
theorem notMem_urlencode (hc : isPlain accepted c = false) (hpercent : c ≠ '%') : c ∉ urlencode s accepted := fun h =>
  (mem_urlencode h).elim (fun h' => by rw [hc] at h'; cases h') hpercent

theorem toNat_ofNat_byte (b : UInt8) : (Char.ofNat b.toNat).toNat = b.toNat := by
  have hb := b.toNat_lt
  rw [Char.ofNat, dif_pos (.inl (by omega))]
  rfl

theorem encodeChar_dot (accepted : QString) : encodeChar accepted '.' = ['.'] := by
  have hbytes : String.utf8EncodeChar '.' = [46] := by decide
  simp [encodeChar, hbytes, encodeByte, isPlain]

theorem dot_notMem_encodeChar (h : c ≠ '.') : '.' ∉ encodeChar accepted c := by
  intro hmem
  obtain ⟨b, hb, hdot⟩ := List.mem_flatMap.mp hmem
  have hbyte : b.toNat = 46 := by
    unfold encodeByte at hdot
    split at hdot
    · have := congrArg Char.toNat (List.mem_singleton.mp hdot)
      rw [toNat_ofNat_byte] at this
      exact this.symm
    · have hb := b.toNat_lt
      have hdigit : ∀ {n : Nat}, n < 16 → '.' ≠ Nat.digitChar n := by decide
      simp only [List.mem_cons, List.not_mem_nil, or_false] at hdot
      obtain hdot | hdot | hdot := hdot
      · exact absurd hdot (by decide)
      · exact absurd hdot (hdigit (by omega))
      · exact absurd hdot (hdigit (by omega))
  exact h (Char.toNat_inj.mp ((toNat_eq_of_mem hb (by omega)).trans hbyte))

theorem dot_notMem_urlencode (accepted : QString) (h : nul ∉ s) (hs : '.' ∉ s) : '.' ∉ urlencode s accepted := by
  rw [urlencode_eq h]
  intro hmem
  obtain ⟨c, hc, hdot⟩ := List.mem_flatMap.mp hmem
  exact dot_notMem_encodeChar (fun hc' => hs (hc' ▸ hc)) hdot

/-! ### Decoding -/

theorem isAccepted_of_isPlain (haccepted : ∀ c ∈ accepted, isAccepted c = true) (h : isPlain accepted c = true) :
    isAccepted c = true := by
  simp only [isPlain, Bool.or_eq_true, decide_eq_true_eq, List.contains_iff_mem] at h
  obtain (((h | h) | h) | h) | h := h
  · simp [isAccepted, h]
  · simp [isAccepted, h]
  · simp [isAccepted, h]
  · simp [isAccepted, h]
  · exact haccepted c h

theorem urldecodeBytes_cons (h : isAccepted c = true) (s : QString) :
    urldecodeBytes (c :: s) = (urldecodeBytes s).map (UInt8.ofNat c.toNat :: ·) := by
  have hne : ∀ d, isAccepted d = false → c ≠ d := fun d hd hcd => by
    rw [hcd, hd] at h
    cases h
  rw [urldecodeBytes.eq_def]
  split
  · rename_i heq
    cases heq
  · rename_i heq
    cases heq
    exact absurd rfl (hne _ (by decide))
  · rename_i heq
    cases heq
    rw [if_neg (hne _ (by decide)), if_neg (hne _ (by decide)), if_pos h]

theorem hexDigit_digitChar {n : Nat} (h : n < 16) : hexDigit (Nat.digitChar n) = some n := by
  revert n
  decide

theorem urldecodeBytes_encodeByte (haccepted : ∀ c ∈ accepted, isAccepted c = true) (b : UInt8) (rest : QString) :
    urldecodeBytes (encodeByte accepted b ++ rest) = (urldecodeBytes rest).map (b :: ·) := by
  have hb := b.toNat_lt
  unfold encodeByte
  split
  · rename_i hplain
    have hbyte : UInt8.ofNat (Char.ofNat b.toNat).toNat = b := by
      rw [toNat_ofNat_byte, UInt8.ofNat_toNat]
    rw [List.singleton_append, urldecodeBytes_cons (isAccepted_of_isPlain haccepted hplain), hbyte]
  · have hbyte : UInt8.ofNat (b.toNat / 16 * 16 + b.toNat % 16) = b := by
      rw [Nat.div_add_mod', UInt8.ofNat_toNat]
    simp only [List.cons_append, List.nil_append, urldecodeBytes, hexDigit_digitChar (show b.toNat / 16 < 16 by omega),
      hexDigit_digitChar (show b.toNat % 16 < 16 by omega), Option.bind_eq_bind, Option.bind_some, hbyte]
    cases urldecodeBytes rest <;> rfl

theorem urldecodeBytes_encode (haccepted : ∀ c ∈ accepted, isAccepted c = true) (b : Bytes) (rest : QString) :
    urldecodeBytes (b.flatMap (encodeByte accepted) ++ rest) = (urldecodeBytes rest).map (b ++ ·) := by
  induction b with
  | nil => simp
  | cons x b ih =>
    rw [List.flatMap_cons, List.append_assoc, urldecodeBytes_encodeByte haccepted, ih, Option.map_map]
    rfl

/-- An encoded text is decoded to itself, less a leading byte order mark. -/
theorem urldecode_urlencode (haccepted : ∀ c ∈ accepted, isAccepted c = true) (h : nul ∉ s) :
    urldecode (urlencode s accepted) = some (fromUtf8 s) := by
  have hbytes := urldecodeBytes_encode haccepted s.utf8 []
  rw [List.append_nil] at hbytes
  rw [urldecode, urlencode, takeWhile_ne_zero (zero_notMem_utf8 h), hbytes]
  simp [urldecodeBytes, fromCString_utf8 h]

theorem length_urldecodeBytes {b : Bytes} (h : urldecodeBytes s = some b) : b.length ≤ s.length := by
  fun_induction urldecodeBytes s generalizing b with
  | case1 =>
    cases h
    rfl
  | case2 hi lo s ih =>
    simp only [Option.bind_eq_bind, Option.bind_eq_some_iff, Option.some.injEq] at h
    obtain ⟨-, -, -, -, b, hb, rfl⟩ := h
    have hle := ih hb
    simp only [List.length_cons]
    omega
  | case3 =>
    cases h
    exact Nat.zero_le _
  | case4 _ _ _ ih | case5 _ _ _ _ _ _ ih =>
    obtain ⟨b, hb, rfl⟩ := Option.map_eq_some_iff.mp h
    exact Nat.succ_le_succ (ih hb)
  | case6 => cases h

/-- What is decoded is not longer, and has no NUL. -/
theorem urldecode_spec (h : urldecode s = some t) : t.length ≤ s.length ∧ nul ∉ t := by
  obtain ⟨b, hb, rfl⟩ := Option.map_eq_some_iff.mp h
  have hzero : 0 ∉ b.takeWhile (· ≠ 0) := fun hmem => by
    have := List.mem_takeWhile_imp hmem
    simp at this
  obtain ⟨hle, hnul⟩ := decodeUtf8_spec 0 (b.takeWhile (· ≠ 0))
  have hsub := fromUtf8_sublist (decodeUtf8 0 (b.takeWhile (· ≠ 0)))
  have htake := (List.takeWhile_prefix (fun x : UInt8 => decide (x ≠ 0)) (l := b)).length_le
  exact ⟨hsub.length_le.trans (hle.trans (htake.trans (length_urldecodeBytes hb))), fun hmem => hnul hzero (hsub.subset hmem)⟩

end SnapUri
end Snapwebsites
