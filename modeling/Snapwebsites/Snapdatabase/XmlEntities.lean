import Mathlib.Data.List.TakeWhile
import Snapwebsites.Lib.Machine
import Snapwebsites.Snapdatabase.Convert

/-! # The entities of a table file

`xml_parser::unescape_entities()` puts what an entity stands for in its place, and goes on behind it. The number of a character is read
by the converter of numbers, with a space in place of the `#` of a decimal number: a number with a zero in front is an octal one. -/

namespace Snapwebsites.Snapdatabase

/-- The exceptions of the parser. Those of the converter and of `libutf8` come with their own texts. -/
inductive XmlError
  | unexpectedEof (text : String)
  | unexpectedToken (text : String)
  | invalidXml (text : String)
  | invalidToken (text : String)
  | invalidEntity (text : String)
  | logicError (text : String)
  | convert (e : ConvertError)
  | encoding
  deriving DecidableEq

/-- Bytes within a text. -/
def printed (b : Bytes) : String := String.ofList (b.map fun c => Char.ofNat c.toNat)

/-- `convert_to_int()`. -/
def convertToInt (value : Bytes) (maxSize : Nat) : Except ConvertError (BitVec 64) := do
  let n ← stringToInt value true
  if Int512.bitSize n > maxSize then throw .outOfRange
  return n.low

inductive Entity
  | amp | quot | lt | gt | apos
  deriving DecidableEq

namespace Entity

def name : Entity → Bytes
  | amp => [0x61, 0x6D, 0x70]
  | quot => [0x71, 0x75, 0x6F, 0x74]
  | lt => [0x6C, 0x74]
  | gt => [0x67, 0x74]
  | apos => [0x61, 0x70, 0x6F, 0x73]

def character : Entity → UInt8
  | amp => 0x26
  | quot => 0x22
  | lt => 0x3C
  | gt => 0x3E
  | apos => 0x27

end Entity

namespace XmlParser

open Machine (Step)

/-- `std::string::find()`. -/
def find (c : UInt8) (value : Bytes) (pos : Nat) : Option Nat := ((value.drop pos).findIdx? (· = c)).map (pos + ·)

section
variable (toU8string : UInt32 → Option Bytes)

/-- The number behind a `#`. The name is the one that is given to the converter. -/
def character (name : Bytes) : Except XmlError Bytes :=
  match convertToInt name 32 with
  | .error e => .error (.convert e)
  | .ok unicode =>
    match toU8string (.ofBitVec (unicode.setWidth 32)) with
    | none => .error .encoding
    | some utf8 => .ok utf8

/-- What an entity stands for. -/
def entity (name : Bytes) : Except XmlError Bytes :=
  if name = Entity.amp.name then .ok [Entity.amp.character]
  else if name = Entity.quot.name then .ok [Entity.quot.character]
  else if name = Entity.lt.name then .ok [Entity.lt.character]
  else if name = Entity.gt.name then .ok [Entity.gt.character]
  else if name = Entity.apos.name then .ok [Entity.apos.character]
  else if name = [] then .error (.invalidEntity "the name of an entity cannot be empty ('&;' is not valid XML).")
  else if name.head? = some 0x23 then
    if name.length = 1 then .error (.invalidEntity "a numeric entity must have a number ('&#; is not valid XML).")
    else if name[1]? = some 0x78 ∨ name[1]? = some 0x58 then character toU8string (0x30 :: name.tail)
    else character toU8string (0x20 :: name.tail)
  else .error (.invalidEntity ("Unsupported entity ('&" ++ printed name ++ ";')."))

/-- One turn of the loop, on `f_value` and `pos`. -/
def unescapeStep (s : Bytes × Nat) : Step (Bytes × Nat) (Except XmlError Bytes) :=
  match find 0x26 s.1 s.2 with
  | none => .done (.ok s.1)
  | some pos =>
    match find 0x3B s.1 (pos + 1) with
    | none => .done (.ok s.1)
    | some last =>
      match entity toU8string ((s.1.drop (pos + 1)).take (last - pos - 1)) with
      | .error e => .done (.error e)
      | .ok text => .next (s.1.take pos ++ text ++ s.1.drop (last + 1), pos + text.length)

end

theorem find_bounds {c : UInt8} {value : Bytes} {pos i : Nat} (h : find c value pos = some i) : pos ≤ i ∧ i < value.length := by
  obtain ⟨k, hk, rfl⟩ := Option.map_eq_some_iff.mp h
  have hlt := (List.findIdx?_eq_some_iff_getElem.mp hk).1
  rw [List.length_drop] at hlt
  omega

/-- The characters behind `pos` get fewer. -/
theorem unescapeStep_lt (toU8string : UInt32 → Option Bytes) (s s' : Bytes × Nat) (h : unescapeStep toU8string s = .next s') :
    s'.1.length - s'.2 < s.1.length - s.2 := by
  unfold unescapeStep at h
  split at h
  · cases h
  · rename_i pos hpos
    split at h
    · cases h
    · rename_i last hlast
      split at h
      · cases h
      · cases h
        have hp := find_bounds hpos
        have hl := find_bounds hlast
        simp only [List.length_append, List.length_take, List.length_drop]
        omega

/-- `unescape_entities()`. -/
def unescapeEntities (toU8string : UInt32 → Option Bytes) (value : Bytes) : Except XmlError Bytes :=
  Machine.eval (unescapeStep toU8string) (fun s => s.1.length - s.2) (unescapeStep_lt toU8string) (value, 0)

end XmlParser

/-! ### Texts with entities -/

/-- `libutf8::to_u8string()`: the characters have their encoding, and what is not a character has none. -/
def EncodesUtf8 (toU8string : UInt32 → Option Bytes) : Prop :=
  (∀ n : Char, toU8string n.val = some (String.utf8EncodeChar n)) ∧ ∀ n : UInt32, ¬n.isValidChar → toU8string n = none

/-- A character, or what stands for one. -/
inductive XmlPiece
  | plain (c : UInt8) (hc : c ≠ 0x26)
  | entity (e : Entity)
  | decimal (digits : Bytes) (n : Char) (hne : digits ≠ []) (hdigits : ∀ c ∈ digits, (NumberType.decimal.digit c).isSome = true)
    (hn : digitsValue 10 0 digits = n.toNat)
  | hexadecimal (upper : Bool) (digits : Bytes) (n : Char) (hne : digits ≠ [])
    (hdigits : ∀ c ∈ digits, (NumberType.hexadecimal.digit c).isSome = true) (hn : digitsValue 16 0 digits = n.toNat)

namespace XmlPiece

def text : XmlPiece → Bytes
  | plain c _ => [c]
  | entity e => 0x26 :: (e.name ++ [0x3B])
  | decimal digits _ _ _ _ => 0x26 :: (0x23 :: digits ++ [0x3B])
  | hexadecimal upper digits _ _ _ _ => 0x26 :: (0x23 :: (if upper then 0x58 else 0x78) :: digits ++ [0x3B])

def decoded : XmlPiece → Bytes
  | plain c _ => [c]
  | entity e => [e.character]
  | decimal _ n _ _ _ => String.utf8EncodeChar n
  | hexadecimal _ _ n _ _ _ => String.utf8EncodeChar n

/-- No zero is in front of a decimal number that has another value in base 8. -/
def Unpadded : XmlPiece → Prop
  | decimal digits n _ _ _ => digits.head? = some 0x30 → n.toNat < 8
  | _ => True

end XmlPiece

/-- A text whose references are those of the five entities and of characters; no `;` follows an `&` that stands for itself. -/
structure XmlText where
  pieces : List XmlPiece
  rest : Bytes
  rest_plain : rest = [] ∨ ∃ b, rest = 0x26 :: b ∧ 0x3B ∉ b

namespace XmlText

def text (t : XmlText) : Bytes := t.pieces.flatMap XmlPiece.text ++ t.rest

def decoded (t : XmlText) : Bytes := t.pieces.flatMap XmlPiece.decoded ++ t.rest

end XmlText

namespace XmlParser

open Machine (Finishes finishes_next_iff finishes_done_iff finishes_congr)

/-! ### Numbers -/

section Numbers
variable {toU8string : UInt32 → Option Bytes} {digits name : Bytes} {n : Char} {v : Uint512}

set_option maxRecDepth 20000 in
theorem decimal_digit {c : UInt8} (h : (NumberType.decimal.digit c).isSome = true) :
    ((NumberType.octal.digit c).isSome = true ↔ digitValue c < 8) ∧ c ≠ 0x62 ∧ c ≠ 0x42 ∧ c ≠ 0x3B := by
  have hall : ∀ n < 256, (NumberType.decimal.digit (UInt8.ofNat n)).isSome = true →
      ((NumberType.octal.digit (UInt8.ofNat n)).isSome = true ↔ digitValue (UInt8.ofNat n) < 8) ∧ UInt8.ofNat n ≠ 0x62 ∧
        UInt8.ofNat n ≠ 0x42 ∧ UInt8.ofNat n ≠ 0x3B := by
    decide
  exact forall_uint8 (p := fun c => (NumberType.decimal.digit c).isSome = true →
    ((NumberType.octal.digit c).isSome = true ↔ digitValue c < 8) ∧ c ≠ 0x62 ∧ c ≠ 0x42 ∧ c ≠ 0x3B) hall c h

/-- In base 8, digits have a smaller value from 8 on, and the same one below. -/
theorem digitsValue_octal (hdigits : ∀ c ∈ digits, (NumberType.decimal.digit c).isSome = true) :
    digitsValue 8 0 digits ≤ digitsValue 10 0 digits ∧
      (8 ≤ digitsValue 10 0 digits → (∀ c ∈ digits, (NumberType.octal.digit c).isSome = true) →
        digitsValue 8 0 digits < digitsValue 10 0 digits) ∧
      (digitsValue 10 0 digits < 8 → digitsValue 8 0 digits = digitsValue 10 0 digits ∧
        ∀ c ∈ digits, (NumberType.octal.digit c).isSome = true) := by
  induction digits using List.reverseRecOn with
  | nil => exact ⟨Nat.le_refl _, fun h => absurd h (by decide), fun _ => ⟨rfl, fun c hc => by cases hc⟩⟩
  | append_singleton digits c ih =>
    obtain ⟨hdigits, hc⟩ := List.forall_mem_append.mp hdigits
    obtain ⟨hle, -, hsmall⟩ := ih hdigits
    obtain ⟨hoctal, -⟩ := decimal_digit (hc c List.mem_cons_self)
    rw [digitsValue_concat, digitsValue_concat]
    refine ⟨by omega, fun h hall => ?_, fun h => ?_⟩
    · have hvalue := hoctal.mp (hall c (List.mem_append_right _ List.mem_cons_self))
      omega
    · obtain ⟨heq, hall⟩ := hsmall (by omega)
      refine ⟨by omega, fun b hb => ?_⟩
      rcases List.mem_append.mp hb with hb | hb
      · exact hall b hb
      · obtain rfl := List.mem_singleton.mp hb
        exact hoctal.mpr (by omega)

theorem char_lt (n : Char) : n.toNat < 0x110000 := by
  have h := n.valid
  rw [UInt32.isValidChar, Nat.isValidChar] at h
  have hn : n.toNat = n.val.toNat := rfl
  omega

/-- The number that is given to `to_u8string()`. -/
theorem toNat_unicode (hv : v.toNat < 2 ^ 32) : (UInt32.ofBitVec (v.low.setWidth 32)).toNat = v.toNat := by
  show (v.low.setWidth 32).toNat = v.toNat
  rw [BitVec.toNat_setWidth, Uint512.toNat_low]
  omega

theorem character_of_read (hread : stringToInt name true = .ok v) (hv : v.toNat < 2 ^ 32) :
    character toU8string name = (toU8string (.ofBitVec (v.low.setWidth 32))).elim (.error .encoding) .ok := by
  have hconvert : convertToInt name 32 = .ok v.low := by
    rw [convertToInt, hread]
    dsimp only [bind, Except.bind]
    rw [if_neg (Nat.not_lt.mpr ((Int512.bitSize_le_iff (by decide)).mpr (.inl hv)))]
    rfl
  rw [character, hconvert]
  dsimp only
  cases toU8string (.ofBitVec (v.low.setWidth 32)) <;> rfl

/-- The number of a character is read. -/
theorem character_of_char (hutf8 : EncodesUtf8 toU8string) (hread : stringToInt name true = .ok v) (hv : v.toNat = n.toNat) :
    character toU8string name = .ok (String.utf8EncodeChar n) := by
  have hlt := char_lt n
  have hval : UInt32.ofBitVec (v.low.setWidth 32) = n.val := UInt32.toNat.inj ((toNat_unicode (by omega)).trans hv)
  rw [character_of_read hread (by omega), hval, hutf8.1]
  rfl

/-- Another number is read: not a character, or another one. -/
theorem character_of_lt (hutf8 : EncodesUtf8 toU8string) (hread : stringToInt name true = .ok v) (hv : v.toNat < n.toNat)
    {text : Bytes} (h : character toU8string name = .ok text) : ∃ m, m ≠ n ∧ text = String.utf8EncodeChar m := by
  have hlt := char_lt n
  have hval := toNat_unicode (v := v) (by omega)
  rw [character_of_read hread (by omega)] at h
  by_cases hvalid : (UInt32.ofBitVec (v.low.setWidth 32)).isValidChar
  · rw [hutf8.1 ⟨_, hvalid⟩] at h
    refine ⟨⟨_, hvalid⟩, ?_, (Except.ok.inj h).symm⟩
    rintro rfl
    have hn : (⟨UInt32.ofBitVec (v.low.setWidth 32), hvalid⟩ : Char).toNat = v.toNat := hval
    omega
  · rw [hutf8.2 _ hvalid] at h
    cases h

/-- A number without a sign that fits in a word. -/
theorem read_form {spaces : Bytes} {form : NumberForm} (hspaces : ∀ c ∈ spaces, isSpace c = true) (hquoted : form.isQuoted = false)
    (hdigits : ∀ c ∈ digits, (form.type.digit c).isSome = true) (hfirst : form = .decimal → digits.head? ≠ some 0x30)
    (hvalue : digitsValue form.type.base 0 digits < 2 ^ 32) :
    ∃ v, stringToInt (spaces ++ (form.introducer ++ digits)) true = .ok v ∧ v.toNat = digitsValue form.type.base 0 digits := by
  obtain ⟨t, ht⟩ : ∃ t : NumberText,
      t = { NumberText.ofDigits none form digits hdigits hfirst with spaces, spaces_space := hspaces } := ⟨_, rfl⟩
  have htext : t.text = spaces ++ (form.introducer ++ digits) := by
    rw [t.text_eq, ht]
    simp only [NumberText.ofDigits, NumberText.signText, NumberForm.closing, hquoted, Bool.false_eq_true, if_false, List.nil_append,
      List.append_nil]
  have hmagnitude : t.magnitude = digitsValue form.type.base 0 digits := by rw [ht]; rfl
  have hnegative : t.negative = false := by rw [ht]; rfl
  have hread := @stringToInt_text _ true t t.cString_text
  rw [if_neg (fun h => h.2 rfl), NumberText.value, hnegative, if_neg Bool.false_ne_true, htext, hmagnitude] at hread
  obtain ⟨v, hv, heq⟩ := hread
  have hlt : digitsValue form.type.base 0 digits < 2 ^ 512 := Nat.lt_of_lt_of_le hvalue (Int512.two_pow_le (by decide))
  rw [← emod_two_pow, Nat.mod_eq_of_lt hlt] at heq
  exact ⟨v, hv, Int.ofNat.inj heq⟩

theorem space_mem {c : UInt8} (h : c ∈ [(0x20 : UInt8)]) : isSpace c = true := by
  obtain rfl := List.mem_singleton.mp h
  rfl

/-- A decimal number behind a space. -/
theorem decimal_read (hdigits : ∀ c ∈ digits, (NumberType.decimal.digit c).isSome = true) (hfirst : digits.head? ≠ some 0x30)
    (hlt : digitsValue 10 0 digits < 2 ^ 32) : ∃ v, stringToInt (0x20 :: digits) true = .ok v ∧ v.toNat = digitsValue 10 0 digits :=
  @read_form _ _ .decimal (fun _ => space_mem) rfl hdigits (fun _ => hfirst) hlt

/-- A zero in front makes it an octal number. -/
theorem octal_read (hdigits : ∀ c ∈ digits, (NumberType.octal.digit c).isSome = true) (hlt : digitsValue 8 0 digits < 2 ^ 32) :
    ∃ v, stringToInt (0x20 :: 0x30 :: digits) true = .ok v ∧ v.toNat = digitsValue 8 0 digits :=
  @read_form _ _ .octal (fun _ => space_mem) rfl hdigits (fun h => by cases h) hlt

/-- A hexadecimal number, whose introducer is made from the `#`. -/
theorem hexadecimal_read (upper : Bool) (hdigits : ∀ c ∈ digits, (NumberType.hexadecimal.digit c).isSome = true)
    (hlt : digitsValue 16 0 digits < 2 ^ 32) :
    ∃ v, stringToInt (0x30 :: (if upper then 0x58 else 0x78) :: digits) true = .ok v ∧ v.toNat = digitsValue 16 0 digits :=
  @read_form _ [] (.hexadecimal upper) (fun _ h => by cases h) rfl hdigits (fun h => by cases h) hlt

/-- The digits behind a zero have to be octal ones. -/
theorem octal_of_read (hdigits : ∀ c ∈ digits, (NumberType.decimal.digit c).isSome = true)
    (hread : stringToInt (0x20 :: 0x30 :: digits) true = .ok v) : ∀ c ∈ digits, (NumberType.octal.digit c).isSome = true := by
  have hstring : cString (0x20 :: 0x30 :: digits) = 0x20 :: 0x30 :: digits := cString_eq fun c hc => by
    rcases List.mem_cons.mp hc with rfl | hc
    · decide
    · rcases List.mem_cons.mp hc with rfl | hc
      · decide
      · exact (digit_ne (hdigits c hc)).1
  have hnext : ∀ c, digits.head? = some c → c ≠ 0x78 ∧ c ≠ 0x58 ∧ c ≠ 0x62 ∧ c ≠ 0x42 := fun c hc => by
    have hmem := List.mem_of_mem_head? hc
    obtain ⟨-, -, -, -, -, hX, hx, -⟩ := digit_ne (hdigits c hmem)
    obtain ⟨-, hb, hB, -⟩ := decimal_digit (hdigits c hmem)
    exact ⟨hx, hX, hb, hB⟩
  have hintroducer : readIntroducer (0x30 :: digits) = (.octal, false, digits) := by
    have hhex : ¬(digits.head? = some 0x78 ∨ digits.head? = some 0x58) := fun h =>
      h.elim (fun h => (hnext _ h).1 rfl) fun h => (hnext _ h).2.1 rfl
    have hbinary : ¬(digits.head? = some 0x62 ∨ digits.head? = some 0x42) := fun h =>
      h.elim (fun h => (hnext _ h).2.2.1 rfl) fun h => (hnext _ h).2.2.2 rfl
    exact (if_pos rfl).trans ((if_neg hhex).trans (if_neg hbinary))
  have hsign : readSign true ((0x20 :: 0x30 :: digits).dropWhile isSpace) = .ok (false, 0x30 :: digits) := rfl
  obtain ⟨front, hsplit, hfront⟩ := readDigits_split .octal 0 digits
  rw [stringToInt, hstring, hsign] at hread
  dsimp only [bind, Except.bind] at hread
  rw [hintroducer] at hread
  dsimp only [closeQuote] at hread
  rw [if_neg Bool.false_ne_true] at hread
  dsimp only at hread
  split at hread
  · cases hread
  · rename_i hspaces
    have hrest : (readDigits .octal 0 digits).2 = [] := List.eq_nil_iff_forall_not_mem.mpr fun c hc => by
      have hspace := List.dropWhile_eq_nil_iff.mp (not_not.mp hspaces) c hc
      have hdigit := (digit_ne (hdigits c (hsplit ▸ List.mem_append_right _ hc))).2.2.2.2.2.2.2
      rw [hspace] at hdigit
      cases hdigit
    rw [hrest, List.append_nil] at hsplit
    exact hsplit ▸ hfront

/-! ### Names -/

/-- No encoding of a character is the beginning of another one. -/
theorem utf8EncodeChar_unique {m n : Char} {b : Bytes} (hm : String.utf8EncodeChar m <+: b) (hn : String.utf8EncodeChar n <+: b) :
    m = n := by
  obtain ⟨bm, rfl⟩ := hm
  obtain ⟨bn, hb⟩ := hn
  have hdm : ByteArray.utf8DecodeChar? ((String.utf8EncodeChar m).toByteArray ++ bm.toByteArray) 0 = some m :=
    ByteArray.utf8DecodeChar?_utf8EncodeChar_append
  have hdn : ByteArray.utf8DecodeChar? ((String.utf8EncodeChar n).toByteArray ++ bn.toByteArray) 0 = some n :=
    ByteArray.utf8DecodeChar?_utf8EncodeChar_append
  rw [← List.toByteArray_append, hb, List.toByteArray_append, hdm] at hdn
  exact Option.some.inj hdn

theorem decimal_name (hdigits : ∀ c ∈ digits, (NumberType.decimal.digit c).isSome = true) : 0x3B ∉ (0x23 : UInt8) :: digits := by
  intro h
  rcases List.mem_cons.mp h with h | h
  · exact absurd h (by decide)
  · exact (decimal_digit (hdigits _ h)).2.2.2 rfl

theorem hexadecimal_name (upper : Bool) (hdigits : ∀ c ∈ digits, (NumberType.hexadecimal.digit c).isSome = true) :
    0x3B ∉ (0x23 : UInt8) :: (if upper then 0x58 else 0x78) :: digits := by
  intro h
  rcases List.mem_cons.mp h with h | h
  · exact absurd h (by decide)
  · rcases List.mem_cons.mp h with h | h
    · cases upper <;> exact absurd h (by decide)
    · exact absurd (hdigits _ h) (by decide)

theorem entity_name (toU8string : UInt32 → Option Bytes) (e : Entity) : entity toU8string e.name = .ok [e.character] := by
  cases e <;> rfl

theorem entity_number (hne : digits ≠ []) : entity toU8string (0x23 :: digits) =
    if digits.head? = some 0x78 ∨ digits.head? = some 0x58 then character toU8string (0x30 :: digits)
    else character toU8string (0x20 :: digits) := by
  have hlen : digits.length ≠ 0 := mt List.eq_nil_of_length_eq_zero hne
  simp [entity, Entity.name, hlen, List.head?_eq_getElem?]

/-- A decimal number is right when no zero is in front of it, or when it is the same in base 8. -/
theorem entity_decimal (hutf8 : EncodesUtf8 toU8string) (hne : digits ≠ [])
    (hdigits : ∀ c ∈ digits, (NumberType.decimal.digit c).isSome = true) (hn : digitsValue 10 0 digits = n.toNat) :
    ((digits.head? = some 0x30 → n.toNat < 8) → entity toU8string (0x23 :: digits) = .ok (String.utf8EncodeChar n)) ∧
      (digits.head? = some 0x30 → 8 ≤ n.toNat → ∀ text, entity toU8string (0x23 :: digits) = .ok text →
        ∃ m, m ≠ n ∧ text = String.utf8EncodeChar m) := by
  have hlt := char_lt n
  have hx : ¬(digits.head? = some 0x78 ∨ digits.head? = some 0x58) := fun h => h.elim
    (fun h => (digit_ne (hdigits _ (List.mem_of_mem_head? h))).2.2.2.2.2.2.1 rfl)
    fun h => (digit_ne (hdigits _ (List.mem_of_mem_head? h))).2.2.2.2.2.1 rfl
  rw [entity_number hne, if_neg hx]
  cases digits with
  | nil => exact absurd rfl hne
  | cons c digits =>
    by_cases hzero : c = 0x30
    · subst hzero
      have hrest := (List.forall_mem_cons.mp hdigits).2
      have hvalue : digitsValue 10 0 digits = n.toNat := hn
      obtain ⟨hle, hlarge, hsmall⟩ := digitsValue_octal hrest
      constructor
      · intro h
        obtain ⟨heq, hoctal⟩ := hsmall (by have := h rfl; omega)
        obtain ⟨v, hread, hv⟩ := octal_read hoctal (by omega)
        exact character_of_char hutf8 hread (by omega)
      · intro _ h text htext
        cases hread : stringToInt (0x20 :: 0x30 :: digits) true with
        | error e =>
          rw [character, convertToInt, hread] at htext
          cases htext
        | ok v =>
          have hoctal := octal_of_read hrest hread
          obtain ⟨v', hread', hv⟩ := octal_read hoctal (by omega)
          have := hlarge (by omega) hoctal
          exact character_of_lt hutf8 hread' (by omega) htext
    · have hfirst : (c :: digits).head? ≠ some 0x30 := fun h => hzero (Option.some.inj h)
      obtain ⟨v, hread, hv⟩ := decimal_read hdigits hfirst (by omega)
      exact ⟨fun _ => character_of_char hutf8 hread (hv.trans hn), fun h => absurd h hfirst⟩

theorem entity_hexadecimal (hutf8 : EncodesUtf8 toU8string) (upper : Bool)
    (hdigits : ∀ c ∈ digits, (NumberType.hexadecimal.digit c).isSome = true) (hn : digitsValue 16 0 digits = n.toNat) :
    entity toU8string (0x23 :: (if upper then 0x58 else 0x78) :: digits) = .ok (String.utf8EncodeChar n) := by
  have hlt := char_lt n
  have hx : ((if upper then 0x58 else 0x78) :: digits).head? = some 0x78 ∨
      ((if upper then 0x58 else 0x78) :: digits).head? = some 0x58 := by
    cases upper
    · exact .inl rfl
    · exact .inr rfl
  obtain ⟨v, hread, hv⟩ := hexadecimal_read upper hdigits (by omega)
  rw [entity_number (List.cons_ne_nil _ _), if_pos hx]
  exact character_of_char hutf8 hread (hv.trans hn)

end Numbers

/-! ### The loop -/

section Loop
variable {toU8string : UInt32 → Option Bytes} {done front name rest : Bytes} {c : UInt8}

theorem find_append (hc : c ∉ front) (done rest : Bytes) :
    find c (done ++ (front ++ c :: rest)) done.length = some (done.length + front.length) := by
  have hfront : front.findIdx? (· = c) = none := List.findIdx?_eq_none_iff.mpr fun b hb => decide_eq_false fun h => hc (h ▸ hb)
  have hhead : (c :: rest).findIdx? (· = c) = some 0 := by rw [List.findIdx?_cons, if_pos (decide_eq_true rfl)]
  rw [find, List.drop_left, List.findIdx?_append, hfront, hhead, Option.map_some, Option.none_or, Option.map_some, Nat.zero_add]

theorem find_none (hc : c ∉ rest) (done : Bytes) : find c (done ++ rest) done.length = none := by
  have hrest : rest.findIdx? (· = c) = none := List.findIdx?_eq_none_iff.mpr fun b hb => decide_eq_false fun h => hc (h ▸ hb)
  rw [find, List.drop_left, hrest]
  rfl

theorem append_cons_eq (done rest : Bytes) (c : UInt8) : done ++ c :: rest = (done ++ [c]) ++ rest := by
  rw [List.append_assoc]
  rfl

/-- A character that is copied. -/
theorem unescapeStep_plain (hc : c ≠ 0x26) (done rest : Bytes) :
    unescapeStep toU8string (done ++ c :: rest, done.length) =
      unescapeStep toU8string ((done ++ [c]) ++ rest, (done ++ [c]).length) := by
  have hfind : find 0x26 (done ++ c :: rest) done.length = find 0x26 (done ++ c :: rest) (done ++ [c]).length := by
    rw [find, find, List.drop_left, append_cons_eq done rest c, List.drop_left, List.findIdx?_cons, if_neg (by simpa using hc),
      Option.map_map, List.length_append]
    congr 1
    funext i
    show done.length + (i + 1) = done.length + 1 + i
    omega
  rw [unescapeStep, unescapeStep, ← append_cons_eq done rest c, hfind]

/-- A reference up to its `;`. -/
theorem unescapeStep_reference (hname : 0x3B ∉ name) (done rest : Bytes) :
    unescapeStep toU8string (done ++ (0x26 :: (name ++ [0x3B]) ++ rest), done.length) =
      match entity toU8string name with
      | .error e => .done (.error e)
      | .ok text => .next ((done ++ text) ++ rest, (done ++ text).length) := by
  have hvalue : done ++ (0x26 :: (name ++ [0x3B]) ++ rest) = done ++ 0x26 :: (name ++ 0x3B :: rest) := by
    rw [List.cons_append, List.append_assoc]
    rfl
  have hpos : find 0x26 (done ++ 0x26 :: (name ++ 0x3B :: rest)) done.length = some done.length :=
    find_append List.not_mem_nil done (name ++ 0x3B :: rest)
  have hone : done.length + 1 = (done ++ [0x26]).length := by rw [List.length_append, List.length_singleton]
  have hlast : find 0x3B (done ++ 0x26 :: (name ++ 0x3B :: rest)) (done.length + 1) = some (done.length + 1 + name.length) := by
    rw [append_cons_eq done, hone]
    exact find_append hname _ rest
  have hname' : ((done ++ 0x26 :: (name ++ 0x3B :: rest)).drop (done.length + 1)).take
      (done.length + 1 + name.length - done.length - 1) = name := by
    rw [append_cons_eq done, hone, List.drop_left, ← hone]
    exact List.take_left' (by omega)
  have hrest : (done ++ 0x26 :: (name ++ 0x3B :: rest)).drop (done.length + 1 + name.length + 1) = rest := by
    rw [append_cons_eq done, ← List.append_assoc, append_cons_eq _ rest]
    exact List.drop_left' (by simp only [List.length_append, List.length_singleton])
  rw [unescapeStep, hvalue]
  dsimp only
  rw [hpos]
  dsimp only
  rw [hlast]
  dsimp only
  rw [hname', hrest, List.take_left]
  cases entity toU8string name with
  | error e => rfl
  | ok text =>
    dsimp only
    rw [List.length_append]

/-- Nothing is left to replace. -/
theorem unescapeStep_rest (hrest : rest = [] ∨ ∃ b, rest = 0x26 :: b ∧ 0x3B ∉ b) (done : Bytes) :
    unescapeStep toU8string (done ++ rest, done.length) = .done (.ok (done ++ rest)) := by
  obtain rfl | ⟨b, rfl, hb⟩ := hrest
  · rw [unescapeStep]
    dsimp only
    rw [find_none List.not_mem_nil]
  · have hpos : find 0x26 (done ++ 0x26 :: b) done.length = some done.length := find_append List.not_mem_nil done b
    have hone : done.length + 1 = (done ++ [0x26]).length := by rw [List.length_append, List.length_singleton]
    have hlast : find 0x3B (done ++ 0x26 :: b) (done.length + 1) = none := by
      rw [append_cons_eq done, hone]
      exact find_none hb _
    rw [unescapeStep]
    dsimp only
    rw [hpos]
    dsimp only
    rw [hlast]

/-- What is in front of `pos` stays. -/
theorem finishes_keeps {s : Bytes × Nat} {r : Except XmlError Bytes} (h : Finishes (unescapeStep toU8string) s r) {value : Bytes}
    (hr : r = .ok value) : s.1.take s.2 <+: value := by
  induction h with
  | @next s s' r hs hfinish ih =>
    refine List.IsPrefix.trans ?_ (ih hr)
    unfold unescapeStep at hs
    split at hs
    · cases hs
    · rename_i pos hpos
      split at hs
      · cases hs
      · split at hs
        · cases hs
        · rename_i text htext
          cases hs
          obtain ⟨hle, hlt⟩ := find_bounds hpos
          have hlen : (s.1.take pos ++ text).length = pos + text.length := by
            rw [List.length_append, List.length_take, Nat.min_eq_left hlt.le]
          rw [List.take_left' hlen]
          exact (List.take_prefix_take_left hle).trans (List.prefix_append _ _)
  | done hs =>
    unfold unescapeStep at hs
    split at hs
    · cases hs
      cases hr
      exact List.take_prefix _ _
    · split at hs
      · cases hs
        cases hr
        exact List.take_prefix _ _
      · split at hs
        · cases hs
          cases hr
        · cases hs

/-- A piece is replaced by what it stands for. -/
theorem finishes_piece (hutf8 : EncodesUtf8 toU8string) {p : XmlPiece} (hp : p.Unpadded) (done rest : Bytes)
    (r : Except XmlError Bytes) : Finishes (unescapeStep toU8string) (done ++ (p.text ++ rest), done.length) r ↔
      Finishes (unescapeStep toU8string) ((done ++ p.decoded) ++ rest, (done ++ p.decoded).length) r := by
  have hreference : ∀ name text, 0x3B ∉ name → entity toU8string name = .ok text →
      (Finishes (unescapeStep toU8string) (done ++ (0x26 :: (name ++ [0x3B]) ++ rest), done.length) r ↔
        Finishes (unescapeStep toU8string) ((done ++ text) ++ rest, (done ++ text).length) r) := fun name text hname htext =>
    finishes_next_iff (by rw [unescapeStep_reference hname, htext])
  cases p with
  | plain c hc => exact finishes_congr (unescapeStep_plain hc done rest)
  | entity e => exact hreference e.name [e.character] (by cases e <;> decide) (entity_name toU8string e)
  | decimal digits n hne hdigits hn =>
    exact hreference _ _ (decimal_name hdigits) ((entity_decimal hutf8 hne hdigits hn).1 hp)
  | hexadecimal upper digits n hne hdigits hn =>
    exact hreference _ _ (hexadecimal_name upper hdigits) (entity_hexadecimal hutf8 upper hdigits hn)

/-- A decimal number with a zero in front is not replaced by what it stands for. -/
theorem not_finishes_piece (hutf8 : EncodesUtf8 toU8string) {p : XmlPiece} (hp : ¬p.Unpadded) {value : Bytes}
    (h : Finishes (unescapeStep toU8string) (done ++ (p.text ++ rest), done.length) (.ok value)) : ¬done ++ p.decoded <+: value := by
  cases p with
  | plain c hc => exact absurd trivial hp
  | entity e => exact absurd trivial hp
  | hexadecimal upper digits n hne hdigits hn => exact absurd trivial hp
  | decimal digits n hne hdigits hn =>
    obtain ⟨hzero, hlarge⟩ : digits.head? = some 0x30 ∧ ¬n.toNat < 8 := Classical.not_imp.mp hp
    have hstep := @unescapeStep_reference toU8string _ (decimal_name hdigits) done rest
    cases htext : entity toU8string (0x23 :: digits) with
    | error e =>
      rw [htext] at hstep
      cases (finishes_done_iff hstep).mp h
    | ok text =>
      rw [htext] at hstep
      obtain ⟨m, hm, rfl⟩ := (entity_decimal hutf8 hne hdigits hn).2 hzero (Nat.not_lt.mp hlarge) _ htext
      have hprefix := finishes_keeps ((finishes_next_iff hstep).mp h) rfl
      dsimp only at hprefix
      rw [List.take_left] at hprefix
      obtain ⟨b, rfl⟩ := hprefix
      intro hdecoded
      rw [List.append_assoc] at hdecoded
      exact hm (utf8EncodeChar_unique (List.prefix_append _ b) ((List.prefix_append_right_inj done).mp hdecoded))

/-- The pieces are replaced one after the other. -/
theorem finishes_pieces_iff (hutf8 : EncodesUtf8 toU8string) (hrest : rest = [] ∨ ∃ b, rest = 0x26 :: b ∧ 0x3B ∉ b)
    (pieces : List XmlPiece) (done : Bytes) :
    Finishes (unescapeStep toU8string) (done ++ (pieces.flatMap XmlPiece.text ++ rest), done.length)
      (.ok (done ++ (pieces.flatMap XmlPiece.decoded ++ rest))) ↔ ∀ p ∈ pieces, p.Unpadded := by
  induction pieces generalizing done with
  | nil =>
    rw [List.flatMap_nil, List.flatMap_nil, List.nil_append, finishes_done_iff (unescapeStep_rest hrest done)]
    exact iff_of_true rfl fun p hp => by cases hp
  | cons p pieces ih =>
    rw [List.flatMap_cons, List.flatMap_cons, List.append_assoc, List.append_assoc, List.forall_mem_cons]
    by_cases hp : p.Unpadded
    · rw [finishes_piece hutf8 hp, ← List.append_assoc done p.decoded, ih, and_iff_right hp]
    · refine iff_of_false (fun h => not_finishes_piece hutf8 hp h ?_) fun h => hp h.1
      rw [← List.append_assoc]
      exact List.prefix_append _ _

theorem finishes_pieces (hutf8 : EncodesUtf8 toU8string) {pieces : List XmlPiece} (hpieces : ∀ p ∈ pieces, p.Unpadded)
    (done rest : Bytes) (r : Except XmlError Bytes) :
    Finishes (unescapeStep toU8string) (done ++ (pieces.flatMap XmlPiece.text ++ rest), done.length) r ↔
      Finishes (unescapeStep toU8string)
        ((done ++ pieces.flatMap XmlPiece.decoded) ++ rest, (done ++ pieces.flatMap XmlPiece.decoded).length) r := by
  induction pieces generalizing done with
  | nil => rw [List.flatMap_nil, List.flatMap_nil, List.nil_append, List.append_nil]
  | cons p pieces ih =>
    obtain ⟨hp, hpieces⟩ := List.forall_mem_cons.mp hpieces
    rw [List.flatMap_cons, List.flatMap_cons, List.append_assoc, finishes_piece hutf8 hp, ih hpieces, List.append_assoc done]

end Loop

/-! ### The decoding -/

section
variable {toU8string : UInt32 → Option Bytes}

/-- A text is decoded exactly when no decimal number that differs in base 8 has a zero in front. -/
theorem unescapeEntities_iff (hutf8 : EncodesUtf8 toU8string) (t : XmlText) :
    unescapeEntities toU8string t.text = .ok t.decoded ↔ ∀ p ∈ t.pieces, p.Unpadded :=
  (Machine.eval_eq_iff _).trans (finishes_pieces_iff hutf8 t.rest_plain t.pieces [])

/-- An encoder that does what it has to. -/
def encodeUtf8 (n : UInt32) : Option Bytes := if h : n.isValidChar then some (String.utf8EncodeChar ⟨n, h⟩) else none

theorem encodesUtf8_encodeUtf8 : EncodesUtf8 encodeUtf8 := ⟨fun n => dif_pos n.valid, fun _ h => dif_neg h⟩

/-- `a&lt;&#65;&#07;&#x20AC;& b` -/
def sampleText : XmlText where
  pieces := [.plain 0x61 (by decide), .entity .lt, .decimal [0x36, 0x35] 'A' (by decide) (List.all_eq_true.mp rfl) (by decide),
    .decimal [0x30, 0x37] '\x07' (by decide) (List.all_eq_true.mp rfl) (by decide),
    .hexadecimal false [0x32, 0x30, 0x41, 0x43] '\u20AC' (by decide) (List.all_eq_true.mp rfl) (by decide)]
  rest := [0x26, 0x20, 0x62]
  rest_plain := .inr ⟨_, rfl, by decide⟩

theorem unescapeEntities_iff_sampleText : unescapeEntities encodeUtf8 sampleText.text = .ok sampleText.decoded ↔
    ∀ p ∈ sampleText.pieces, p.Unpadded :=
  unescapeEntities_iff encodesUtf8_encodeUtf8 sampleText

/-- `&#010;` is not a line feed. -/
theorem not_unescapeEntities : ¬∀ toU8string, EncodesUtf8 toU8string → ∀ t : XmlText,
    unescapeEntities toU8string t.text = .ok t.decoded := by
  intro h
  obtain ⟨p, hp⟩ : ∃ p : XmlPiece, p = .decimal [0x30, 0x31, 0x30] '\n' (by decide) (List.all_eq_true.mp rfl) (by decide) :=
    ⟨_, rfl⟩
  have hdecoded := (Machine.eval_eq_iff _).mp (h encodeUtf8 encodesUtf8_encodeUtf8 ⟨[p], [], .inl rfl⟩)
  have hpadded := (finishes_pieces_iff encodesUtf8_encodeUtf8 (.inl rfl) [p] []).mp hdecoded p List.mem_cons_self
  rw [hp] at hpadded
  exact absurd (hpadded rfl) (by decide)

/-- What is not a reference of these kinds is refused, wherever it is. -/
theorem unescapeEntities_error (hutf8 : EncodesUtf8 toU8string) {pieces : List XmlPiece} (hpieces : ∀ p ∈ pieces, p.Unpadded)
    {name : Bytes} (hname : 0x3B ∉ name) {e : XmlError} (he : entity toU8string name = .error e) (rest : Bytes) :
    unescapeEntities toU8string (pieces.flatMap XmlPiece.text ++ (0x26 :: (name ++ [0x3B]) ++ rest)) = .error e := by
  refine (Machine.eval_eq_iff _).mpr ((finishes_pieces hutf8 hpieces [] _ _).mpr ?_)
  refine .done ((unescapeStep_reference hname _ rest).trans ?_)
  rw [he]

/-- `&lt;&;` has a reference without a name. -/
theorem unescapeEntities_error_unnamed :
    unescapeEntities encodeUtf8 ([XmlPiece.entity .lt].flatMap XmlPiece.text ++ (0x26 :: ([] ++ [0x3B]) ++ [])) =
      .error (.invalidEntity "the name of an entity cannot be empty ('&;' is not valid XML).") :=
  unescapeEntities_error encodesUtf8_encodeUtf8 (fun p hp => by cases List.mem_singleton.mp hp; trivial) List.not_mem_nil rfl []

end

end XmlParser

end Snapwebsites.Snapdatabase
