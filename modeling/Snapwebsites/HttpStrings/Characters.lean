import Snapwebsites.HttpStrings.WeightedHttpString

/-! # The scanner on characters

The scanner stops at characters of ASCII only, so that going over the bytes of a text in UTF-8 is going over its characters. -/

namespace Snapwebsites
namespace HttpStrings
open QString

variable {L : Type} (qt : Qt L) {s : QString} {c : Char} {l : List Char} {n : Nat}

/-- The characters of a text. -/
def characters : Units Char where
  code := Char.toNat
  text := fromUtf8
  text_nil := rfl

/-! ### Runs of bytes -/

theorem byte_ge {x : UInt8} (hc : 128 ≤ c.toNat) (hx : x ∈ String.utf8EncodeChar c) : 128 ≤ x.toNat := by
  by_contra hlt
  have := toNat_eq_of_mem hx (Nat.lt_of_not_le hlt)
  omega

theorem exists_byte (c : Char) : ∃ x rest, String.utf8EncodeChar c = x :: rest := by
  refine List.exists_cons_of_ne_nil (List.length_pos_iff.mp ?_)
  rw [String.length_utf8EncodeChar]
  exact c.utf8Size_pos

theorem toNat_ascii (hc : c.toNat < 128) : (UInt8.ofNat c.toNat).toNat = c.toNat := by
  rw [UInt8.toNat_ofNat']
  exact Nat.mod_eq_of_lt (hc.trans (by decide))

/-- A test that does not tell bytes of other characters than ASCII apart finds the same run. -/
theorem takeWhile_utf8 {p : Nat → Bool} (hp : ∀ n, 128 ≤ n → p n = p 128) (s : QString) :
    (utf8 s).takeWhile (fun x => p x.toNat) = utf8 (s.takeWhile fun c => p c.toNat) ∧
      (utf8 s).dropWhile (fun x => p x.toNat) = utf8 (s.dropWhile fun c => p c.toNat) := by
  induction s with
  | nil => exact ⟨rfl, rfl⟩
  | cons c s ih =>
    have hutf8 : utf8 (c :: s) = String.utf8EncodeChar c ++ utf8 s := List.flatMap_cons
    have hsame : ∀ x ∈ String.utf8EncodeChar c, p x.toNat = p c.toNat := by
      intro x hx
      by_cases hc : c.toNat < 128
      · rw [utf8EncodeChar_ascii hc, List.mem_singleton] at hx
        rw [hx, toNat_ascii hc]
      · have hge := Nat.le_of_not_lt hc
        rw [hp _ (byte_ge hge hx), hp _ hge]
    rw [hutf8, List.takeWhile_cons, List.dropWhile_cons]
    by_cases htrue : p c.toNat = true
    · rw [List.takeWhile_append_of_pos fun x hx => (hsame x hx).trans htrue,
        List.dropWhile_append_of_pos fun x hx => (hsame x hx).trans htrue, ih.1, ih.2, if_pos htrue, if_pos htrue]
      exact ⟨rfl, rfl⟩
    · obtain ⟨x, rest, hx⟩ := exists_byte c
      have hfirst : ¬ p x.toNat = true := by rwa [hsame x (hx ▸ List.mem_cons_self)]
      rw [if_neg htrue, if_neg htrue, hutf8, hx, List.cons_append, List.takeWhile_cons, List.dropWhile_cons, if_neg hfirst,
        if_neg hfirst]
      exact ⟨rfl, rfl⟩

/-- Characters of ASCII. -/
def Ascii (l : List Char) : Prop := ∀ c ∈ l, c.toNat < 128

instance (l : List Char) : Decidable (Ascii l) := inferInstanceAs (Decidable (∀ c ∈ l, c.toNat < 128))

theorem skip_utf8 (hl : Ascii l) (s : QString) : skip bytes l (utf8 s) = utf8 (skip characters l s) := by
  refine (takeWhile_utf8 (p := fun n => l.any fun c => c.toNat = n) (fun n hn => ?_) s).2
  have hnone : ∀ m, 128 ≤ m → (l.any fun c => decide (c.toNat = m)) = false := by
    intro m hm
    rw [List.any_eq_false]
    intro c hc h
    have := hl c hc
    have := of_decide_eq_true h
    omega
  rw [hnone n hn, hnone 128 (le_refl _)]

theorem stops_ge (hl : Ascii l) (hn : 128 ≤ n) : (decide (n ≠ 0) && l.all fun c => decide (c.toNat ≠ n)) = true := by
  rw [Bool.and_eq_true, List.all_eq_true]
  refine ⟨decide_eq_true (by omega), fun c hc => decide_eq_true ?_⟩
  have := hl c hc
  omega

theorem before_utf8 (hl : Ascii l) (s : QString) : before bytes l (utf8 s) = utf8 (before characters l s) :=
  (takeWhile_utf8 (p := fun n => n ≠ 0 && l.all fun c => c.toNat ≠ n)
    (fun _ hn => (stops_ge hl hn).trans (stops_ge hl (le_refl _)).symm) s).1

theorem behind_utf8 (hl : Ascii l) (s : QString) : behind bytes l (utf8 s) = utf8 (behind characters l s) :=
  (takeWhile_utf8 (p := fun n => n ≠ 0 && l.all fun c => c.toNat ≠ n)
    (fun _ hn => (stops_ge hl hn).trans (stops_ge hl (le_refl _)).symm) s).2

theorem peek_utf8 (hn : n < 128) (s : QString) : peek bytes (utf8 s) = n ↔ peek characters s = n := by
  cases s with
  | nil => exact Iff.rfl
  | cons c s =>
    by_cases hc : c.toNat < 128
    · have hbytes : utf8 (c :: s) = UInt8.ofNat c.toNat :: utf8 s := by
        rw [utf8, List.flatMap_cons, utf8EncodeChar_ascii hc]
        rfl
      have hcode : peek bytes (utf8 (c :: s)) = c.toNat := by
        rw [hbytes]
        exact toNat_ascii hc
      rw [hcode]
      exact Iff.rfl
    · have hge := Nat.le_of_not_lt hc
      obtain ⟨x, rest, hx⟩ := exists_byte c
      have hfirst : 128 ≤ peek bytes (utf8 (c :: s)) := by
        rw [utf8, List.flatMap_cons, hx]
        exact byte_ge hge (hx ▸ List.mem_cons_self)
      have hsecond : peek characters (c :: s) = c.toNat := rfl
      omega

theorem tail_utf8 (hn : n < 128) (h : peek characters s = n) : (utf8 s).tail = utf8 s.tail := by
  cases s with
  | nil => rfl
  | cons c s =>
    have hc : c.toNat = n := h
    rw [utf8, List.flatMap_cons, utf8EncodeChar_ascii (hc ▸ hn)]
    rfl

theorem text_utf8 (s : QString) : bytes.text (utf8 s) = characters.text s := congrArg fromUtf8 (decodeUtf8_utf8 s)

/-! ### The parser -/

theorem ascii_blanks : Ascii blanks := by decide

theorem readQuoted_utf8 (hc : c.toNat < 128) (quoted : QString → QString) (s : QString) :
    readQuoted bytes c quoted (utf8 s) = ((readQuoted characters c quoted s).1, utf8 (readQuoted characters c quoted s).2) := by
  have hl : Ascii [c] := fun d hd => by rwa [List.mem_singleton.mp hd]
  rw [readQuoted, readQuoted, before_utf8 hl, behind_utf8 hl, text_utf8]
  simp only [peek_utf8 hc]
  split
  · rw [tail_utf8 hc ‹_›, skip_utf8 ascii_blanks]
  · rw [skip_utf8 ascii_blanks]

theorem readValue_utf8 (quoted : QString → QString) (s : QString) :
    readValue bytes quoted (utf8 s) = ((readValue characters quoted s).1, utf8 (readValue characters quoted s).2) := by
  have hdouble : '"'.toNat < 128 := by decide
  have hsingle : '\''.toNat < 128 := by decide
  have hstops : Ascii [';', ','] := by decide
  rw [readValue, readValue, skip_utf8 ascii_blanks]
  simp only [peek_utf8 hdouble, peek_utf8 hsingle]
  split
  · rw [tail_utf8 hdouble ‹_›, readQuoted_utf8 hdouble]
  · split
    · rw [tail_utf8 hsingle ‹_›, readQuoted_utf8 hsingle]
    · rw [before_utf8 hstops, behind_utf8 hstops, text_utf8]

/-- What was read, with the bytes of the rest. -/
def onBytes (r : Part L × QString × QString) : Part L × QString × Bytes := (r.1, r.2.1, utf8 r.2.2)

/-- A value, where there is an equal sign. -/
theorem value_utf8 (quoted : QString → QString) (s : QString) :
    (if peek bytes (utf8 s) = '='.toNat then readValue bytes quoted (utf8 s).tail else ([], utf8 s)) =
      ((if peek characters s = '='.toNat then readValue characters quoted s.tail else ([], s)).1,
        utf8 (if peek characters s = '='.toNat then readValue characters quoted s.tail else ([], s)).2) := by
  have hequal : '='.toNat < 128 := by decide
  simp only [peek_utf8 hequal]
  split
  · rw [tail_utf8 hequal ‹_›, readValue_utf8]
  · rfl

theorem readNamed_utf8 (part : Part L) (name s : QString) :
    readNamed qt bytes part name (utf8 s) = onBytes (readNamed qt characters part name s) := by
  rw [readNamed, value_utf8, readNamed]
  split
  · rfl
  · rfl

/-- Where the first unit is passed anyway, it can be left out. -/
theorem behind_tail {α : Type} {u : Units α} {s : List α} (hzero : peek u s ≠ 0) (hl : ∀ c ∈ l, peek u s ≠ c.toNat) :
    behind u l s.tail = behind u l s := by
  cases s with
  | nil => rfl
  | cons x s =>
    have hx : (decide (u.code x ≠ 0) && l.all fun c => decide (c.toNat ≠ u.code x)) = true := by
      rw [Bool.and_eq_true, List.all_eq_true]
      exact ⟨decide_eq_true hzero, fun c hc => decide_eq_true (Ne.symm (hl c hc))⟩
    rw [behind, behind, List.dropWhile_cons, hx, if_pos rfl]
    rfl

theorem skipSpurious_utf8 (r : Part L × QString × QString) :
    skipSpurious bytes (onBytes r) = onBytes (skipSpurious characters r) := by
  have hstops : Ascii [',', ';'] := by decide
  have hzero : 0 < 128 := by decide
  have hsemicolon : ';'.toNat < 128 := by decide
  have hcomma : ','.toNat < 128 := by decide
  rw [skipSpurious, skipSpurious]
  simp only [onBytes, ne_eq, peek_utf8 hzero, peek_utf8 hsemicolon, peek_utf8 hcomma]
  split
  · obtain ⟨hnul, hnot, hnot'⟩ := ‹¬ peek characters r.2.2 = 0 ∧ _›
    have hl : ∀ c ∈ [',', ';'], peek characters r.2.2 ≠ c.toNat := by
      intro c hc
      rcases List.mem_pair.mp hc with rfl | rfl
      · exact hnot'
      · exact hnot
    have hl' : ∀ c ∈ [',', ';'], peek bytes (utf8 r.2.2) ≠ c.toNat := fun c hc h =>
      hl c hc ((peek_utf8 (hstops c hc) _).mp h)
    have hnul' : peek bytes (utf8 r.2.2) ≠ 0 := fun h => hnul ((peek_utf8 hzero _).mp h)
    rw [behind_tail hnul hl, behind_tail hnul' hl', behind_utf8 hstops]
  · rfl

theorem readParameter_utf8 (part : Part L) (s : QString) :
    readParameter qt bytes part (utf8 s) = onBytes (readParameter qt characters part s) := by
  have hskip : Ascii [';', ' ', '\t'] := by decide
  have hstops : Ascii [',', ';', '='] := by decide
  rw [readParameter, readParameter, skip_utf8 hskip, before_utf8 hstops, behind_utf8 hstops, text_utf8, ← skipSpurious_utf8]
  congr 1
  split
  · rfl
  · rw [readNamed_utf8]

theorem readParameters_utf8 (part : Part L) (s : QString) :
    readParameters qt bytes part (utf8 s) = onBytes (readParameters qt characters part s) := by
  have hsemicolon : ';'.toNat < 128 := by decide
  induction h : s.length using Nat.strong_induction_on generalizing part s with
  | _ n ih =>
    rw [readParameters_eq, readParameters_eq]
    simp only [peek_utf8 hsemicolon]
    split
    · have htail : s.tail.length < s.length := length_tail_lt (n := ';'.toNat) (by decide) ‹_›
      have hlt := (length_readParameter qt (u := characters) part s.tail).trans_lt htail
      rw [tail_utf8 hsemicolon ‹_›, readParameter_utf8, onBytes]
      simp only
      rw [ih _ (h ▸ hlt) _ _ rfl]
      rfl
    · rfl

theorem readPart_utf8 (s : QString) : readPart qt bytes (utf8 s) = (readPart qt characters s).map onBytes := by
  have hstops : Ascii [',', ';', '=', ' ', '\t'] := by decide
  rw [readPart, readPart, before_utf8 hstops, behind_utf8 hstops, text_utf8, skip_utf8 ascii_blanks]
  simp only
  rw [value_utf8]
  split
  · rfl
  · rw [readParameters_utf8]
    rfl

/-- The parser finds the same parts and errors in the bytes of a text and in its characters. -/
theorem readParts_utf8 (s : QString) : readParts qt bytes (utf8 s) = readParts qt characters s := by
  have hseparators : Ascii separators := by decide
  have hzero : 0 < 128 := by decide
  have hcomma : ','.toNat < 128 := by decide
  induction h : s.length using Nat.strong_induction_on generalizing s with
  | _ n ih =>
    rw [readParts_eq, readParts_eq, skip_utf8 hseparators]
    simp only [peek_utf8 hzero]
    split
    · rfl
    · rw [readPart_utf8]
      cases hpart : readPart qt characters (skip characters separators s) with
      | none => rfl
      | some r =>
        have hlt := (length_readPart qt characters hpart).trans_le (length_skip separators s)
        simp only [Option.map_some, onBytes, ne_eq, peek_utf8 hzero, peek_utf8 hcomma]
        rw [ih _ (h ▸ hlt) _ rfl]

end HttpStrings
end Snapwebsites
