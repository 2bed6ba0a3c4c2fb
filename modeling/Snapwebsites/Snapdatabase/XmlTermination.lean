import Snapwebsites.Snapdatabase.XmlReader

/-! # What the parser ends on

`get_token()` looks for the end of the file in all its loops but one: the value of an attribute that has neither its quote nor a `>` is
read forever. -/

namespace Snapwebsites.Snapdatabase.XmlParser

open Machine (Step Finishes Ends Reaches ends_iff)

/-! ### Values without an end -/

/-- What is behind the first `-->`. -/
def afterComment : Bytes → Option Bytes
  | [] => none
  | c :: rest => if c = 0x2D ∧ rest.take 2 = [0x2D, 0x3E] then some (rest.drop 2) else afterComment rest

/-- Behind blanks and comments, a quote that is not closed. -/
inductive Unclosed : Bytes → Prop
  | blank {c : UInt8} {rest : Bytes} : isBlank c = true → Unclosed rest → Unclosed (c :: rest)
  | comment {body rest : Bytes} : afterComment body = some rest → Unclosed rest → Unclosed (0x3C :: 0x21 :: 0x2D :: 0x2D :: body)
  | value {quote : UInt8} {rest : Bytes} : quote = 0x22 ∨ quote = 0x27 → quote ∉ rest → 0x3E ∉ rest → Unclosed (quote :: rest)

/-- A call is caught where the rest of an unclosed value is in front of it. -/
def Caught (parsingAttributes : Bool) (mode : XmlMode) (characters : Bytes) : Prop :=
  match mode with
  | .start => parsingAttributes = true ∧ Unclosed characters
  | .markup => parsingAttributes = true ∧ Unclosed (0x3C :: characters)
  | .declaration => parsingAttributes = true ∧ Unclosed (0x3C :: 0x21 :: characters)
  | .declarationDash => parsingAttributes = true ∧ Unclosed (0x3C :: 0x21 :: 0x2D :: characters)
  | .comment => parsingAttributes = true ∧ ∃ rest, afterComment characters = some rest ∧ Unclosed rest
  | .commentDash => parsingAttributes = true ∧ ∃ rest, afterComment (0x2D :: characters) = some rest ∧ Unclosed rest
  | .commentDashes => parsingAttributes = true ∧ ∃ rest, afterComment (0x2D :: 0x2D :: characters) = some rest ∧ Unclosed rest
  | .value quote => quote ∉ characters ∧ 0x3E ∉ characters
  | _ => False

section
variable {c : UInt8} {rest : Bytes}

theorem unclosed_nil : ¬Unclosed [] := nofun

theorem unclosed_blank_iff (hc : isBlank c = true) : Unclosed (c :: rest) ↔ Unclosed rest := by
  constructor
  · rintro (⟨-, h⟩ | ⟨-, -⟩ | ⟨hq, -, -⟩)
    · exact h
    · exact absurd hc (by decide)
    · rcases hq with rfl | rfl <;> exact absurd hc (by decide)
  · exact .blank hc

theorem unclosed_value_iff (hc : c = 0x22 ∨ c = 0x27) : Unclosed (c :: rest) ↔ c ∉ rest ∧ 0x3E ∉ rest := by
  constructor
  · rintro (⟨hb, -⟩ | ⟨-, -⟩ | ⟨-, hq, hr⟩)
    · rcases hc with rfl | rfl <;> exact absurd hb (by decide)
    · rcases hc with hc | hc <;> exact absurd hc (by decide)
    · exact ⟨hq, hr⟩
  · exact fun h => .value hc h.1 h.2

theorem unclosed_markup_iff : Unclosed (0x3C :: rest) ↔
    ∃ body behind, rest = 0x21 :: 0x2D :: 0x2D :: body ∧ afterComment body = some behind ∧ Unclosed behind := by
  constructor
  · rintro (⟨hb, -⟩ | ⟨ha, h⟩ | ⟨hq, -, -⟩)
    · exact absurd hb (by decide)
    · exact ⟨_, _, rfl, ha, h⟩
    · exact absurd hq (by decide)
  · rintro ⟨body, behind, rfl, ha, h⟩
    exact .comment ha h

theorem not_unclosed (hblank : ¬isBlank c = true) (hmarkup : c ≠ 0x3C) (hquote : ¬(c = 0x22 ∨ c = 0x27)) : ¬Unclosed (c :: rest) := by
  rintro (⟨hb, -⟩ | ⟨-, -⟩ | ⟨hq, -, -⟩)
  · exact hblank hb
  · exact hmarkup rfl
  · exact hquote hq

theorem afterComment_of_ne (hc : c ≠ 0x2D) : afterComment (c :: rest) = afterComment rest := if_neg fun h => hc h.1

/-- A dash that is not followed by another one. -/
theorem afterComment_dash (hc : c ≠ 0x2D) : afterComment (0x2D :: c :: rest) = afterComment rest := by
  rw [afterComment, if_neg, afterComment_of_ne hc]
  rintro ⟨-, h⟩
  exact hc (List.cons.inj h).1

/-- Two dashes that are not followed by `>`. -/
theorem afterComment_dashes (hc : c ≠ 0x3E) : afterComment (0x2D :: 0x2D :: c :: rest) = afterComment (0x2D :: c :: rest) := by
  rw [afterComment, if_neg]
  rintro ⟨-, h⟩
  exact hc (List.cons.inj (List.cons.inj h).2).1

theorem afterComment_end : afterComment (0x2D :: 0x2D :: 0x3E :: rest) = some rest := if_pos ⟨rfl, rfl⟩

end

/-! ### What an action keeps -/

/-- An action leads to a call that is caught exactly when the one in front of it is; nothing is given back by those that are. -/
def Keeps (parsingAttributes : Bool) (mode : XmlMode) (characters : Bytes) : XmlAction → Prop
  | .go mode' _ => Caught parsingAttributes mode' characters.tail ↔ Caught parsingAttributes mode characters
  | .goBack mode' _ => ¬Caught parsingAttributes mode' characters ∧ ¬Caught parsingAttributes mode characters
  | _ => ¬Caught parsingAttributes mode characters

theorem actStart_keeps (attributes : Bool) (value characters : Bytes) :
    Keeps attributes .start characters (actStart attributes value characters.head?) := by
  cases attributes with
  | false =>
    rcases characters with _ | ⟨c, rest⟩
    · exact fun h => by cases h.1
    · have hnot : ¬Caught false .start (c :: rest) := fun h => by cases h.1
      simp only [actStart, List.head?_cons, Bool.false_and, Bool.false_eq_true, if_false]
      split
      · exact iff_of_false (fun h => by cases h.1) hnot
      · exact iff_of_false id hnot
  | true =>
    rcases characters with _ | ⟨c, rest⟩
    · exact fun h => unclosed_nil h.2
    · have hstart : Caught true .start (c :: rest) ↔ Unclosed (c :: rest) := and_iff_right rfl
      simp only [actStart, List.head?_cons, Bool.true_and]
      split
      · rename_i hblank
        exact (and_iff_right rfl).trans ((unclosed_blank_iff hblank).symm.trans hstart.symm)
      · rename_i hblank
        split
        · rename_i hmarkup
          subst hmarkup
          exact Iff.rfl
        · rename_i hmarkup
          by_cases hquote : c = 0x22 ∨ c = 0x27
          · have hends : ¬c = 0x3E ∧ ¬c = 0x2F ∧ ¬c = 0x3D := by
              rcases hquote with rfl | rfl <;> decide
            simp only [hends.1, hends.2.1, hends.2.2, hquote, decide_false, Bool.false_eq_true, if_false, Bool.or_eq_true,
              decide_eq_true_eq, if_true]
            exact (unclosed_value_iff hquote).symm.trans hstart.symm
          · have hnot : ¬Caught true .start (c :: rest) := fun h => not_unclosed hblank hmarkup hquote h.2
            simp only [Bool.or_eq_true, decide_eq_true_eq, hquote, if_false]
            split
            · exact hnot
            · split
              · exact iff_of_false id hnot
              · split
                · exact hnot
                · split <;> exact iff_of_false id hnot

section
variable {attributes : Bool} {value characters rest : Bytes} {c : UInt8}

/-- Only a comment can be behind `<`. -/
theorem caught_markup (h : Caught attributes .markup characters) : ∃ body, characters = 0x21 :: 0x2D :: 0x2D :: body := by
  obtain ⟨body, -, hbody, -⟩ := unclosed_markup_iff.mp h.2
  exact ⟨body, hbody⟩

theorem actMarkup_keeps (attributes : Bool) (value characters : Bytes) :
    Keeps attributes .markup characters (actMarkup value characters.head?) := by
  have hnot : characters.head? ≠ some 0x21 → ¬Caught attributes .markup characters := fun hc h => by
    obtain ⟨body, rfl⟩ := caught_markup h
    exact hc rfl
  unfold actMarkup
  split
  · rename_i hc
    exact iff_of_false id (hnot (by rw [hc]; decide))
  · split
    · rename_i hc
      rcases characters with _ | ⟨c, rest⟩
      · cases hc
      · obtain rfl := Option.some.inj hc
        exact Iff.rfl
    · rename_i hc
      have hnot := hnot hc
      split
      · exact iff_of_false id hnot
      · unfold actOpenSpace noName
        split
        · exact iff_of_false id hnot
        · split
          · exact iff_of_false id hnot
          · split <;> exact hnot

theorem actDeclaration_keeps (attributes : Bool) (value characters : Bytes) :
    Keeps attributes .declaration characters (actDeclaration value characters.head?) := by
  have hnot : characters.head? ≠ some 0x2D → ¬Caught attributes .declaration characters := fun hc h => by
    obtain ⟨body, hbody⟩ := caught_markup h
    obtain rfl := (List.cons.inj hbody).2
    exact hc rfl
  unfold actDeclaration
  split
  · rename_i hc
    exact hnot fun h => absurd (h ▸ hc) (by decide)
  · split
    · rename_i hc
      exact iff_of_false id (hnot (by rw [hc]; decide))
    · split
      · rename_i hc
        rcases characters with _ | ⟨c, rest⟩
        · cases hc
        · obtain rfl := Option.some.inj hc
          exact Iff.rfl
      · rename_i hc
        exact hnot hc

theorem actDeclarationDash_keeps (attributes : Bool) (value characters : Bytes) : Keeps attributes .declarationDash characters
    (if characters.head? = some 0x2D then .go .comment value else notDeclaration characters.head?) := by
  split
  · rename_i hc
    rcases characters with _ | ⟨c, rest⟩
    · cases hc
    · obtain rfl := Option.some.inj hc
      refine and_congr_right fun _ => ⟨fun h => ?_, fun h => ?_⟩
      · obtain ⟨behind, ha, h⟩ := h
        exact .comment ha h
      · obtain ⟨body, behind, hbody, ha, h⟩ := unclosed_markup_iff.mp h
        cases hbody
        exact ⟨behind, ha, h⟩
  · rename_i hc
    intro h
    obtain ⟨body, hbody⟩ := caught_markup h
    cases hbody
    exact hc rfl

theorem actComment_keeps (attributes : Bool) (value characters : Bytes) :
    Keeps attributes .comment characters (actComment value characters.head?) := by
  rcases characters with _ | ⟨c, rest⟩
  · rintro ⟨-, behind, ha, -⟩
    cases ha
  · simp only [actComment, List.head?_cons]
    split
    · rename_i hc
      subst hc
      exact Iff.rfl
    · rename_i hc
      simp only [Keeps, Caught, afterComment_of_ne hc, List.tail_cons]

theorem actCommentDash_keeps (attributes : Bool) (value characters : Bytes) : Keeps attributes .commentDash characters
    (if characters.head? = some 0x2D then .go .commentDashes value else .go .comment value) := by
  rcases characters with _ | ⟨c, rest⟩
  · exact Iff.rfl
  · split
    · rename_i hc
      obtain rfl := Option.some.inj hc
      exact Iff.rfl
    · rename_i hc
      have hc' : c ≠ 0x2D := fun h => hc (congrArg some h)
      simp only [Keeps, Caught, afterComment_dash hc', List.tail_cons]

theorem actCommentDashes_keeps (attributes : Bool) (value characters : Bytes) :
    Keeps attributes .commentDashes characters (actCommentDashes value characters.head?) := by
  rcases characters with _ | ⟨c, rest⟩
  · exact Iff.rfl
  · unfold actCommentDashes
    split
    · rename_i hc
      obtain rfl := Option.some.inj hc
      simp only [Keeps, Caught, afterComment_end, List.tail_cons, Option.some.injEq, exists_eq_left']
    · rename_i hend
      have hend' : c ≠ 0x3E := fun h => hend (congrArg some h)
      split
      · rename_i hc
        obtain rfl := Option.some.inj hc
        simp only [Keeps, Caught, afterComment_dashes hend', List.tail_cons]
      · rename_i hc
        have hc' : c ≠ 0x2D := fun h => hc (congrArg some h)
        simp only [Keeps, Caught, afterComment_dashes hend', afterComment_dash hc', List.tail_cons]

theorem actValue_keeps (toU8string : UInt32 → Option Bytes) (attributes : Bool) (quote : UInt8) (value characters : Bytes) :
    Keeps attributes (.value quote) characters (actValue toU8string quote value characters.head?) := by
  unfold actValue
  split
  · rename_i hc
    exact fun h => h.1 (List.mem_of_mem_head? hc)
  · rename_i hquote
    split
    · rename_i hc
      exact fun h => h.2 (List.mem_of_mem_head? hc)
    · rename_i hend
      rcases characters with _ | ⟨c, rest⟩
      · exact Iff.rfl
      · have hquote' : quote ≠ c := fun h => hquote (congrArg some h.symm)
        have hend' : 0x3E ≠ c := fun h => hend (congrArg some h.symm)
        simp only [Keeps, Caught, List.tail_cons, List.mem_cons, hquote', hend', false_or]

/-- Every mode does. -/
theorem act_keeps (toU8string : UInt32 → Option Bytes) (attributes : Bool) (mode : XmlMode) (value characters : Bytes) :
    Keeps attributes mode characters (act toU8string attributes mode value characters.head?) := by
  cases mode with
  | start => exact actStart_keeps attributes value characters
  | markup => exact actMarkup_keeps attributes value characters
  | declaration => exact actDeclaration_keeps attributes value characters
  | declarationDash => exact actDeclarationDash_keeps attributes value characters
  | comment => exact actComment_keeps attributes value characters
  | commentDash => exact actCommentDash_keeps attributes value characters
  | commentDashes => exact actCommentDashes_keeps attributes value characters
  | value quote => exact actValue_keeps toU8string attributes quote value characters
  | processor =>
    rcases characters with _ | ⟨c, rest⟩
    · exact not_false
    · simp only [act, actProcessor, List.head?_cons]
      split <;> exact Iff.rfl
  | cdata =>
    rcases characters with _ | ⟨c, rest⟩
    · exact not_false
    · simp only [act, actCdata, List.head?_cons]
      split <;> exact Iff.rfl
  | processorMark | cdataOpen | cdataBracket | cdataBrackets | closeSpace | closeName | closeEnd | openSpace | openName | openEnd
  | slash | identifier | text =>
    simp only [act, actProcessorMark, actCdataOpen, actCdataBracket, actCdataBrackets, actCloseSpace, actCloseEnd, actOpenSpace,
      actOpenName, noName]
    repeat' split
    all_goals first
      | exact not_false
      | exact Iff.rfl
      | exact ⟨not_false, not_false⟩

end

/-! ### What is left to read -/

/-- Modes that may go back to another one at the end of the file. -/
def rank : XmlMode → Nat
  | .processorMark | .cdataBracket | .cdataBrackets | .commentDash | .commentDashes | .slash => 1
  | _ => 0

/-- An action leaves less to read. From the start of a token, it reads a character or gives the end of the file. -/
def Reads (mode : XmlMode) (characters : Bytes) : XmlAction → Prop
  | .go mode' _ => 2 * characters.tail.length + rank mode' < 2 * characters.length + rank mode
  | .goBack mode' _ => rank mode' < rank mode ∧ mode ≠ .start
  | .give type _ => mode = .start → type = .eof ∨ characters.tail.length < characters.length
  | .giveBack _ _ => mode ≠ .start
  | .fail _ => True

theorem rank_le (mode : XmlMode) : rank mode ≤ 1 := by
  unfold rank
  split <;> decide

section
variable {toU8string : UInt32 → Option Bytes} {attributes : Bool} {mode : XmlMode} {value characters rest : Bytes} {c : UInt8}

theorem reads_go (mode mode' : XmlMode) (value rest : Bytes) (c : UInt8) : Reads mode (c :: rest) (.go mode' value) := by
  have := rank_le mode'
  simp only [Reads, List.tail_cons, List.length_cons]
  omega

theorem reads_give (type : XmlTokenType) (value : Except XmlError Bytes) (rest : Bytes) (c : UInt8) :
    Reads mode (c :: rest) (.give type value) := fun _ => .inr (Nat.lt_succ_self _)

theorem act_reads_cons (toU8string : UInt32 → Option Bytes) (attributes : Bool) (mode : XmlMode) (value rest : Bytes) (c : UInt8) :
    Reads mode (c :: rest) (act toU8string attributes mode value (some c)) := by
  cases mode <;>
    simp only [act, actStart, actMarkup, actProcessor, actProcessorMark, actDeclaration, actCdataOpen, actCdata, actCdataBracket,
      actCdataBrackets, actComment, actCommentDashes, actCloseSpace, actCloseEnd, actOpenSpace, actOpenName, actValue, noName,
      notDeclaration] <;>
    repeat' split
  all_goals first
    | exact reads_go _ _ _ _ _
    | exact reads_give _ _ _ _
    | exact trivial
    | exact ⟨by decide, nofun⟩
    | exact nofun

/-- At the end of the file, only a value goes on. -/
theorem act_reads_nil (hmode : ∀ quote, mode ≠ .value quote) (value : Bytes) :
    Reads mode [] (act toU8string attributes mode value none) := by
  cases mode with
  | value quote => exact absurd rfl (hmode quote)
  | start => exact fun _ => .inl rfl
  | text | identifier | openEnd => exact nofun
  | processorMark | cdataBracket | cdataBrackets | commentDash | commentDashes => exact (by decide : (0 : Nat) < 1)
  | slash => exact ⟨by decide, nofun⟩
  | cdataOpen j =>
    have hne : (none : Option UInt8) ≠ some (cdataName.getD j 0) := nofun
    rw [act, actCdataOpen, if_pos hne]
    exact trivial
  | _ => exact trivial

theorem act_reads (h : ¬Caught attributes mode characters) :
    Reads mode characters (act toU8string attributes mode value characters.head?) := by
  cases characters with
  | nil =>
    refine act_reads_nil (fun quote hmode => ?_) value
    subst hmode
    exact h ⟨List.not_mem_nil, List.not_mem_nil⟩
  | cons c rest => exact act_reads_cons toU8string attributes mode value rest c

end

/-! ### The calls -/

theorem getc_characters (i : XmlInput) : (getc i).1 = i.characters.head? ∧ (getc i).2.characters = i.characters.tail := by
  obtain ⟨ungot, rest⟩ := i
  cases ungot with
  | cons c ungot => exact ⟨rfl, rfl⟩
  | nil =>
    cases rest with
    | nil => exact ⟨rfl, rfl⟩
    | cons c rest =>
      simp only [getc, XmlInput.characters, List.nil_append]
      by_cases hreturn : c = 0x0D
      · simp only [hreturn, if_true]
        cases rest with
        | nil => exact ⟨rfl, rfl⟩
        | cons b rest =>
          by_cases hb : b = 0x0A
          · simp [lines, hb]
          · simp [lines, hb]
      · cases rest <;> simp [lines, hreturn]

theorem ungetc_characters {c : Option UInt8} {i i' : XmlInput} (h : ungetc c i = .ok i') :
    i'.characters = c.toList ++ i.characters := by
  cases c with
  | none =>
    cases h
    rfl
  | some c =>
    rw [ungetc] at h
    split at h
    · cases h
    · cases h
      rfl

section
variable {toU8string : UInt32 → Option Bytes} {s s' : XmlCall} {i i' : XmlInput} {token : XmlToken}

theorem ungetc_getc (h : ungetc (getc i).1 (getc i).2 = .ok i') : i'.characters = i.characters := by
  rw [ungetc_characters h, (getc_characters i).1, (getc_characters i).2]
  cases i.characters <;> rfl

/-- The action of a step. -/
def action (toU8string : UInt32 → Option Bytes) (s : XmlCall) : XmlAction :=
  act toU8string s.parsingAttributes s.mode s.value s.input.characters.head?

theorem tokenStep_eq (toU8string : UInt32 → Option Bytes) (s : XmlCall) : tokenStep toU8string s =
    match action toU8string s with
    | .go mode value => .next { s with mode, value, input := (getc s.input).2 }
    | .goBack mode value =>
      match ungetc (getc s.input).1 (getc s.input).2 with
      | .error e => .done (.error e)
      | .ok input => .next { s with mode, value, input }
    | .give type value => .done (value.map fun value => (⟨type, value⟩, (getc s.input).2))
    | .giveBack type value =>
      match ungetc (getc s.input).1 (getc s.input).2 with
      | .error e => .done (.error e)
      | .ok input => .done (value.map fun value => (⟨type, value⟩, input))
    | .fail e => .done (.error e) := by
  rw [action, ← (getc_characters s.input).1]
  rfl

theorem tokenStep_next (h : tokenStep toU8string s = .next s') : s'.parsingAttributes = s.parsingAttributes ∧
    (action toU8string s = .go s'.mode s'.value ∧ s'.input.characters = s.input.characters.tail ∨
      action toU8string s = .goBack s'.mode s'.value ∧ s'.input.characters = s.input.characters) := by
  rw [tokenStep_eq] at h
  cases haction : action toU8string s with
  | go mode value =>
    rw [haction] at h
    cases h
    exact ⟨rfl, .inl ⟨rfl, (getc_characters s.input).2⟩⟩
  | goBack mode value =>
    rw [haction] at h
    dsimp only at h
    split at h
    · cases h
    · rename_i hungetc
      cases h
      exact ⟨rfl, .inr ⟨rfl, ungetc_getc hungetc⟩⟩
  | give type value =>
    rw [haction] at h
    cases h
  | giveBack type value =>
    rw [haction] at h
    dsimp only at h
    split at h <;> cases h
  | fail e =>
    rw [haction] at h
    cases h

theorem tokenStep_done {r : XmlRead} (h : tokenStep toU8string s = .done r) : ∀ mode value, action toU8string s ≠ .go mode value := by
  intro mode value haction
  rw [tokenStep_eq, haction] at h
  cases h

/-- The token that is given, and what is left behind it. -/
theorem tokenStep_ok (h : tokenStep toU8string s = .done (.ok (token, i))) : ∃ value,
    action toU8string s = .give token.type value ∧ i.characters = s.input.characters.tail ∨
      action toU8string s = .giveBack token.type value ∧ i.characters = s.input.characters := by
  rw [tokenStep_eq] at h
  cases haction : action toU8string s with
  | go mode value =>
    rw [haction] at h
    cases h
  | goBack mode value =>
    rw [haction] at h
    dsimp only at h
    split at h <;> cases h
  | give type value =>
    rw [haction] at h
    cases value with
    | error e => cases h
    | ok v =>
      cases h
      exact ⟨_, .inl ⟨rfl, (getc_characters s.input).2⟩⟩
  | giveBack type value =>
    rw [haction] at h
    dsimp only at h
    split at h
    · cases h
    · rename_i hungetc
      cases value with
      | error e => cases h
      | ok v =>
        cases h
        exact ⟨_, .inr ⟨rfl, ungetc_getc hungetc⟩⟩
  | fail e =>
    rw [haction] at h
    cases h

/-- A step neither catches a call nor lets one go. -/
theorem caught_next (h : tokenStep toU8string s = .next s') : Caught s'.parsingAttributes s'.mode s'.input.characters ↔
    Caught s.parsingAttributes s.mode s.input.characters := by
  have hkeeps := act_keeps toU8string s.parsingAttributes s.mode s.value s.input.characters
  obtain ⟨hattributes, ⟨haction, hinput⟩ | ⟨haction, hinput⟩⟩ := tokenStep_next h
  · rw [show act _ _ _ _ _ = _ from haction] at hkeeps
    rw [hattributes, hinput]
    exact hkeeps
  · rw [show act _ _ _ _ _ = _ from haction] at hkeeps
    rw [hattributes, hinput]
    exact iff_of_false hkeeps.1 hkeeps.2

theorem not_caught_done {r : XmlRead} (h : tokenStep toU8string s = .done r) :
    ¬Caught s.parsingAttributes s.mode s.input.characters := by
  have hkeeps := act_keeps toU8string s.parsingAttributes s.mode s.value s.input.characters
  have hgo := tokenStep_done h
  rw [action] at hgo
  cases haction : act toU8string s.parsingAttributes s.mode s.value s.input.characters.head? with
  | go mode value => exact absurd haction (hgo mode value)
  | goBack mode value =>
    rw [haction] at hkeeps
    exact hkeeps.2
  | give type value => rwa [haction] at hkeeps
  | giveBack type value => rwa [haction] at hkeeps
  | fail e => rwa [haction] at hkeeps

/-- A call ends unless it is caught. -/
theorem ends_tokenStep_iff (toU8string : UInt32 → Option Bytes) (s : XmlCall) :
    Ends (tokenStep toU8string) s ↔ ¬Caught s.parsingAttributes s.mode s.input.characters := by
  refine @ends_iff _ _ _ (fun s => Caught s.parsingAttributes s.mode s.input.characters)
    (fun s => 2 * s.input.characters.length + rank s.mode) (fun _ _ => not_caught_done) (fun _ _ => caught_next)
    (fun s s' h hcaught => ?_) s
  have hreads := @act_reads toU8string _ _ s.value _ hcaught
  obtain ⟨-, ⟨haction, hinput⟩ | ⟨haction, hinput⟩⟩ := tokenStep_next h
  · rw [show act _ _ _ _ _ = _ from haction] at hreads
    rw [hinput]
    exact hreads
  · rw [show act _ _ _ _ _ = _ from haction] at hreads
    have := hreads.1
    rw [hinput]
    omega

/-- `get_token()` ends unless an attribute value is not closed. -/
theorem ends_getToken_iff (toU8string : UInt32 → Option Bytes) (attributes : Bool) (input : XmlInput) :
    Ends (tokenStep toU8string) (getToken attributes input) ↔ ¬(attributes = true ∧ Unclosed input.characters) :=
  ends_tokenStep_iff toU8string (getToken attributes input)

/-- At most `n` characters are left, and fewer within a token. -/
def Left (n : Nat) (s : XmlCall) : Prop :=
  ¬Caught s.parsingAttributes s.mode s.input.characters ∧ s.input.characters.length ≤ n ∧
    (s.mode ≠ .start → s.input.characters.length < n)

theorem left_next {n : Nat} (hs : Left n s) (h : tokenStep toU8string s = .next s') : Left n s' := by
  obtain ⟨hcaught, hle, hlt⟩ := hs
  have hreads := @act_reads toU8string _ _ s.value _ hcaught
  have htail := List.length_tail (l := s.input.characters)
  refine ⟨fun h' => hcaught ((caught_next h).mp h'), ?_⟩
  obtain ⟨-, ⟨haction, hinput⟩ | ⟨haction, hinput⟩⟩ := tokenStep_next h
  · rw [show act _ _ _ _ _ = _ from haction] at hreads
    have hless : 2 * s.input.characters.tail.length + rank s'.mode < 2 * s.input.characters.length + rank s.mode := hreads
    have hstart : s.mode = .start → rank s.mode = 0 := fun h => by rw [h]; rfl
    rw [hinput]
    by_cases hmode : s.mode = .start
    · have := hstart hmode
      exact ⟨by omega, fun _ => by omega⟩
    · have := hlt hmode
      exact ⟨by omega, fun _ => by omega⟩
  · rw [show act _ _ _ _ _ = _ from haction] at hreads
    have := hlt hreads.2
    rw [hinput]
    exact ⟨by omega, fun _ => by omega⟩

/-- A token but the end of the file leaves less to read. -/
theorem getToken_lt {attributes : Bool} {input : XmlInput}
    (h : Finishes (tokenStep toU8string) (getToken attributes input) (.ok (token, i))) :
    i.characters.length ≤ input.characters.length ∧ (token.type = .eof ∨ i.characters.length < input.characters.length) := by
  have hleft : Left input.characters.length (getToken attributes input) :=
    ⟨(ends_tokenStep_iff toU8string _).mp ⟨_, h⟩, Nat.le_refl _, fun h => absurd rfl h⟩
  obtain ⟨t, ⟨hcaught, hle, hlt⟩, hdone⟩ := h.invariant hleft fun _ _ hs h => left_next hs h
  have hreads := @act_reads toU8string _ _ t.value _ hcaught
  have htail := List.length_tail (l := t.input.characters)
  obtain ⟨value, ⟨haction, hinput⟩ | ⟨haction, hinput⟩⟩ := tokenStep_ok hdone
  · rw [show act _ _ _ _ _ = _ from haction] at hreads
    rw [hinput]
    by_cases hmode : t.mode = .start
    · rcases hreads hmode with heof | hless
      · exact ⟨by omega, .inl heof⟩
      · exact ⟨by omega, .inr (by omega)⟩
    · have := hlt hmode
      exact ⟨by omega, .inr (by omega)⟩
  · rw [show act _ _ _ _ _ = _ from haction] at hreads
    have := hlt hreads
    rw [hinput]
    exact ⟨by omega, .inr (by omega)⟩

end

/-! ### The run -/

section
variable {filename : String} {toU8string : UInt32 → Option Bytes} {phase phase' : XmlPhase} {token : XmlToken}
  {c c' : XmlPhase × XmlCall}

/-- Only behind a text that follows the root is another token read at the end of the file. -/
theorem accept_eof (htype : token.type = .eof) (h : accept filename phase token = .next phase') :
    ∃ root, phase = .skipEmpty root ∧ phase' = .epilog root := by
  cases phase with
  | skipEmpty root =>
    simp only [accept, acceptSkipEmpty, htype] at h
    cases h
    exact ⟨root, rfl, rfl⟩
  | prolog processor => simp [accept, acceptProlog, htype] at h
  | tag node parents => simp [accept, acceptTag, htype] at h
  | equal node parents name => simp [accept, acceptEqual, htype] at h
  | value node parents name => simp [accept, acceptValue, htype] at h
  | content node parents => simp [accept, acceptContent, htype] at h
  | epilog root => simp [accept, acceptEpilog, htype] at h

/-- How much the calls have still to do. -/
def remaining (c : XmlPhase × XmlCall) : Nat :=
  2 * c.2.input.characters.length + match c.1 with
    | .skipEmpty _ => 1
    | _ => 0

theorem remaining_eq (phase : XmlPhase) (call : XmlCall) :
    2 * call.input.characters.length ≤ remaining (phase, call) ∧ remaining (phase, call) ≤ 2 * call.input.characters.length + 1 := by
  unfold remaining
  split <;> (dsimp only; exact ⟨by omega, by omega⟩)

/-- A call is one of `get_token()` from its beginning. -/
def IsCall (c : XmlPhase × XmlCall) : Prop := c.2 = getToken c.1.parsingAttributes c.2.input

theorem afterToken_next {read : XmlRead} (h : afterToken filename phase read = .next c') : ∃ token input, read = .ok (token, input) ∧
    accept filename phase token = .next c'.1 ∧ c'.2 = getToken c'.1.parsingAttributes input := by
  cases read with
  | error e => cases h
  | ok read =>
    obtain ⟨token, input⟩ := read
    rw [afterToken] at h
    cases haccept : accept filename phase token with
    | next phase' =>
      rw [haccept] at h
      cases h
      exact ⟨token, input, rfl, haccept, rfl⟩
    | done r =>
      rw [haccept] at h
      cases h

/-- Each call leaves less to do. -/
theorem afterToken_lt {read : XmlRead} (hcall : IsCall c) (hread : Finishes (tokenStep toU8string) c.2 read)
    (h : afterToken filename c.1 read = .next c') : IsCall c' ∧ remaining c' < remaining c := by
  obtain ⟨phase, call⟩ := c
  obtain ⟨phase', call'⟩ := c'
  obtain ⟨token, input, rfl, haccept, hcall'⟩ := afterToken_next h
  dsimp only at hcall' haccept hread
  have hinput : call'.input = input := by rw [hcall']; rfl
  refine ⟨by rw [IsCall, hinput]; exact hcall', ?_⟩
  have hcall : call = getToken phase.parsingAttributes call.input := hcall
  rw [hcall] at hread
  obtain ⟨hle, hless⟩ := getToken_lt hread
  have hbefore := remaining_eq phase call
  have hafter := remaining_eq phase' call'
  rw [hinput] at hafter
  rcases hless with heof | hlt
  · obtain ⟨root, rfl, rfl⟩ := accept_eof heof haccept
    have hskip : remaining (.skipEmpty root, call) = 2 * call.input.characters.length + 1 := rfl
    have hepilog : remaining (.epilog root, call') = 2 * call'.input.characters.length := rfl
    rw [hskip, hepilog, hinput]
    omega
  · omega

/-- A run of the parser ends when its calls do. -/
theorem ends_readXml_iff (filename : String) (toU8string : UInt32 → Option Bytes) (file : Bytes) :
    Ends (readXml filename toU8string) (openedFile file) ↔
      ∀ c, Reaches (tokenStep toU8string) (afterToken filename) (openedFile file) c →
        ¬(c.2.parsingAttributes = true ∧ Unclosed c.2.input.characters) := by
  have hopened : IsCall (openedFile file) := rfl
  refine (Machine.ends_calling_iff hopened fun c c' _ => afterToken_lt).trans (forall₂_congr fun c hreach => ?_)
  have hcall : IsCall c := hreach.invariant hopened fun c c' _ hc hread hnext => (afterToken_lt hc hread hnext).1
  rw [hcall]
  exact ends_getToken_iff toU8string _ _

/-- A call of `get_token()` ends exactly when no value of an attribute without an end is in front of it, and `read_xml()` when none of
    its calls has one. -/
theorem ends_iff_closed (filename : String) (toU8string : UInt32 → Option Bytes) :
    (∀ attributes input, Ends (tokenStep toU8string) (getToken attributes input) ↔ ¬(attributes = true ∧ Unclosed input.characters)) ∧
      ∀ file, Ends (readXml filename toU8string) (openedFile file) ↔
        ∀ c, Reaches (tokenStep toU8string) (afterToken filename) (openedFile file) c →
          ¬(c.2.parsingAttributes = true ∧ Unclosed c.2.input.characters) :=
  ⟨ends_getToken_iff toU8string, ends_readXml_iff filename toU8string⟩

/-- The file `<a b="`. -/
theorem not_ends_readXml : ¬∀ (filename : String) (toU8string : UInt32 → Option Bytes) (file : Bytes),
    Ends (readXml filename toU8string) (openedFile file) := by
  intro h
  have hreads := (ends_readXml_iff "" (fun _ => none) [0x3C, 0x61, 0x20, 0x62, 0x3D, 0x22]).mp (h _ _ _)
  have hopen : Finishes (tokenStep fun _ => none) (getToken false ⟨[], [0x3C, 0x61, 0x20, 0x62, 0x3D, 0x22]⟩)
      (.ok (⟨.openTag, [0x61]⟩, ⟨[0x62], [0x3D, 0x22]⟩)) := Machine.finishes_iff_run.mpr ⟨4, rfl⟩
  have hname : Finishes (tokenStep fun _ => none) (getToken true ⟨[0x62], [0x3D, 0x22]⟩)
      (.ok (⟨.identifier, [0x62]⟩, ⟨[0x3D], [0x22]⟩)) := Machine.finishes_iff_run.mpr ⟨2, rfl⟩
  have hequal : Finishes (tokenStep fun _ => none) (getToken true ⟨[0x3D], [0x22]⟩) (.ok (⟨.equal, []⟩, ⟨[], [0x22]⟩)) :=
    Machine.finishes_iff_run.mpr ⟨1, rfl⟩
  exact hreads (.value { name := [0x61] } [] [0x62], getToken true ⟨[], [0x22]⟩)
    (.step hopen rfl (.step hname rfl (.step hequal rfl (.refl _))))
    ⟨rfl, .value (.inl rfl) List.not_mem_nil List.not_mem_nil⟩

end

end Snapwebsites.Snapdatabase.XmlParser
