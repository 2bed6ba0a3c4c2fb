import Snapwebsites.Communicator.Message

/-! # Writing and reading one value

A value is written in two layers: backslashes and line ends are escaped, then a text with a semicolon
or a leading quote is put between quotes. The reader undoes the layers in the same order it finds
them. What is lost on the way is a leading byte order mark, and the closing quote behind a backslash. -/

namespace Snapwebsites
open QString

namespace QString

end QString

namespace SnapCommunicatorMessage

/-! ### Escapes -/

def escapeChar (c : Char) : QString :=
  if c = '\\' then ['\\', '\\'] else if c = '\n' then ['\\', 'n'] else if c = '\r' then ['\\', 'r'] else [c]

def escaped (value : QString) : QString := value.flatMap escapeChar

theorem escapeChar_cases (c : Char) :
    (c = '\\' ∧ escapeChar c = ['\\', '\\']) ∨ (c = '\n' ∧ escapeChar c = ['\\', 'n']) ∨
    (c = '\r' ∧ escapeChar c = ['\\', 'r']) ∨ (c ≠ '\\' ∧ c ≠ '\n' ∧ c ≠ '\r' ∧ escapeChar c = [c]) := by
  unfold escapeChar
  by_cases h₁ : c = '\\'
  · exact Or.inl ⟨h₁, if_pos h₁⟩
  · by_cases h₂ : c = '\n'
    · exact Or.inr (Or.inl ⟨h₂, by rw [if_neg h₁, if_pos h₂]⟩)
    · by_cases h₃ : c = '\r'
      · exact Or.inr (Or.inr (Or.inl ⟨h₃, by rw [if_neg h₁, if_neg h₂, if_pos h₃]⟩))
      · exact Or.inr (Or.inr (Or.inr ⟨h₁, h₂, h₃, by rw [if_neg h₁, if_neg h₂, if_neg h₃]⟩))

theorem escaped_append (s t : QString) : escaped (s ++ t) = escaped s ++ escaped t := List.flatMap_append

theorem replaceMany_escapes_cons (c : Char) (s : QString) :
    replaceMany (c :: s) escapes = escapeChar c ++ replaceMany s escapes := by
  rcases escapeChar_cases c with ⟨rfl, -⟩ | ⟨rfl, -⟩ | ⟨rfl, -⟩ | ⟨h₁, h₂, h₃, hc⟩
  · rfl
  · rfl
  · rfl
  · have hnone : escapes.find? (fun p => p.1.isPrefixOf (c :: s)) = none := by
      simp [escapes, List.isPrefixOf, Ne.symm h₁, Ne.symm h₂, Ne.symm h₃]
    simp only [replaceMany, replaceManyFrom, hnone, hc]
    rfl

theorem replaceMany_escapes : ∀ s : QString, replaceMany s escapes = escaped s
  | [] => rfl
  | c :: s => by
    rw [replaceMany_escapes_cons, replaceMany_escapes s]
    rfl

theorem replaceMany_unescapes_other {c : Char} (h : c ≠ '\\') (s : QString) :
    replaceMany (c :: s) unescapes = c :: replaceMany s unescapes := by
  have hnone : unescapes.find? (fun p => p.1.isPrefixOf (c :: s)) = none := by
    simp [unescapes, List.isPrefixOf, Ne.symm h]
  simp only [replaceMany, replaceManyFrom, hnone]

/-- Undoing the escapes gives the text back, whatever follows. -/
theorem replaceMany_unescapes_append (value s : QString) :
    replaceMany (escaped value ++ s) unescapes = value ++ replaceMany s unescapes := by
  induction value with
  | nil => rfl
  | cons c value ih =>
    have hsplit : escaped (c :: value) ++ s = escapeChar c ++ (escaped value ++ s) := List.append_assoc ..
    rw [hsplit]
    rcases escapeChar_cases c with ⟨rfl, hc⟩ | ⟨rfl, hc⟩ | ⟨rfl, hc⟩ | ⟨h, -, -, hc⟩
    · exact congrArg _ ih
    · exact congrArg _ ih
    · exact congrArg _ ih
    · rw [hc]
      exact (replaceMany_unescapes_other h _).trans (congrArg _ ih)

theorem replaceMany_unescapes_escaped (value : QString) : replaceMany (escaped value) unescapes = value := by
  simpa [replaceMany, replaceManyFrom] using replaceMany_unescapes_append value []

/-- The escapes add no character but backslashes, `n` and `r`. -/
theorem mem_escaped {c : Char} {value : QString} (h : c ∈ escaped value) :
    c = '\\' ∨ c = 'n' ∨ c = 'r' ∨ (c ∈ value ∧ c ≠ '\n' ∧ c ≠ '\r') := by
  obtain ⟨d, hd, hc⟩ := List.mem_flatMap.mp h
  rcases escapeChar_cases d with ⟨-, he⟩ | ⟨-, he⟩ | ⟨-, he⟩ | ⟨-, hn, hr, he⟩ <;> rw [he] at hc
  · simp at hc
    exact Or.inl hc
  · simp at hc
    exact hc.elim Or.inl fun h => Or.inr (Or.inl h)
  · simp at hc
    exact hc.elim Or.inl fun h => Or.inr (Or.inr (Or.inl h))
  · rw [List.mem_singleton] at hc
    subst hc
    exact Or.inr (Or.inr (Or.inr ⟨hd, hn, hr⟩))

theorem mem_escaped_of_mem {c : Char} {value : QString} (h : c ∈ value) (hn : c ≠ '\n') (hr : c ≠ '\r') :
    c ∈ escaped value := by
  refine List.mem_flatMap.mpr ⟨c, h, ?_⟩
  rcases escapeChar_cases c with ⟨hc, he⟩ | ⟨hc, -⟩ | ⟨hc, -⟩ | ⟨-, -, -, he⟩
  · rw [he, hc]
    exact List.mem_cons_self
  · exact absurd hc hn
  · exact absurd hc hr
  · rw [he]
    exact List.mem_cons_self

theorem head?_escaped {c : Char} {value : QString} (hn : c ≠ '\\') :
    (escaped value).head? = some c ↔ value.head? = some c ∧ c ≠ '\n' ∧ c ≠ '\r' := by
  cases value with
  | nil => exact ⟨fun h => absurd h (by simp [escaped]), fun h => absurd h.1 (by simp)⟩
  | cons d value =>
    have hhead : (escaped (d :: value)).head? = (escapeChar d ++ escaped value).head? := rfl
    rw [hhead]
    rcases escapeChar_cases d with ⟨rfl, he⟩ | ⟨rfl, he⟩ | ⟨rfl, he⟩ | ⟨-, hdn, hdr, he⟩ <;> rw [he]
    · simp [Ne.symm hn]
    · simp [Ne.symm hn]
      exact fun h h' => absurd h.symm h'
    · simp [Ne.symm hn]
      exact fun h _ => h.symm
    · simp
      rintro rfl
      exact ⟨hdn, hdr⟩

theorem fromUtf8_escaped (value : QString) : fromUtf8 (escaped value) = escaped (fromUtf8 value) := by
  by_cases h : value.head? = some bom
  · obtain ⟨s, rfl⟩ := List.head?_eq_some_iff.mp h
    rfl
  · rw [fromUtf8_eq_self h, fromUtf8_eq_self fun h' => h ((head?_escaped (by decide)).mp h').1]

theorem needsQuotes_escaped (value : QString) : needsQuotes (escaped value) = needsQuotes value := by
  have hsemicolon : (escaped value).contains ';' = value.contains ';' := by
    rw [Bool.eq_iff_iff, List.contains_iff_mem, List.contains_iff_mem]
    refine ⟨fun h => ?_, fun h => mem_escaped_of_mem h (by decide) (by decide)⟩
    rcases mem_escaped h with h | h | h | h
    · exact absurd h (by decide)
    · exact absurd h (by decide)
    · exact absurd h (by decide)
    · exact h.1
  have hquote : decide ((escaped value).head? = some '"') = decide (value.head? = some '"') := by
    rw [decide_eq_decide, head?_escaped (by decide)]
    exact ⟨fun h => h.1, fun h => ⟨h, by decide, by decide⟩⟩
  unfold needsQuotes
  rw [hsemicolon, hquote]

/-- The last character of an escaped text. -/
theorem escaped_concat (value : QString) (c : Char) : escaped (value ++ [c]) = escaped value ++ escapeChar c := by
  rw [escaped_append]
  exact congrArg _ (List.append_nil _)

theorem writeValue_eq {value : QString} (h : nul ∉ value) :
    writeValue value = if needsQuotes (fromUtf8 value) then '"' :: escapeQuotes (escaped (fromUtf8 value)) ++ ['"']
      else escaped (fromUtf8 value) := by
  unfold writeValue
  rw [constData_eq_self h, replaceMany_escapes, fromUtf8_escaped]
  show (if needsQuotes (escaped (fromUtf8 value)) then _ else _) = _
  rw [needsQuotes_escaped]

theorem readValue_escaped {value : QString} (h : nul ∉ value) : readValue (escaped value) = fromUtf8 value := by
  have h' : nul ∉ escaped value := fun hm => by
    rcases mem_escaped hm with hm | hm | hm | hm
    · exact absurd hm (by decide)
    · exact absurd hm (by decide)
    · exact absurd hm (by decide)
    · exact h hm.1
  unfold readValue
  rw [constData_eq_self h', replaceMany_unescapes_escaped, constData_eq_self h]

/-! ### Quotes -/

theorem readQuoted_cons {c : Char} {m : QString} (hq : c ≠ '"') (h : c = '\\' → m.head? ≠ some '"') :
    readQuoted (c :: m) = (readQuoted m).map fun r => (c :: r.1, r.2) := by
  conv_lhs => unfold readQuoted
  split
  · rename_i he
    cases he
  · rename_i he
    cases he
    exact absurd rfl hq
  · rename_i he
    cases he
    exact absurd rfl (h rfl)
  · rename_i he
    cases he
    rfl

/-- The reader behind an opening quote passes over a text with its quotes escaped, unless the text ends
    in a backslash and a quote follows. -/
theorem readQuoted_append (t : QString) : ∀ s : QString, (s.getLast? = some '\\' → t.head? ≠ some '"') →
    readQuoted (escapeQuotes s ++ t) = (readQuoted t).map fun r => (s ++ r.1, r.2)
  | [], _ => by
    show readQuoted t = _
    cases readQuoted t <;> rfl
  | c :: s, h => by
    have ih := readQuoted_append t s fun hs => h (by
      rw [List.getLast?_cons, hs]
      rfl)
    have hmap : ((readQuoted t).map fun r => (s ++ r.1, r.2)).map (fun r => (c :: r.1, r.2)) =
        (readQuoted t).map fun r => (c :: s ++ r.1, r.2) := by cases readQuoted t <;> rfl
    by_cases hc : c = '"'
    · subst hc
      show readQuoted ('\\' :: '"' :: (escapeQuotes s ++ t)) = _
      rw [readQuoted, ih, hmap]
    · have hsplit : escapeQuotes (c :: s) ++ t = c :: (escapeQuotes s ++ t) := by
        unfold escapeQuotes
        rw [List.flatMap_cons, if_neg hc]
        rfl
      rw [hsplit, readQuoted_cons hc, ih, hmap]
      rintro rfl
      cases s with
      | nil => exact h rfl
      | cons d s =>
        by_cases hd : d = '"'
        · subst hd
          exact fun hq => absurd hq (by simp [escapeQuotes])
        · exact fun hq => absurd hq (by simp [escapeQuotes, hd])

/-! ### Reading a written value -/

/-- The value survives being written and read. -/
structure Kept (value : QString) : Prop where
  noBom : value.head? ≠ some bom
  noFinalBackslash : needsQuotes value → value.getLast? ≠ some '\\'

instance (value : QString) : Decidable (Kept value) :=
  decidable_of_iff (value.head? ≠ some bom ∧ (needsQuotes value → value.getLast? ≠ some '\\'))
    ⟨fun h => ⟨h.1, h.2⟩, fun h => ⟨h.1, h.2⟩⟩

/-- What can follow a value: the end of the line or a separator. -/
def Ends (rest : QString) : Prop := ∀ c, rest.head? = some c → c = ';'

theorem readRawValue_raw {s rest : QString} (hs : needsQuotes s = false) (hrest : Ends rest) :
    readRawValue (s ++ rest) = some (s, rest) := by
  obtain ⟨hsemicolon, hquote⟩ := Bool.or_eq_false_iff.mp hs
  have hall : ';' ∉ s := fun hm => by
    rw [List.contains_iff_mem.mpr hm] at hsemicolon
    cases hsemicolon
  have htake : (s ++ rest).takeWhile (· ≠ ';') = s ∧ (s ++ rest).dropWhile (· ≠ ';') = rest := by
    rw [takeWhile_ne_append hall, dropWhile_ne_append hall]
    cases rest with
    | nil => exact ⟨List.append_nil _, rfl⟩
    | cons c rest =>
      have hc : c = ';' := hrest c rfl
      subst hc
      exact ⟨List.append_nil _, rfl⟩
  unfold readRawValue
  split
  · rename_i m he
    cases s with
    | nil =>
      have := hrest '"' (by rw [List.nil_append] at he; rw [he]; rfl)
      exact absurd this (by decide)
    | cons c s =>
      obtain ⟨rfl, -⟩ := List.cons.inj he
      simp at hquote
  · rw [htake.1, htake.2]

theorem readRawValue_writeValue {value rest : QString} (hnul : nul ∉ value) (h : Kept value) (hrest : Ends rest) :
    readRawValue (writeValue value ++ rest) = some (escaped value, rest) := by
  rw [writeValue_eq hnul, fromUtf8_eq_self h.noBom]
  cases hq : needsQuotes value with
  | false =>
    rw [if_neg (by simp)]
    exact readRawValue_raw ((needsQuotes_escaped value).trans hq) hrest
  | true =>
    rw [if_pos rfl]
    show readQuoted (escapeQuotes (escaped value) ++ ['"'] ++ rest) = _
    rw [List.append_assoc, readQuoted_append _ _ fun hl => absurd ?_ (h.noFinalBackslash hq)]
    · show some (escaped value ++ [], rest) = _
      rw [List.append_nil]
    · -- the last escape is a backslash for a backslash only
      rcases List.eq_nil_or_concat value with rfl | ⟨s, c, rfl⟩
      · cases hl
      · rw [List.concat_eq_append, escaped_concat] at hl
        rw [List.concat_eq_append, List.getLast?_concat]
        rcases escapeChar_cases c with ⟨hc, -⟩ | ⟨-, he⟩ | ⟨-, he⟩ | ⟨-, -, -, he⟩
        · rw [hc]
        · rw [he] at hl
          simp at hl
        · rw [he] at hl
          simp at hl
        · rw [he, List.getLast?_concat] at hl
          exact hl

/-- Behind a final backslash the closing quote is taken for a character of the value. -/
theorem readRawValue_finalBackslash {value rest : QString} (hnul : nul ∉ value ++ ['\\'])
    (hbom : (value ++ ['\\']).head? ≠ some bom) (hq : needsQuotes (value ++ ['\\']) = true) :
    readRawValue (writeValue (value ++ ['\\']) ++ rest) =
      (readQuoted rest).map fun r => (escaped value ++ '\\' :: '"' :: r.1, r.2) := by
  rw [writeValue_eq hnul, fromUtf8_eq_self hbom, if_pos hq, escaped_concat]
  show readQuoted (escapeQuotes (escaped value ++ ['\\', '\\']) ++ ['"'] ++ rest) = _
  have hsplit : escapeQuotes (escaped value ++ ['\\', '\\']) ++ ['"'] ++ rest =
      escapeQuotes (escaped value ++ ['\\']) ++ ('\\' :: '"' :: rest) := by
    simp [escapeQuotes, List.flatMap_append]
  rw [hsplit, readQuoted_append _ _ fun _ => by simp]
  show ((readQuoted rest).map fun r => ('"' :: r.1, r.2)).map _ = _
  rw [Option.map_map]
  refine congrArg (fun f => (readQuoted rest).map f) (funext fun r => ?_)
  simp

end SnapCommunicatorMessage
end Snapwebsites
