import Snapwebsites.Communicator.Value

/-! # Writing and reading the parameters

Two facts about the loop that reads parameters. It gives back a written parameter whose value is
`Kept` and goes on behind the separator; and on any text at all it makes up no character: counted
over the parameters read, a character occurs at most as often as in the text. -/

namespace Snapwebsites
open QString

/-! ### Names -/

theorem ne_of_verifyName {name : QString} {e l : Bool} (h : verifyName name e l = true) {c : Char} (hc : c ∈ name) :
    isLowercase c = true ∨ isUppercase c = true ∨ isDigit c = true ∨ c = '_' := by
  unfold verifyName at h
  simp only [Bool.and_eq_true, List.all_eq_true] at h
  have := h.1.2 c hc
  simp only [Bool.or_eq_true, Bool.and_eq_true, decide_eq_true_eq] at this
  tauto

/-- No character of a valid name is one of the other characters of ASCII, or beyond them. -/
theorem notMem_of_verifyName {name : QString} {e l : Bool} (h : verifyName name e l = true) {c : Char}
    (hc : isLowercase c = false ∧ isUppercase c = false ∧ isDigit c = false ∧ c ≠ '_') : c ∉ name := fun hm => by
  rcases ne_of_verifyName h hm with h | h | h | h
  · exact absurd h (by rw [hc.1]; exact Bool.false_ne_true)
  · exact absurd h (by rw [hc.2.1]; exact Bool.false_ne_true)
  · exact absurd h (by rw [hc.2.2.1]; exact Bool.false_ne_true)
  · exact hc.2.2.2 h

namespace SnapCommunicatorMessage

/-! ### Reading a written parameter -/

theorem readParameter_writeParameter {p : QString × QString} {value r rest : QString}
    (hname : verifyName p.1 false true = true) (hraw : readRawValue (value ++ rest) = some (r, rest)) (hrest : Ends rest) :
    readParameter (p.1 ++ '=' :: value ++ rest) = some ((p.1, readValue r), rest.tail) := by
  have hall : '=' ∉ p.1 := notMem_of_verifyName hname (by decide)
  have hsplit : p.1 ++ '=' :: value ++ rest = p.1 ++ ('=' :: (value ++ rest)) := by simp
  unfold readParameter
  rw [hsplit, takeWhile_ne_append hall, dropWhile_ne_append hall, takeWhile_ne_cons, dropWhile_ne_cons, List.append_nil]
  simp only [hname, Bool.not_true, Bool.false_eq_true, if_false, hraw, Option.bind_eq_bind, Option.bind_some]
  cases rest with
  | nil => rfl
  | cons c rest =>
    have hc : c = ';' := hrest c rfl
    subst hc
    rfl

/-- The parameters in front of another one. -/
def writeLeading (l : List (QString × QString)) : QString := l.flatMap fun p => writeParameter p ++ [';']

theorem writeParameters_append (l : List (QString × QString)) (p : QString × QString) (l' : List (QString × QString)) :
    writeParameters (l ++ p :: l') =
      ' ' :: (writeLeading l ++ (writeParameter p ++ l'.flatMap fun q => ';' :: writeParameter q)) := by
  have hshift : ∀ (l : List (QString × QString)) (t : QString),
      (l.flatMap fun q => ';' :: writeParameter q) ++ ';' :: t = ';' :: (writeLeading l ++ t) := by
    intro l
    induction l with
    | nil => intro t; rfl
    | cons q l ih => intro t; simp [writeLeading, ih]
  cases l with
  | nil => rfl
  | cons q l =>
    have := hshift l (writeParameter p ++ l'.flatMap fun q => ';' :: writeParameter q)
    simp [writeParameters, writeLeading, this]

theorem readParametersFrom_step {m m' : QString} {p : QString × QString} (h : readParameter m = some (p, m')) (n : Nat)
    (P : SortedMap QString QString) :
    readParametersFrom (n + 1) m P = readParametersFrom n m' (P.insert p.1 p.2) := by
  cases m with
  | nil => cases h
  | cons c m =>
    show (readParameter (c :: m)).bind (fun r => readParametersFrom n r.2 (P.insert r.1.1 r.1.2)) = _
    rw [h]
    rfl

theorem readParametersFrom_inv {n : Nat} {m : QString} {P Q : SortedMap QString QString}
    (h : readParametersFrom n m P = some Q) :
    (m = [] ∧ Q = P) ∨ ∃ n' p m', readParameter m = some (p, m') ∧ n = n' + 1 ∧
      readParametersFrom n' m' (P.insert p.1 p.2) = some Q := by
  cases m with
  | nil =>
    have : some P = some Q := by
      cases n <;> exact h
    exact Or.inl ⟨rfl, (Option.some.inj this).symm⟩
  | cons c m =>
    cases n with
    | zero => cases h
    | succ n =>
      obtain ⟨⟨p, m'⟩, hp, hr⟩ := Option.bind_eq_some_iff.mp h
      exact Or.inr ⟨n, p, m', hp, rfl, hr⟩

/-- The loop gives the leading parameters back, in their order. -/
theorem readParametersFrom_writeLeading {l : List (QString × QString)}
    (hl : ∀ p ∈ l, verifyName p.1 false true = true ∧ nul ∉ p.2 ∧ Kept p.2) (n : Nat) (t : QString) :
    ∀ P : SortedMap QString QString,
      readParametersFrom (l.length + n) (writeLeading l ++ t) P = readParametersFrom n t (P.insertAll l) := by
  induction l with
  | nil => intro P; rw [List.length_nil, Nat.zero_add]; rfl
  | cons p l ih =>
    intro P
    obtain ⟨hname, hnul, hkept⟩ := hl p List.mem_cons_self
    have hends : Ends (';' :: (writeLeading l ++ t)) := by
      rintro c ⟨⟩
      rfl
    have hread := readParameter_writeParameter hname (readRawValue_writeValue hnul hkept hends) hends
    have hsplit : writeLeading (p :: l) ++ t = p.1 ++ '=' :: writeValue p.2 ++ ';' :: (writeLeading l ++ t) := by
      simp [writeLeading, writeParameter]
    have hlen : (p :: l).length + n = (l.length + n) + 1 := by
      rw [List.length_cons]
      omega
    rw [hsplit, hlen, readParametersFrom_step hread, readValue_escaped hnul, fromUtf8_eq_self hkept.noBom]
    exact ih (fun q hq => hl q (List.mem_cons_of_mem _ hq)) _

/-! ### Counting characters -/

/-- The characters the writing uses for itself, or changes. -/
def markup : QString := [' ', ';', '"', '\\', 'n', 'r', '\n', '\r']

/-- The number of times a character occurs in a parameter, its equal sign included. -/
def weight (c : Char) (p : QString × QString) : Nat := (p.1 ++ '=' :: p.2).count c

theorem replaceMany_unescapes_backslash {d : Char} (h₁ : d ≠ '\\') (h₂ : d ≠ 'n') (h₃ : d ≠ 'r') (s : QString) :
    replaceMany ('\\' :: d :: s) unescapes = '\\' :: replaceMany (d :: s) unescapes := by
  have hnone : unescapes.find? (fun p => p.1.isPrefixOf ('\\' :: d :: s)) = none := by
    simp [unescapes, List.isPrefixOf, Ne.symm h₁, Ne.symm h₂, Ne.symm h₃]
  rw [replaceMany, replaceManyFrom, hnone]
  rfl

theorem count_replaceMany_unescapes {c : Char} (hc : c ∉ markup) : ∀ s : QString,
    (replaceMany s unescapes).count c ≤ s.count c
  | [] => Nat.le_refl _
  | [d] => by
    by_cases hd : d = '\\'
    · subst hd
      exact Nat.le_refl _
    · rw [replaceMany_unescapes_other hd]
      exact Nat.le_refl _
  | d :: e :: s => by
    have ih := count_replaceMany_unescapes hc s
    have ih' := count_replaceMany_unescapes hc (e :: s)
    have hskip : s.count c ≤ (d :: e :: s).count c :=
      ((List.sublist_cons_self e s).trans (List.sublist_cons_self d _)).count_le c
    simp only [markup, List.mem_cons, List.not_mem_nil, or_false, not_or] at hc
    by_cases hd : d = '\\'
    · subst hd
      by_cases h₁ : e = '\\'
      · subst h₁
        exact (List.count_cons_of_ne (Ne.symm hc.2.2.2.1)).le.trans (ih.trans hskip)
      · by_cases h₂ : e = 'n'
        · subst h₂
          exact (List.count_cons_of_ne (Ne.symm hc.2.2.2.2.2.2.1)).le.trans (ih.trans hskip)
        · by_cases h₃ : e = 'r'
          · subst h₃
            exact (List.count_cons_of_ne (Ne.symm hc.2.2.2.2.2.2.2)).le.trans (ih.trans hskip)
          · rw [replaceMany_unescapes_backslash h₁ h₂ h₃, List.count_cons, List.count_cons (a := c)]
            omega
    · rw [replaceMany_unescapes_other hd, List.count_cons, List.count_cons (l := e :: s)]
      omega
  termination_by s => s.length

theorem count_readValue {c : Char} (hc : c ∉ markup) (s : QString) : (readValue s).count c ≤ s.count c :=
  calc (readValue s).count c ≤ (replaceMany (constData s) unescapes).count c :=
        ((fromUtf8_sublist _).trans (constData_sublist _)).count_le c
    _ ≤ (constData s).count c := count_replaceMany_unescapes hc _
    _ ≤ s.count c := (constData_sublist s).count_le c

/-- What the scanner takes and what it leaves come from the text, in this order. -/
theorem readQuoted_sublist : ∀ {m : QString} {r : QString × QString}, readQuoted m = some r → (r.1 ++ r.2).Sublist m := by
  intro m
  induction m using readQuoted.induct with
  | case1 => intro r h; cases h
  | case2 m =>
    rintro r ⟨⟩
    exact List.sublist_cons_self _ _
  | case3 m ih =>
    intro r h
    rw [readQuoted] at h
    obtain ⟨r', hr, rfl⟩ := Option.map_eq_some_iff.mp h
    exact ((ih hr).cons_cons '"').trans (List.sublist_cons_self _ _)
  | case4 c m h₁ h₂ ih =>
    intro r h
    rw [readQuoted] at h
    · obtain ⟨r', hr, rfl⟩ := Option.map_eq_some_iff.mp h
      exact (ih hr).cons_cons c
    · exact h₁
    · exact h₂

theorem readRawValue_sublist {m : QString} {r : QString × QString} (h : readRawValue m = some r) :
    (r.1 ++ r.2).Sublist m := by
  unfold readRawValue at h
  split at h
  · exact (readQuoted_sublist h).trans (List.sublist_cons_self _ _)
  · cases h
    exact (List.takeWhile_append_dropWhile).symm ▸ List.Sublist.refl _

theorem readParameter_inv {m m' : QString} {p : QString × QString} (h : readParameter m = some (p, m')) :
    ∃ r rest, m = p.1 ++ '=' :: rest ∧ verifyName p.1 false true = true ∧
      (readRawValue rest = some (r, m') ∧ m' = [] ∨ readRawValue rest = some (r, ';' :: m')) ∧ p.2 = readValue r := by
  unfold readParameter at h
  simp only at h
  split at h
  · cases h
  · rename_i hname
    split at h
    · cases h
    · rename_i c rest hrest
      have hc : c = '=' := by
        have := List.head?_dropWhile_not (· ≠ '=') m
        rw [hrest] at this
        simpa using this
      subst hc
      have hm : m = m.takeWhile (· ≠ '=') ++ '=' :: rest := by
        rw [← hrest, List.takeWhile_append_dropWhile]
      obtain ⟨⟨r, t⟩, hr, h⟩ := Option.bind_eq_some_iff.mp h
      have hv : verifyName (m.takeWhile (· ≠ '=')) false true = true := by simpa using hname
      dsimp only at h
      split at h
      · cases h
        exact ⟨r, rest, hm, hv, Or.inl ⟨hr, rfl⟩, rfl⟩
      · cases h
        exact ⟨r, rest, hm, hv, Or.inr hr, rfl⟩
      · cases h

theorem weight_readParameter {c : Char} (hc : c ∉ markup) {m m' : QString} {p : QString × QString}
    (h : readParameter m = some (p, m')) : weight c p + m'.count c ≤ m.count c := by
  obtain ⟨r, rest, rfl, -, hr, hp⟩ := readParameter_inv h
  have hcount : r.count c + m'.count c ≤ rest.count c := by
    rcases hr with ⟨hr, rfl⟩ | hr
    · simpa using (readRawValue_sublist hr).count_le c
    · have := (readRawValue_sublist hr).count_le c
      rw [List.count_append] at this
      exact (Nat.add_le_add_left ((List.sublist_cons_self ';' m').count_le c) _).trans this
  have := count_readValue hc r
  unfold weight
  rw [hp, List.count_append, List.count_append, List.count_cons, List.count_cons]
  omega

/-- No character is made up by the reading, and a value that is read and then overwritten is lost. -/
theorem weight_readParametersFrom {c : Char} (hc : c ∉ markup) : ∀ {n : Nat} {m : QString} {P Q : SortedMap QString QString},
    readParametersFrom n m P = some Q →
      Q.sumOf (weight c) ≤ P.sumOf (weight c) + m.count c ∧
      ∀ k w, P.find? k = some w → Q.find? k ≠ some w →
        Q.sumOf (weight c) + weight c (k, w) ≤ P.sumOf (weight c) + m.count c := by
  intro n
  induction n with
  | zero =>
    intro m P Q h
    rcases readParametersFrom_inv h with ⟨rfl, rfl⟩ | ⟨n', p, m', -, hn, -⟩
    · exact ⟨Nat.le_refl _, fun k w hw hne => absurd hw hne⟩
    · cases hn
  | succ n ih =>
    intro m P Q h
    rcases readParametersFrom_inv h with ⟨rfl, rfl⟩ | ⟨n', p, m', hp, hn, hq⟩
    · exact ⟨Nat.le_refl _, fun k w hw hne => absurd hw hne⟩
    · cases hn
      have hweight := weight_readParameter hc hp
      obtain ⟨hle, hlost⟩ := ih hq
      have hinsert := P.sumOf_insert_le (weight c) p.1 p.2
      have heta : weight c (p.1, p.2) = weight c p := rfl
      refine ⟨by omega, fun k w hw hne => ?_⟩
      by_cases hk : k = p.1
      · subst hk
        have := SortedMap.sumOf_insert_of_find? (weight c) hw p.2
        omega
      · have := hlost k w ((SortedMap.find?_insert_of_ne hk).trans hw) hne
        omega

/-! ### Counting what is written -/

theorem count_flatMap {c : Char} {f : Char → QString} (h : ∀ d, (f d).count c = [d].count c) (s : QString) :
    (s.flatMap f).count c = s.count c := by
  induction s with
  | nil => rfl
  | cons d s ih =>
    rw [List.flatMap_cons, List.count_append, h d, ih, ← List.count_append]
    rfl

theorem count_writeValue {c : Char} (hc : c ∉ markup) {value : QString} (hnul : nul ∉ value) :
    (writeValue value).count c = (fromUtf8 value).count c := by
  simp only [markup, List.mem_cons, List.not_mem_nil, or_false, not_or] at hc
  obtain ⟨-, -, hquote, hback, hn, hr, hnl, hcr⟩ := hc
  have hescaped : (escaped (fromUtf8 value)).count c = (fromUtf8 value).count c := by
    refine count_flatMap (fun d => ?_) _
    rcases escapeChar_cases d with ⟨rfl, h⟩ | ⟨rfl, h⟩ | ⟨rfl, h⟩ | ⟨-, -, -, h⟩ <;> rw [h]
    · simp [Ne.symm hback]
    · simp [Ne.symm hback, Ne.symm hn, Ne.symm hnl]
    · simp [Ne.symm hback, Ne.symm hr, Ne.symm hcr]
  rw [writeValue_eq hnul]
  split
  · have hquotes : (escapeQuotes (escaped (fromUtf8 value))).count c = (escaped (fromUtf8 value)).count c := by
      refine count_flatMap (fun d => ?_) _
      split
      · rename_i h
        subst h
        simp [Ne.symm hback, Ne.symm hquote]
      · rfl
    simp [Ne.symm hquote, hquotes, hescaped]
  · exact hescaped

theorem count_writeParameter {c : Char} (hc : c ∉ markup) {p : QString × QString} (hnul : nul ∉ p.2) :
    (writeParameter p).count c = weight c (p.1, fromUtf8 p.2) := by
  unfold writeParameter weight
  rw [List.count_append, List.count_append, List.count_cons, List.count_cons, count_writeValue hc hnul]

theorem count_writeParameter_le {c : Char} (hc : c ∉ markup) {p : QString × QString} (hnul : nul ∉ p.2) :
    (writeParameter p).count c ≤ weight c p := by
  rw [count_writeParameter hc hnul]
  exact ((List.Sublist.refl p.1).append ((fromUtf8_sublist p.2).cons_cons '=')).count_le c

/-- A byte order mark is one character less in the line. -/
theorem count_writeParameter_bom {p : QString × QString} (hnul : nul ∉ p.2) (h : p.2.head? = some bom) :
    (writeParameter p).count bom < weight bom p := by
  obtain ⟨s, hs⟩ := List.head?_eq_some_iff.mp h
  rw [count_writeParameter (by decide) hnul]
  have hlt : ('=' :: s).count bom < ('=' :: bom :: s).count bom := by
    rw [List.count_cons_of_ne (by decide), List.count_cons_of_ne (by decide), List.count_cons_self]
    omega
  unfold weight
  rw [hs, fromUtf8_bom, List.count_append, List.count_append]
  exact Nat.add_lt_add_left hlt _

theorem count_writeLeading_le {c : Char} (hc : c ∉ markup) {l : List (QString × QString)} (hnul : ∀ p ∈ l, nul ∉ p.2) :
    (writeLeading l).count c ≤ (l.map (weight c)).sum := by
  have hcs : c ≠ ';' := fun h => hc (by rw [h]; decide)
  induction l with
  | nil => exact Nat.le_refl _
  | cons p l ih =>
    have hp := count_writeParameter_le hc (hnul p List.mem_cons_self)
    have ih := ih fun q hq => hnul q (List.mem_cons_of_mem _ hq)
    have hsep : [';'].count c = 0 := List.count_eq_zero.mpr fun h => hcs (List.mem_singleton.mp h)
    unfold writeLeading at ih ⊢
    rw [List.flatMap_cons, List.count_append, List.count_append, List.map_cons, List.sum_cons]
    omega

theorem count_separated_le {c : Char} (hc : c ∉ markup) {l : List (QString × QString)} (hnul : ∀ p ∈ l, nul ∉ p.2) :
    (l.flatMap fun p => ';' :: writeParameter p).count c ≤ (l.map (weight c)).sum := by
  have hcs : ';' ≠ c := fun h => hc (by rw [← h]; decide)
  induction l with
  | nil => exact Nat.le_refl _
  | cons p l ih =>
    have hp := count_writeParameter_le hc (hnul p List.mem_cons_self)
    have ih := ih fun q hq => hnul q (List.mem_cons_of_mem _ hq)
    rw [List.flatMap_cons, List.count_append, List.count_cons_of_ne hcs, List.map_cons, List.sum_cons]
    omega

end SnapCommunicatorMessage
end Snapwebsites
