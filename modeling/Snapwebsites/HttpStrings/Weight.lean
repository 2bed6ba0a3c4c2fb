import Snapwebsites.HttpStrings.Characters

/-! # What a part costs

Characters other than spaces, commas and semicolons are counted. Reading never gives more of them than there were in the text, and
as many only where nothing was quoted, no byte order mark was dropped, and no blank was taken for a space. -/

namespace Snapwebsites

namespace QString
variable {s t : QString} {c : Char} {b : Bool}

/-! ### Simplified texts -/

theorem mem_simplifiedFrom (h : c ∈ simplifiedFrom b s) : c ∈ s ∨ c = ' ' := by
  induction s generalizing b with
  | nil => cases h
  | cons d s ih =>
    rw [simplifiedFrom] at h
    split at h
    · exact (ih h).imp_left (List.mem_cons_of_mem _)
    · have hrest : c ∈ d :: simplifiedFrom false s → c ∈ d :: s ∨ c = ' ' := by
        intro h
        rcases List.mem_cons.mp h with rfl | h
        · exact .inl List.mem_cons_self
        · exact (ih h).imp_left (List.mem_cons_of_mem _)
      split at h
      · rcases List.mem_cons.mp h with rfl | h
        · exact .inr rfl
        · exact hrest h
      · exact hrest h

theorem mem_simplified (h : c ∈ simplified s) : c ∈ s ∨ c = ' ' :=
  (mem_simplifiedFrom h).imp_left fun h => (List.dropWhile_sublist _).subset h

/-- The first character of a simplified text is no blank. -/
theorem head_simplified (h : (simplified s).head? = some c) : isSpace c = false := by
  rw [simplified] at h
  cases hd : s.dropWhile isSpace with
  | nil =>
    rw [hd] at h
    cases h
  | cons d t =>
    have hspace : isSpace d = false := by
      have := List.head?_dropWhile_not isSpace s
      rw [hd] at this
      simpa using this
    rw [hd, simplifiedFrom, hspace, if_neg Bool.false_ne_true, if_neg Bool.false_ne_true] at h
    rwa [← Option.some.inj h]

theorem simplifiedFrom_idem (b : Bool) (s : QString) : simplifiedFrom false (simplifiedFrom b s) = simplifiedFrom b s := by
  have hspace : isSpace ' ' = true := by decide
  induction s generalizing b with
  | nil => rfl
  | cons c s ih =>
    by_cases hc : isSpace c = true
    · rw [simplifiedFrom, if_pos hc, ih]
    · cases b with
      | true =>
        rw [simplifiedFrom, if_neg hc, if_pos rfl, simplifiedFrom, if_pos hspace, simplifiedFrom, if_neg hc, if_pos rfl, ih]
      | false =>
        rw [simplifiedFrom, if_neg hc, if_neg Bool.false_ne_true, simplifiedFrom, if_neg hc, if_neg Bool.false_ne_true, ih]

theorem simplified_simplified (s : QString) : simplified (simplified s) = simplified s := by
  have hdrop := dropWhile_isSpace (s := simplified s) fun c h => head_simplified h
  have hidem : simplifiedFrom false (simplified s) = simplified s := simplifiedFrom_idem false _
  show simplifiedFrom false ((simplified s).dropWhile isSpace) = _
  rw [hdrop, hidem]

/-- A text without blanks stays as it is. -/
theorem simplified_of_no_space (h : ∀ c ∈ s, isSpace c = false) : simplified s = s :=
  (simple_word h).simplified fun c hc => h c (List.mem_of_mem_head? hc)

end QString

namespace HttpStrings
open QString

/-! ### The count -/

/-- A character other than those that are printed between the pieces. -/
def isHeavy (c : Char) : Bool := c ≠ ' ' && c ≠ ',' && c ≠ ';'

def weight (s : QString) : Nat := s.countP isHeavy

variable {L : Type} {qt : Qt L} {s t : QString} {c : Char} {l : List Char} {quoted : QString → QString} {part : Part L}

theorem weight_append (s t : QString) : weight (s ++ t) = weight s + weight t := List.countP_append

theorem weight_le (h : List.Sublist s t) : weight s ≤ weight t := h.countP_le

theorem weight_cons (hc : isHeavy c = true) (s : QString) : weight (c :: s) = weight s + 1 := List.countP_cons_of_pos hc

theorem isHeavy_of_isSpace (hspace : isSpace c = true) (hc : c ≠ ' ') : isHeavy c = true := by
  have hcomma : isSpace ',' = false := by decide
  have hsemicolon : isSpace ';' = false := by decide
  simp only [isHeavy, Bool.and_eq_true, decide_eq_true_eq]
  refine ⟨⟨hc, ?_⟩, ?_⟩
  · rintro rfl
    rw [hcomma] at hspace
    cases hspace
  · rintro rfl
    rw [hsemicolon] at hspace
    cases hspace

/-- The blanks of the text are spaces. -/
def OnlySpaces (s : QString) : Prop := ∀ c ∈ s, isSpace c = true → c = ' '

theorem weight_simplifiedFrom (b : Bool) (s : QString) : weight (simplifiedFrom b s) ≤ weight s ∧
    (weight (simplifiedFrom b s) = weight s → OnlySpaces s) := by
  induction s generalizing b with
  | nil => exact ⟨le_refl _, fun _ c hc => by cases hc⟩
  | cons d s ih =>
    by_cases hd : isSpace d = true
    · have ih := ih true
      rw [simplifiedFrom, if_pos hd]
      by_cases hspace : d = ' '
      · have hcons : weight (d :: s) = weight s := by
          rw [hspace]
          rfl
        rw [hcons]
        exact ⟨ih.1, fun h => List.forall_mem_cons.mpr ⟨fun _ => hspace, ih.2 h⟩⟩
      · rw [weight_cons (isHeavy_of_isSpace hd hspace)]
        exact ⟨ih.1.trans (Nat.le_succ _), fun h => absurd ih.1 (by omega)⟩
    · have ih := ih false
      have hcons : ∀ t, weight (d :: t) = weight t + weight [d] := fun t => by
        rw [← List.singleton_append, weight_append, Nat.add_comm]
      have hboth : weight (simplifiedFrom b (d :: s)) = weight (simplifiedFrom false s) + weight [d] := by
        rw [simplifiedFrom, if_neg hd]
        split
        · exact hcons _
        · exact hcons _
      rw [hboth, hcons s]
      refine ⟨Nat.add_le_add_right ih.1 _, fun h => List.forall_mem_cons.mpr ⟨fun h => absurd h hd, ih.2 ?_⟩⟩
      exact Nat.add_right_cancel h

theorem weight_simplified (s : QString) : weight (simplified s) ≤ weight s ∧ (weight (simplified s) = weight s → OnlySpaces s) := by
  have hsplit : weight s = weight (s.takeWhile isSpace) + weight (s.dropWhile isSpace) := by
    rw [← weight_append, List.takeWhile_append_dropWhile]
  obtain ⟨hle, honly⟩ := weight_simplifiedFrom false (s.dropWhile isSpace)
  rw [simplified]
  refine ⟨by omega, fun h c hc hspace => ?_⟩
  rw [← List.takeWhile_append_dropWhile (p := isSpace) (l := s)] at hc
  rcases List.mem_append.mp hc with hc | hc
  · by_contra hne
    have hpos : 0 < weight (s.takeWhile isSpace) := List.countP_pos_iff.mpr ⟨c, hc, isHeavy_of_isSpace hspace hne⟩
    omega
  · exact honly (by omega) c hc hspace

theorem isHeavy_bom : isHeavy bom = true := by decide

/-- What is kept of a text: nothing is lost but spaces where there is no byte order mark and no other blank. -/
theorem weight_text (s : QString) : weight (simplified (fromUtf8 s)) ≤ weight s ∧
    (weight (simplified (fromUtf8 s)) = weight s → s.head? ≠ some bom ∧ OnlySpaces s) := by
  obtain ⟨hle, honly⟩ := weight_simplified (fromUtf8 s)
  by_cases hbom : s.head? = some bom
  · obtain ⟨t, rfl⟩ := List.head?_eq_some_iff.mp hbom
    rw [fromUtf8_bom] at hle honly ⊢
    rw [weight_cons isHeavy_bom]
    exact ⟨hle.trans (Nat.le_succ _), fun h => absurd hle (by omega)⟩
  · rw [fromUtf8_eq_self hbom] at hle honly ⊢
    exact ⟨hle, fun h => ⟨hbom, honly h⟩⟩

/-- The first character stays where it is no space. -/
theorem head_text (hbom : s.head? ≠ some bom) (honly : OnlySpaces s) (hspace : s.head? ≠ some ' ') :
    (simplified (fromUtf8 s)).head? = s.head? := by
  rw [fromUtf8_eq_self hbom]
  cases s with
  | nil => rfl
  | cons c s =>
    have hc : isSpace c = false := by
      rw [Bool.eq_false_iff]
      intro h
      exact hspace (by rw [honly c List.mem_cons_self h]; rfl)
    rw [simplified, List.dropWhile_cons, hc, if_neg Bool.false_ne_true, simplifiedFrom, hc, if_neg Bool.false_ne_true,
      if_neg Bool.false_ne_true]
    rfl

/-! ### Scanning -/

theorem weight_before (l : List Char) (s : QString) :
    weight (before characters l s) + weight (behind characters l s) = weight s := by
  rw [before, behind, ← weight_append, List.takeWhile_append_dropWhile]

theorem weight_skip (l : List Char) (s : QString) : weight (skip characters l s) ≤ weight s := weight_le (List.dropWhile_sublist _)

theorem weight_behind (l : List Char) (s : QString) : weight (behind characters l s) ≤ weight s :=
  weight_le (List.dropWhile_sublist _)

theorem weight_tail (s : QString) : weight s.tail ≤ weight s := weight_le (List.tail_sublist s)

/-- A character that is passed and counts. -/
theorem weight_peek (hc : isHeavy c = true) (hnul : c ≠ nul) (h : peek characters s = c.toNat) :
    weight s = weight s.tail + 1 := by
  cases s with
  | nil => exact absurd (Char.toNat_inj.mp h.symm) hnul
  | cons d s =>
    have hd : d = c := Char.toNat_inj.mp h
    rw [hd, weight_cons hc]
    rfl

theorem mem_before (h : c ∈ before characters l s) : c ∈ s ∧ c ≠ nul ∧ c ∉ l := by
  have hp := List.mem_takeWhile_imp h
  rw [Bool.and_eq_true, List.all_eq_true] at hp
  refine ⟨(List.takeWhile_sublist _).subset h, ?_, fun hmem => ?_⟩
  · rintro rfl
    exact of_decide_eq_true hp.1 rfl
  · exact of_decide_eq_true (hp.2 c hmem) rfl

theorem head_before (h : (before characters l s).head? = some c) : s.head? = some c := by
  obtain ⟨t, ht⟩ := List.head?_eq_some_iff.mp h
  have hprefix : before characters l s <+: s := List.takeWhile_prefix _
  rw [ht] at hprefix
  obtain ⟨u, hu⟩ := hprefix
  rw [← hu]
  rfl

theorem head_skip (h : (skip characters l s).head? = some c) : c ∉ l := by
  intro hmem
  have hnot := List.head?_dropWhile_not (fun x : Char => l.any fun c => c.toNat = characters.code x) s
  rw [skip] at h
  rw [h] at hnot
  have hany : (l.any fun d => decide (d.toNat = characters.code c)) = true := List.any_eq_true.mpr ⟨c, hmem, decide_eq_true rfl⟩
  exact Bool.false_ne_true (hnot.symm.trans hany)

/-! ### Values -/

/-- A value that is read as it is printed. -/
structure GoodValue (v : QString) : Prop where
  simplified : QString.simplified v = v
  stops : ∀ c ∈ v, c ≠ ',' ∧ c ≠ ';'
  head : ∀ c, v.head? = some c → c ≠ '"' ∧ c ≠ '\'' ∧ c ≠ bom

theorem goodValue_nil : GoodValue [] := ⟨rfl, by simp, by simp⟩

theorem weight_readQuoted (hquoted : ∀ x, weight (quoted x) ≤ weight x) (s : QString) :
    weight (readQuoted characters c quoted s).1 + weight (readQuoted characters c quoted s).2 ≤ weight s := by
  have hvalue : weight (readQuoted characters c quoted s).1 ≤ weight (before characters [c] s) :=
    (hquoted _).trans (weight_le (fromUtf8_sublist _))
  have hrest : weight (readQuoted characters c quoted s).2 ≤ weight (behind characters [c] s) := by
    refine (weight_skip _ _).trans ?_
    split
    · exact weight_tail _
    · exact le_refl _
  have hsplit := weight_before [c] s
  omega

/-- A value costs what it counts, and more where it is not read as it is printed. -/
theorem weight_readValue (hquoted : ∀ x, weight (quoted x) ≤ weight x) (s : QString) :
    weight (readValue characters quoted s).1 + weight (readValue characters quoted s).2 ≤ weight s ∧
      (weight (readValue characters quoted s).1 + weight (readValue characters quoted s).2 = weight s →
        GoodValue (readValue characters quoted s).1) := by
  have hskip := weight_skip blanks s
  have hhead : ∀ {c}, (skip characters blanks s).head? = some c → c ∉ blanks := fun h => head_skip h
  rw [readValue]
  generalize skip characters blanks s = t at hskip hhead
  have hquote : ∀ c, isHeavy c = true → c ≠ nul → peek characters t = c.toNat →
      weight (readQuoted characters c quoted t.tail).1 + weight (readQuoted characters c quoted t.tail).2 < weight s := by
    intro c hc hnul hpeek
    have hread := weight_readQuoted (c := c) hquoted t.tail
    have htail := weight_peek hc hnul hpeek
    omega
  split
  · have hlt := hquote '"' (by decide) (by decide) ‹_›
    exact ⟨hlt.le, fun h => absurd h hlt.ne⟩
  · split
    · have hlt := hquote '\'' (by decide) (by decide) ‹_›
      exact ⟨hlt.le, fun h => absurd h hlt.ne⟩
    · obtain ⟨hle, hkept⟩ := weight_text (before characters [';', ','] t)
      have hsplit := weight_before [';', ','] t
      refine ⟨?_, fun h => ?_⟩
      · show weight (simplified (fromUtf8 (before characters [';', ','] t))) + weight (behind characters [';', ','] t) ≤ weight s
        omega
      · change weight (simplified (fromUtf8 (before characters [';', ','] t))) + weight (behind characters [';', ','] t) = weight s
          at h
        obtain ⟨hbom, honly⟩ := hkept (by omega)
        have hspace : (before characters [';', ','] t).head? ≠ some ' ' := fun hc => hhead (head_before hc) (by decide)
        refine ⟨simplified_simplified _, fun c hc => ?_, fun c hc => ?_⟩
        · rcases mem_simplified hc with hc | rfl
          · have hstop := (mem_before ((fromUtf8_sublist _).subset hc)).2.2
            exact ⟨fun h => hstop (by rw [h]; decide), fun h => hstop (by rw [h]; decide)⟩
          · decide
        · have hc : (simplified (fromUtf8 (before characters [';', ','] t))).head? = some c := hc
          rw [head_text hbom honly hspace] at hc
          have hpeek : peek characters t = c.toNat := by
            rw [peek, head_before hc]
            rfl
          refine ⟨?_, ?_, ?_⟩
          · rintro rfl
            exact ‹¬ peek characters t = '"'.toNat› hpeek
          · rintro rfl
            exact ‹¬ peek characters t = '\''.toNat› hpeek
          · rintro rfl
            exact hbom hc

/-! ### Parameters -/

/-- A parameter that is read as it is printed. -/
structure GoodEntry (e : QString × QString) : Prop where
  key : e.1.head? ≠ some bom
  value : GoodValue e.2

/-- A printed value with its equal sign. -/
def valueWeight (v : QString) : Nat := weight v + if v = [] then 0 else 1

def entryWeight (e : QString × QString) : Nat := weight e.1 + valueWeight e.2

theorem entryWeight_mk (k v : QString) : entryWeight (k, v) = weight k + valueWeight v := rfl

def partWeight (part : Part L) : Nat := weight part.name + valueWeight part.value + part.param.sumOf entryWeight

/-- Reading from `s` to `rest` turns one part into the other: it costs what the part gained, and more where a parameter was not good. -/
structure Costs (part : Part L) (s : QString) (part' : Part L) (rest : QString) : Prop where
  name : part'.name = part.name
  value : part'.value = part.value
  le : partWeight part' + weight rest ≤ partWeight part + weight s
  good : partWeight part' + weight rest = partWeight part + weight s → (∀ e ∈ part.param.entries, GoodEntry e) →
    ∀ e ∈ part'.param.entries, GoodEntry e

theorem Costs.of_le {rest : QString} (h : weight rest ≤ weight s) : Costs part s part rest :=
  ⟨rfl, rfl, Nat.add_le_add_left h _, fun _ h => h⟩

theorem Costs.trans {part' part'' : Part L} {rest : QString} (h : Costs part s part' t) (h' : Costs part' t part'' rest) :
    Costs part s part'' rest := by
  have hle := h.le
  have hle' := h'.le
  exact ⟨h'.name.trans h.name, h'.value.trans h.value, hle'.trans hle,
    fun heq hgood => h'.good (by omega) (h.good (by omega) hgood)⟩

/-- A value where there is an equal sign, and none elsewhere. -/
theorem weight_value (hquoted : ∀ x, weight (quoted x) ≤ weight x) {r : QString × QString}
    (hr : r = if peek characters s = '='.toNat then readValue characters quoted s.tail else ([], s)) :
    valueWeight r.1 + weight r.2 ≤ weight s ∧ (valueWeight r.1 + weight r.2 = weight s → GoodValue r.1) := by
  subst hr
  split
  · have htail := weight_peek (c := '=') (by decide) (by decide) ‹_›
    obtain ⟨hle, hgood⟩ := weight_readValue hquoted s.tail
    rw [valueWeight]
    split
    · exact ⟨by omega, fun h => by omega⟩
    · exact ⟨by omega, fun h => hgood (by omega)⟩
  · exact ⟨(Nat.zero_add _).le, fun _ => goodValue_nil⟩

theorem weight_trimmed (s : QString) : weight (trimmed s) ≤ weight s :=
  weight_le ((List.rdropWhile_prefix _ _).sublist.trans (List.dropWhile_sublist _))

theorem costs_addParameter {name value : QString} {rest : QString} (hle : entryWeight (name, value) + weight rest ≤ weight s)
    (hgood : entryWeight (name, value) + weight rest = weight s → GoodEntry (name, value)) :
    Costs part s (addParameter part name value) rest := by
  have hsum := part.param.sumOf_insert_le entryWeight name value
  refine ⟨rfl, rfl, ?_, fun heq hall e he => ?_⟩
  · show weight part.name + valueWeight part.value + (part.param.insert name value).sumOf entryWeight + weight rest ≤ _
    rw [partWeight]
    omega
  · change weight part.name + valueWeight part.value + (part.param.insert name value).sumOf entryWeight + weight rest =
      weight part.name + valueWeight part.value + part.param.sumOf entryWeight + weight s at heq
    rcases SortedMap.mem_insertIn he with rfl | he
    · exact hgood (by omega)
    · exact hall e he

variable (qt) in
theorem setLevel_part (part : Part L) (value : QString) : (setLevel qt part value).1.name = part.name ∧
    (setLevel qt part value).1.value = part.value ∧ (setLevel qt part value).1.param = part.param := by
  rw [setLevel]
  split
  · split
    · exact ⟨rfl, rfl, rfl⟩
    · exact ⟨rfl, rfl, rfl⟩
  · exact ⟨rfl, rfl, rfl⟩

theorem Costs.setLevel {part' : Part L} {rest : QString} (h : Costs part s part' rest) (value : QString) :
    Costs part s (setLevel qt part' value).1 rest := by
  obtain ⟨hname, hvalue, hparam⟩ := setLevel_part qt part' value
  have hweight : partWeight (HttpStrings.setLevel qt part' value).1 = partWeight part' := by
    rw [partWeight, hname, hvalue, hparam]
    rfl
  exact ⟨hname.trans h.name, hvalue.trans h.value, hweight ▸ h.le, fun heq hgood => by
    rw [hparam]
    exact h.good (hweight ▸ heq) hgood⟩

theorem costs_readNamed {name f : QString} (hle : weight name ≤ weight f)
    (hname : weight name = weight f → name.head? ≠ some bom) (hs : weight s + weight f = weight t) :
    Costs part t (readNamed qt characters part name s).1 (readNamed qt characters part name s).2.2 := by
  rw [readNamed]
  generalize hr : (if peek characters s = '='.toNat then readValue characters trimmed s.tail else ([], s)) = r
  obtain ⟨hvalue, hgood⟩ := weight_value weight_trimmed hr.symm
  have hadd : Costs part t (addParameter part name r.1) r.2 := by
    refine costs_addParameter ?_ fun heq => ?_
    · rw [entryWeight_mk]
      omega
    · rw [entryWeight_mk] at heq
      exact ⟨hname (by omega), hgood (by omega)⟩
  split
  · exact hadd.setLevel r.1
  · exact hadd

theorem weight_skipSpurious (r : Part L × QString × QString) :
    (skipSpurious characters r).1 = r.1 ∧ weight (skipSpurious characters r).2.2 ≤ weight r.2.2 := by
  rw [skipSpurious]
  split
  · exact ⟨rfl, (weight_behind _ _).trans (weight_tail _)⟩
  · exact ⟨rfl, le_refl _⟩

theorem costs_readParameter (part : Part L) (s : QString) :
    Costs part s (readParameter qt characters part s).1 (readParameter qt characters part s).2.2 := by
  have hskip := weight_skip [';', ' ', '\t'] s
  have hhead : ∀ {c}, (skip characters [';', ' ', '\t'] s).head? = some c → c ∉ [';', ' ', '\t'] := fun h => head_skip h
  rw [readParameter]
  generalize skip characters [';', ' ', '\t'] s = t at hskip hhead
  generalize hr : (if simplified (characters.text (before characters [',', ';', '='] t)) = [] then
    (part, [], behind characters [',', ';', '='] t) else
      readNamed qt characters part (simplified (characters.text (before characters [',', ';', '='] t)))
        (behind characters [',', ';', '='] t)) = r
  have hread : Costs part t r.1 r.2.2 := by
    rw [← hr]
    split
    · exact .of_le (weight_behind _ _)
    · obtain ⟨hle, hkept⟩ := weight_text (before characters [',', ';', '='] t)
      refine costs_readNamed hle (fun h => ?_) ((Nat.add_comm _ _).trans (weight_before [',', ';', '='] t))
      obtain ⟨hbom, honly⟩ := hkept h
      have hspace : (before characters [',', ';', '='] t).head? ≠ some ' ' := fun hc => hhead (head_before hc) (by decide)
      show (simplified (fromUtf8 (before characters [',', ';', '='] t))).head? ≠ some bom
      rwa [head_text hbom honly hspace]
  obtain ⟨hsame, hrest⟩ := weight_skipSpurious r
  rw [hsame]
  exact (Costs.of_le hskip).trans (hread.trans (.of_le hrest))

variable (qt) in
theorem costs_readParameters (part : Part L) (s : QString) :
    Costs part s (readParameters qt characters part s).1 (readParameters qt characters part s).2.2 := by
  induction h : s.length using Nat.strong_induction_on generalizing part s with
  | _ n ih =>
    rw [readParameters_eq]
    split
    · have htail : s.tail.length < s.length := length_tail_lt (n := ';'.toNat) (by decide) ‹_›
      have hlt := (length_readParameter qt (u := characters) part s.tail).trans_lt htail
      exact (Costs.of_le (weight_tail s)).trans ((costs_readParameter part s.tail).trans (ih _ (h ▸ hlt) _ _ rfl))
    · exact .of_le (le_refl _)

/-! ### Parts -/

/-- A name that is read as it is printed. -/
structure GoodName (name : QString) : Prop where
  spaces : ' ' ∉ name
  head : name.head? ≠ some bom

/-- A part costs what it counts, and more where its name or a parameter is not good. -/
theorem weight_readPart {r : Part L × QString × QString} (h : readPart qt characters s = some r) :
    partWeight r.1 + weight r.2.2 ≤ weight s ∧
      (partWeight r.1 + weight r.2.2 = weight s → GoodName r.1.name ∧ ∀ e ∈ r.1.param.entries, GoodEntry e) := by
  rw [readPart] at h
  simp only at h
  split at h
  · cases h
  · obtain ⟨hle, hkept⟩ := weight_text (before characters [',', ';', '=', ' ', '\t'] s)
    have hsplit := weight_before [',', ';', '=', ' ', '\t'] s
    have hspace : ' ' ∉ before characters [',', ';', '=', ' ', '\t'] s := fun hc => (mem_before hc).2.2 (by decide)
    have hskip := weight_skip blanks (behind characters [',', ';', '=', ' ', '\t'] s)
    have htext : characters.text (before characters [',', ';', '=', ' ', '\t'] s) =
      fromUtf8 (before characters [',', ';', '=', ' ', '\t'] s) := rfl
    rw [htext] at h
    generalize hf : before characters [',', ';', '=', ' ', '\t'] s = f at *
    generalize behind characters [',', ';', '=', ' ', '\t'] s = rest at *
    generalize hv : (if peek characters (skip characters blanks rest) = '='.toNat then
      readValue characters id (skip characters blanks rest).tail else ([], skip characters blanks rest)) = v at h
    obtain ⟨hvalue, -⟩ := weight_value (fun x => le_refl (weight x)) hv.symm
    have hread := Option.some.inj h
    have hcosts := costs_readParameters qt ⟨simplified (fromUtf8 f), v.1, qt.one, ∅⟩ v.2
    have hstart : partWeight (⟨simplified (fromUtf8 f), v.1, qt.one, ∅⟩ : Part L) =
      weight (simplified (fromUtf8 f)) + valueWeight v.1 := rfl
    rw [hread] at hcosts
    have hpart := hcosts.le
    rw [hstart] at hpart
    refine ⟨by omega, fun heq => ?_⟩
    obtain ⟨hbom, honly⟩ := hkept (by omega)
    have hnospace : ∀ c ∈ f, isSpace c = false := fun c hc => Bool.eq_false_iff.mpr fun h => hspace (honly c hc h ▸ hc)
    refine ⟨?_, hcosts.good (by rw [hstart]; omega) fun e he => by cases he⟩
    rw [hcosts.name, fromUtf8_eq_self hbom, simplified_of_no_space hnospace]
    exact ⟨hspace, hbom⟩

def partsWeight (parts : List (Part L)) : Nat := (parts.map partWeight).sum

theorem partsWeight_cons (part : Part L) (parts : List (Part L)) :
    partsWeight (part :: parts) = partWeight part + partsWeight parts := rfl

variable (qt) in
/-- The parts of a text cost what they count, and more where one of them is not good. -/
theorem weight_readParts (s : QString) : partsWeight (readParts qt characters s).1 ≤ weight s ∧
    (partsWeight (readParts qt characters s).1 = weight s → ∀ part ∈ (readParts qt characters s).1,
      GoodName part.name ∧ ∀ e ∈ part.param.entries, GoodEntry e) := by
  induction h : s.length using Nat.strong_induction_on generalizing s with
  | _ n ih =>
    have hskip := weight_skip separators s
    rw [readParts_eq]
    split
    · exact ⟨Nat.zero_le _, fun _ part hpart => by cases hpart⟩
    · cases hread : readPart qt characters (skip characters separators s) with
      | none => exact ⟨Nat.zero_le _, fun _ part hpart => by cases hpart⟩
      | some r =>
        have hlt := (length_readPart qt characters hread).trans_le (length_skip separators s)
        obtain ⟨hle, hgood⟩ := weight_readPart hread
        obtain ⟨hle', hgood'⟩ := ih _ (h ▸ hlt) r.2.2 rfl
        simp only [partsWeight_cons]
        exact ⟨by omega, fun heq => List.forall_mem_cons.mpr ⟨hgood (by omega), hgood' (by omega)⟩⟩

end HttpStrings
end Snapwebsites
