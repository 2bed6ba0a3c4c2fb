import Snapwebsites.HttpStrings.Accepted
import Snapwebsites.HttpStrings.Append
import Snapwebsites.HttpStrings.Print

/-! # Reading what is printed

The parts of an accepted text are read again from what is printed of them, as long as no part has a value, no name has a space, and
no parameter needs quotes. All other parts are lost, as they cost more than what is printed of them. -/

namespace Snapwebsites
namespace HttpStrings
open QString

variable {L : Type} {qt : Qt L} {s rest name v : QString} {c : Char} {l : List Char} {quoted : QString → QString} {part : Part L}
  {e : QString × QString} {entries : List (QString × QString)}

/-- A part that is read as it is printed. -/
structure GoodPart (part : Part L) : Prop where
  value : part.value = []
  name : GoodName part.name
  entries : ∀ e ∈ part.param.entries, GoodEntry e

/-! ### The scanner -/

theorem passes (hc : c ≠ nul ∧ c ∉ l) : (characters.code c ≠ 0 && l.all fun d => d.toNat ≠ characters.code c) = true := by
  rw [Bool.and_eq_true, List.all_eq_true]
  refine ⟨decide_eq_true fun h => hc.1 (Char.toNat_inj.mp h), fun d hd => decide_eq_true fun h => ?_⟩
  exact hc.2 (Char.toNat_inj.mp h ▸ hd)

theorem stops (hc : c ∈ l) : (characters.code c ≠ 0 && l.all fun d => d.toNat ≠ characters.code c) = false := by
  rw [Bool.and_eq_false_iff, List.all_eq_false]
  exact .inr ⟨c, hc, by simp [characters]⟩

theorem before_append (hs : ∀ c ∈ s, c ≠ nul ∧ c ∉ l) (hrest : ∀ c, rest.head? = some c → c ∈ l) :
    before characters l (s ++ rest) = s := by
  rw [before, List.takeWhile_append_of_pos fun c hc => passes (hs c hc)]
  cases rest with
  | nil => exact List.append_nil _
  | cons c rest => rw [List.takeWhile_cons, stops (hrest c rfl), if_neg Bool.false_ne_true, List.append_nil]

theorem behind_append (hs : ∀ c ∈ s, c ≠ nul ∧ c ∉ l) (hrest : ∀ c, rest.head? = some c → c ∈ l) :
    behind characters l (s ++ rest) = rest := by
  rw [behind, List.dropWhile_append_of_pos fun c hc => passes (hs c hc)]
  cases rest with
  | nil => rfl
  | cons c rest => rw [List.dropWhile_cons, stops (hrest c rfl), if_neg Bool.false_ne_true]

theorem skip_eq_self (h : ∀ c, s.head? = some c → c ∉ l) : skip characters l s = s := by
  cases s with
  | nil => rfl
  | cons c s =>
    have hc : (l.any fun d => decide (d.toNat = characters.code c)) = false := by
      rw [List.any_eq_false]
      intro d hd heq
      exact h c rfl (Char.toNat_inj.mp (of_decide_eq_true heq) ▸ hd)
    rw [skip, List.dropWhile_cons, hc, if_neg Bool.false_ne_true]

theorem text_eq_self (hsimplified : simplified s = s) (hbom : s.head? ≠ some bom) :
    simplified (characters.text s) = s := by
  show simplified (fromUtf8 s) = s
  rw [fromUtf8_eq_self hbom, hsimplified]

theorem head_not_blank (hsimplified : simplified s = s) (h : s.head? = some c) : c ∉ blanks := by
  have hspace : isSpace c = false := head_simplified (by rwa [hsimplified])
  intro hmem
  rcases List.mem_pair.mp hmem with rfl | rfl
  · exact absurd hspace (by decide)
  · exact absurd hspace (by decide)

/-- What stands behind a printed parameter. -/
def Ends (rest : QString) : Prop := ∀ c, rest.head? = some c → c = ';' ∨ c = ','

theorem Ends.mem (h : Ends rest) (hl : [';', ','] ⊆ l) : ∀ c, rest.head? = some c → c ∈ l := by
  intro c hc
  rcases h c hc with rfl | rfl
  · exact hl List.mem_cons_self
  · exact hl (List.mem_cons_of_mem _ List.mem_cons_self)

theorem peek_ne (h : ∀ d, s.head? = some d → d ≠ c) (hnul : c ≠ nul) : peek characters s ≠ c.toNat := by
  rw [peek]
  cases s with
  | nil => exact fun h => hnul (Char.toNat_inj.mp h.symm)
  | cons d s => exact fun heq => h d rfl (Char.toNat_inj.mp heq)

theorem peek_ne_zero (hne : s ≠ []) (h : ∀ c, s.head? = some c → c ≠ nul) : peek characters s ≠ 0 := by
  cases s with
  | nil => exact absurd rfl hne
  | cons c s => exact fun heq => h c rfl (Char.toNat_inj.mp heq)

/-! ### Parameters -/

theorem readValue_print (hv : GoodValue v) (hnul : ∀ c ∈ v, c ≠ nul) (hne : v ≠ []) (hrest : Ends rest) :
    readValue characters quoted (v ++ rest) = (v, rest) := by
  have hhead : ∀ {c}, (v ++ rest).head? = some c → v.head? = some c := fun h => by
    rwa [List.head?_append_of_ne_nil _ hne] at h
  have hskip : skip characters blanks (v ++ rest) = v ++ rest :=
    skip_eq_self fun c hc => head_not_blank hv.simplified (hhead hc)
  have hdouble : peek characters (v ++ rest) ≠ '"'.toNat := peek_ne (fun c hc => (hv.head c (hhead hc)).1) (by decide)
  have hsingle : peek characters (v ++ rest) ≠ '\''.toNat := peek_ne (fun c hc => (hv.head c (hhead hc)).2.1) (by decide)
  have hstops : ∀ c ∈ v, c ≠ nul ∧ c ∉ [';', ','] := by
    intro c hc
    obtain ⟨hcomma, hsemicolon⟩ := hv.stops c hc
    simp [hnul c hc, hcomma, hsemicolon]
  have hbom : v.head? ≠ some bom := fun h => (hv.head _ h).2.2 rfl
  rw [readValue]
  simp only [hskip]
  rw [if_neg hdouble, if_neg hsingle, before_append hstops (hrest.mem (List.Subset.refl _)),
    behind_append hstops (hrest.mem (List.Subset.refl _)), text_eq_self hv.simplified hbom]

/-- A value that is printed as a quality value is accepted as one. -/
def QualityAccepted (qt : Qt L) (e : QString × QString) : Prop :=
  e.1 = ['q'] → ∃ level, qt.toFloat e.2 = some level ∧ qt.nonNegative level = true

/-- Reading a part gave these parameters, without errors, up to what is left. -/
structure Reads (part : Part L) (entries : List (QString × QString)) (rest : QString) (r : Part L × QString × QString) : Prop where
  name : r.1.name = part.name
  value : r.1.value = part.value
  param : r.1.param = part.param.insertAll entries
  errors : r.2.1 = []
  rest : r.2.2 = rest

theorem setLevel_errors (hq : QualityAccepted qt e) (hname : e.1 = ['q']) (part : Part L) : (setLevel qt part e.2).2 = [] := by
  obtain ⟨level, hfloat, hlevel⟩ := hq hname
  rw [setLevel, hfloat]
  simp only [if_pos hlevel]

theorem reads_readNamed (part : Part L) (he : GoodEntry e) (hnul : ∀ c ∈ e.2, c ≠ nul) (hq : QualityAccepted qt e) (hrest : Ends rest) :
    Reads part [e] rest (readNamed qt characters part e.1 ((if e.2 = [] then [] else '=' :: e.2) ++ rest)) := by
  have hvalue : (if peek characters ((if e.2 = [] then [] else '=' :: e.2) ++ rest) = '='.toNat then
      readValue characters trimmed ((if e.2 = [] then [] else '=' :: e.2) ++ rest).tail
        else ([], (if e.2 = [] then [] else '=' :: e.2) ++ rest)) = (e.2, rest) := by
    by_cases hempty : e.2 = []
    · have hpeek : peek characters rest ≠ '='.toNat := peek_ne (fun c hc h => by
        rcases hrest c hc with rfl | rfl
        · cases h
        · cases h) (by decide)
      rw [if_pos hempty, List.nil_append, if_neg hpeek, hempty]
    · rw [if_neg hempty]
      exact readValue_print he.value hnul hempty hrest
  rw [readNamed]
  simp only [hvalue]
  split
  · obtain ⟨hname, hvalue, hparam⟩ := setLevel_part qt (addParameter part e.1 e.2) e.2
    exact ⟨hname, hvalue, hparam, setLevel_errors hq ‹_› _, rfl⟩
  · exact ⟨rfl, rfl, rfl, rfl, rfl⟩

theorem reads_readParameter (part : Part L) (htext : EntryFromText e) (he : GoodEntry e) (hq : QualityAccepted qt e)
    (hrest : Ends rest) : Reads part [e] rest (readParameter qt characters part (' ' :: parameterText e ++ rest)) := by
  have hends : ∀ c, ((if e.2 = [] then [] else '=' :: e.2) ++ rest).head? = some c → c ∈ [',', ';', '='] := by
    intro c hc
    split at hc
    · exact hrest.mem (by simp) c hc
    · cases hc
      exact List.mem_of_mem_getLast? rfl
  have hskip : skip characters [';', ' ', '\t'] (' ' :: parameterText e ++ rest) = parameterText e ++ rest := by
    have hhead : ∀ c, (parameterText e ++ rest).head? = some c → c ∉ [';', ' ', '\t'] := by
      intro c hc
      rw [parameterText, List.append_assoc, List.head?_append_of_ne_nil _ htext.ne] at hc
      have hblank := head_not_blank htext.simplified hc
      have hstop := (htext.stops c (List.mem_of_mem_head? hc)).2
      intro hmem
      rcases List.mem_cons.mp hmem with rfl | hmem
      · exact hstop (by decide)
      · exact hblank hmem
    exact skip_eq_self hhead
  have htextOf : parameterText e ++ rest = e.1 ++ ((if e.2 = [] then [] else '=' :: e.2) ++ rest) := List.append_assoc _ _ _
  rw [readParameter, hskip, htextOf, before_append htext.stops hends, behind_append htext.stops hends,
    text_eq_self htext.simplified he.key, if_neg htext.ne]
  have hreads := reads_readNamed part he htext.value hq hrest
  have hspurious : ¬ (peek characters rest ≠ 0 ∧ peek characters rest ≠ ';'.toNat ∧ peek characters rest ≠ ','.toNat) := by
    rintro ⟨hend, hsemicolon, hcomma⟩
    cases rest with
    | nil => exact hend rfl
    | cons c rest =>
      rcases hrest c rfl with rfl | rfl
      · exact hsemicolon rfl
      · exact hcomma rfl
  rw [skipSpurious, hreads.rest, if_neg hspurious]
  exact hreads

/-- The parameters are read one after the other, up to the comma in front of the next part. -/
theorem reads_readParameters (part : Part L) (htext : ∀ e ∈ entries, EntryFromText e) (hgood : ∀ e ∈ entries, GoodEntry e)
    (hq : ∀ e ∈ entries, QualityAccepted qt e) (hrest : ∀ c, rest.head? = some c → c = ',') :
    Reads part entries rest (readParameters qt characters part (parametersText entries ++ rest)) := by
  induction entries generalizing part with
  | nil =>
    have hpeek : peek characters rest ≠ ';'.toNat := peek_ne (fun c hc h => by cases (hrest c hc).symm.trans h) (by decide)
    rw [parametersText, List.flatMap_nil, List.nil_append, readParameters_end _ _ hpeek]
    exact ⟨rfl, rfl, rfl, rfl, rfl⟩
  | cons e es ih =>
    obtain ⟨htextE, htext⟩ := List.forall_mem_cons.mp htext
    obtain ⟨hgoodE, hgood⟩ := List.forall_mem_cons.mp hgood
    obtain ⟨hqE, hq⟩ := List.forall_mem_cons.mp hq
    have hends : Ends (parametersText es ++ rest) := by
      intro c hc
      cases es with
      | nil => exact .inr (hrest c hc)
      | cons d es =>
        cases hc
        exact .inl rfl
    have hfirst := reads_readParameter part htextE hgoodE hqE hends
    have htail : (parametersText (e :: es) ++ rest).tail = ' ' :: parameterText e ++ (parametersText es ++ rest) := by
      rw [parametersText_cons, List.append_assoc, List.append_assoc]
      rfl
    have hpeek : peek characters (parametersText (e :: es) ++ rest) = ';'.toNat := rfl
    rw [readParameters_eq, if_pos hpeek, htail]
    simp only
    rw [hfirst.rest]
    have hothers := ih (readParameter qt characters part (' ' :: parameterText e ++ (parametersText es ++ rest))).1 htext hgood hq
    refine ⟨hothers.name.trans hfirst.name, hothers.value.trans hfirst.value, ?_, ?_, hothers.rest⟩
    · rw [hothers.param, hfirst.param]
      rfl
    · simp only [hfirst.errors, hothers.errors, List.append_nil]

/-! ### Parts -/

theorem insertAll_entries (m : SortedMap QString QString) : (∅ : SortedMap QString QString).insertAll m.entries = m :=
  SortedMap.ext (SortedMap.entries_insertAll m.sorted)

/-- A part is read as it is printed, up to the comma in front of the next one. -/
theorem readPart_print (htext : FromText qt part) (hgood : GoodPart part) (hrest : ∀ c, rest.head? = some c → c = ',') :
    readPart qt characters (partText part ++ rest) = some (part, [], rest) := by
  have hname : ∀ c ∈ part.name, c ≠ nul ∧ c ∉ [',', ';', '=', ' ', '\t'] := by
    intro c hc
    obtain ⟨hnul, hstop⟩ := htext.stops c hc
    have hspace : c ≠ ' ' := fun h => hgood.name.spaces (h ▸ hc)
    refine ⟨hnul, ?_⟩
    simp only [List.mem_cons, List.not_mem_nil, or_false, not_or] at hstop ⊢
    exact ⟨hstop.1, hstop.2.1, hstop.2.2.1, hspace, hstop.2.2.2⟩
  have hends : Ends (parametersText part.param.entries ++ rest) := by
    intro c hc
    cases hentries : part.param.entries with
    | nil =>
      rw [hentries] at hc
      exact .inr (hrest c hc)
    | cons e es =>
      rw [hentries] at hc
      cases hc
      exact .inl rfl
  have hskip : skip characters blanks (parametersText part.param.entries ++ rest) = parametersText part.param.entries ++ rest := by
    refine skip_eq_self fun c hc => ?_
    rcases hends c hc with rfl | rfl
    · decide
    · decide
  have hpeek : peek characters (parametersText part.param.entries ++ rest) ≠ '='.toNat := peek_ne (fun c hc h => by
    rcases hends c hc with rfl | rfl
    · cases h
    · cases h) (by decide)
  have hstart : FromText qt ⟨part.name, [], qt.one, ∅⟩ := fromText_start htext.ne htext.short htext.simplified htext.stops []
  have hq : ∀ e ∈ part.param.entries, QualityAccepted qt e := fun e he hkey =>
    ⟨part.level, htext.level.given e.2 (SortedMap.find?_eq_some.mpr (hkey ▸ he))⟩
  have hreads := reads_readParameters (⟨part.name, [], qt.one, ∅⟩ : Part L) htext.entries hgood.entries hq hrest
  have hlevel := (fromText_readParameters hstart hreads.errors).level
  have hparam : (readParameters qt characters (⟨part.name, [], qt.one, ∅⟩ : Part L)
      (parametersText part.param.entries ++ rest)).1.param = part.param := hreads.param.trans (insertAll_entries _)
  rw [readPart, partText, List.append_assoc, before_append hname (hends.mem (by simp)), behind_append hname (hends.mem (by simp)),
    text_eq_self htext.simplified hgood.name.head, hskip]
  simp only
  rw [if_neg (not_or.mpr ⟨htext.ne, Nat.not_lt.mpr htext.short⟩), if_neg hpeek]
  exact congrArg some (Prod.ext
    (Part.ext hreads.name (hreads.value.trans hgood.value.symm) (hlevel.level_eq htext.level hparam) hparam)
    (Prod.ext hreads.errors hreads.rest))

theorem readParts_comma (s : QString) : readParts qt characters (", ".toList ++ s) = readParts qt characters s := by
  have hskip : skip characters separators (", ".toList ++ s) = skip characters separators s := rfl
  rw [readParts_eq, hskip, ← readParts_eq]

theorem head_partsText (parts : List (Part L)) : ∀ c, (partsText parts).head? = some c → c = ',' := by
  intro c hc
  cases parts with
  | nil => cases hc
  | cons part parts =>
    cases hc
    rfl

theorem readParts_partsText {parts : List (Part L)} (htext : ∀ part ∈ parts, FromText qt part)
    (hgood : ∀ part ∈ parts, GoodPart part) : readParts qt characters (partsText parts) = (parts, []) := by
  induction parts with
  | nil => exact readParts_nil qt characters
  | cons part parts ih =>
    obtain ⟨htextP, htext⟩ := List.forall_mem_cons.mp htext
    obtain ⟨hgoodP, hgood⟩ := List.forall_mem_cons.mp hgood
    have hhead : ∀ c, (partText part ++ partsText parts).head? = some c → c ∉ separators ∧ c ≠ nul := by
      intro c hc
      rw [partText, List.append_assoc, List.head?_append_of_ne_nil _ htextP.ne] at hc
      have hspace : isSpace c = false := head_simplified (by rwa [htextP.simplified])
      obtain ⟨hnul, hstop⟩ := htextP.stops c (List.mem_of_mem_head? hc)
      refine ⟨fun hmem => ?_, hnul⟩
      have hcases : ∀ d ∈ separators, isSpace d = true ∨ d = ',' := by decide
      rcases hcases c hmem with h | rfl
      · exact Bool.false_ne_true (hspace.symm.trans h)
      · exact hstop (by decide)
    have hskip : skip characters separators (partText part ++ partsText parts) = partText part ++ partsText parts :=
      skip_eq_self fun c hc => (hhead c hc).1
    have hne : partText part ++ partsText parts ≠ [] := by simp [partText, htextP.ne]
    have hnul : peek characters (partText part ++ partsText parts) ≠ 0 := peek_ne_zero hne fun c hc => (hhead c hc).2
    have hend : ¬ (peek characters (partsText parts) ≠ ','.toNat ∧ peek characters (partsText parts) ≠ 0) := by
      rintro ⟨hcomma, hzero⟩
      cases parts with
      | nil => exact hzero rfl
      | cons part parts => exact hcomma rfl
    rw [partsText_cons, List.append_assoc, readParts_comma, readParts_eq, hskip, if_neg hnul,
      readPart_print htextP hgoodP (head_partsText parts)]
    simp only [ih htext hgood, if_neg hend, List.append_nil]

/-! ### Accepted texts -/

theorem readParts_toString {parts : List (Part L)} (hnames : ∀ part ∈ parts, part.name ≠ [])
    (hunmarked : ∀ part ∈ parts, Unmarked qt part) :
    readParts qt characters (toString qt parts) = readParts qt characters (partsText parts) := by
  rw [toString_eq hnames hunmarked]
  cases parts with
  | nil => rfl
  | cons part parts => exact (readParts_comma _).symm

/-- Parts of an accepted text are read again exactly where all of them are good. -/
theorem readParts_toString_iff (haccepted : (readParts qt characters s).2 = [])
    (hunmarked : ∀ part ∈ (readParts qt characters s).1, Unmarked qt part) :
    (readParts qt characters (toString qt (readParts qt characters s).1)).1 = (readParts qt characters s).1 ↔
      ∀ part ∈ (readParts qt characters s).1, GoodPart part := by
  have htext := fromText_readParts haccepted
  rw [readParts_toString (fun part hpart => (htext part hpart).ne) hunmarked]
  generalize (readParts qt characters s).1 = parts at htext
  constructor
  · intro h part hpart
    -- what is read again costs no more than what is printed, which is without the values
    obtain ⟨hle, hgood⟩ := weight_readParts qt (partsText parts)
    have hprinted := weight_partsText parts
    rw [h] at hle hgood
    have hvalues : (parts.map fun part => valueWeight part.value).sum = 0 := by omega
    obtain ⟨hname, hentries⟩ := hgood (by omega) part hpart
    have hvalue : valueWeight part.value = 0 := List.sum_eq_zero_iff_forall_eq_nat.mp hvalues _ (List.mem_map_of_mem hpart)
    refine ⟨?_, hname, hentries⟩
    by_contra hne
    rw [valueWeight, if_neg hne] at hvalue
    cases hvalue
  · intro hgood
    rw [readParts_partsText htext hgood]

theorem parse_utf8 (t : QString) : parse qt {} t false =
    ({ str := t, parts := (readParts qt characters t).1, errorMessages := (readParts qt characters t).2 },
      decide ((readParts qt characters t).2 = [])) := by
  rw [← readParts_utf8]
  simp [parse]

/-- A second text goes on with the parts of a first one exactly where the offset skips nothing but blanks and commas; parts without
    place markers are the same when printed and parsed again exactly where they have no value, their names have no space, and their
    parameters need no quotes. -/
theorem parse_parse_toString_iff (qt : Qt L) :
    (∀ a, (∀ b, (parse qt (parse qt {} a false).1 b false).1.parts =
      (parse qt {} a false).1.parts ++ (parse qt {} b false).1.parts) ↔ OnlySeparators a) ∧
    ∀ t, (parse qt {} t false).2 = true → (∀ part ∈ (parse qt {} t false).1.parts, Unmarked qt part) →
      ((parse qt {} (toString qt (parse qt {} t false).1.parts) false).1.parts = (parse qt {} t false).1.parts ↔
        ∀ part ∈ (parse qt {} t false).1.parts, GoodPart part) := by
  refine ⟨parse_append_iff qt, fun t haccepted hunmarked => ?_⟩
  rw [parse_utf8] at haccepted hunmarked ⊢
  rw [parse_utf8]
  exact readParts_toString_iff (of_decide_eq_true haccepted) hunmarked

/-! ### Examples -/

/-- Levels that are whole numbers. -/
def wholeNumbers : Qt Nat where
  toFloat s := if s ≠ [] ∧ s.all Char.isDigit then some (s.foldl (fun n c => 10 * n + (c.toNat - 0x30)) 0) else none
  nonNegative _ := true
  one := 1
  digitValue c := if c.isDigit then some (c.toNat - 0x30) else none
  digitValue_digit := by decide
  digitValue_ascii c _ hdigit := by rw [hdigit, if_neg Bool.false_ne_true]

theorem readParts_en : readParts wholeNumbers characters "en;q=8".toList =
    ([⟨"en".toList, [], 8, (∅ : SortedMap QString QString).insert "q".toList "8".toList⟩], []) := by
  have hparameter : readParameter wholeNumbers characters ⟨"en".toList, [], 1, ∅⟩ "q=8".toList =
      (⟨"en".toList, [], 8, (∅ : SortedMap QString QString).insert "q".toList "8".toList⟩, [], []) := by
    decide
  have hparameters : readParameters wholeNumbers characters ⟨"en".toList, [], 1, ∅⟩ ";q=8".toList =
      (⟨"en".toList, [], 8, (∅ : SortedMap QString QString).insert "q".toList "8".toList⟩, [], []) := by
    have htail : ";q=8".toList.tail = "q=8".toList := rfl
    have hend : peek characters [] ≠ ';'.toNat := by decide
    rw [readParameters_eq, if_pos (by decide), htail, hparameter]
    simp only [readParameters_end _ _ hend, List.append_nil]
  have hpart : readPart wholeNumbers characters (skip characters separators "en;q=8".toList) =
      some (⟨"en".toList, [], 8, (∅ : SortedMap QString QString).insert "q".toList "8".toList⟩, [], []) := by
    rw [readPart, if_neg (by decide)]
    exact congrArg some hparameters
  rw [readParts_eq, if_neg (by decide), hpart]
  simp only [readParts_nil]
  rfl

/-- "en;q=8" is printed as "en; q=8". -/
theorem parse_parse_toString_en :
    (parse wholeNumbers {} (toString wholeNumbers (parse wholeNumbers {} "en;q=8".toList false).1.parts) false).1.parts =
      (parse wholeNumbers {} "en;q=8".toList false).1.parts := by
  have hparts : ∀ part ∈ (parse wholeNumbers {} "en;q=8".toList false).1.parts,
      part = ⟨"en".toList, [], 8, (∅ : SortedMap QString QString).insert "q".toList "8".toList⟩ := by
    rw [parse_utf8, readParts_en]
    exact fun part hpart => List.mem_singleton.mp hpart
  refine ((parse_parse_toString_iff wholeNumbers).2 "en;q=8".toList ?_ fun part hpart => ?_).mpr fun part hpart => ?_
  · rw [parse_utf8, readParts_en]
    rfl
  · rw [hparts part hpart]
    refine ⟨fun _ => ?_, fun e he _ => ?_, fun e he => ?_⟩
    · simp [Above, marker]
    · rw [List.mem_singleton.mp he]
      simp [Above, marker]
    · cases he
  · rw [hparts part hpart]
    refine ⟨rfl, ⟨by decide, by decide⟩, fun e he => ?_⟩
    rw [List.mem_singleton.mp he]
    refine ⟨by decide, by decide, by decide, fun c hc => ?_⟩
    rw [← Option.some.inj hc]
    decide

/-- "ééé;a=1" and then "x": the offset is inside of the first text, and what is scanned again has no name. "max-age=123" is printed
    without its value. -/
theorem not_parse_parse_toString :
    (parse wholeNumbers (parse wholeNumbers {} "ééé;a=1".toList false).1 "x".toList false).1.parts ≠
      (parse wholeNumbers {} "ééé;a=1".toList false).1.parts ++ (parse wholeNumbers {} "x".toList false).1.parts ∧
    (parse wholeNumbers {} "max-age=123".toList false).2 = true ∧
    (parse wholeNumbers {} (toString wholeNumbers (parse wholeNumbers {} "max-age=123".toList false).1.parts) false).1.parts ≠
      (parse wholeNumbers {} "max-age=123".toList false).1.parts := by
  have hscanned : (readParts wholeNumbers bytes (again "ééé;a=1".toList ++ utf8 "x".toList)).1 = [] := by
    have hpart : readPart wholeNumbers bytes (skip bytes separators (again "ééé;a=1".toList ++ utf8 "x".toList)) = none := by
      rw [readPart, if_pos (by decide)]
    rw [readParts_eq, if_neg (by decide), hpart]
  have hage : readParts wholeNumbers characters "max-age=123".toList = ([⟨"max-age".toList, "123".toList, 1, ∅⟩], []) := by
    have hpart : readPart wholeNumbers characters (skip characters separators "max-age=123".toList) =
        some (⟨"max-age".toList, "123".toList, 1, ∅⟩, [], []) := by
      rw [readPart, if_neg (by decide)]
      exact congrArg some (readParameters_end wholeNumbers characters (s := []) (by decide) ⟨"max-age".toList, "123".toList, 1, ∅⟩)
    rw [readParts_eq, if_neg (by decide), hpart]
    simp only [readParts_nil]
    rfl
  refine ⟨?_, ?_, ?_⟩
  · rw [parse_again _ (by decide), hscanned, parse_start, parse_start, List.append_nil]
    exact fun h => readParts_letter wholeNumbers (List.self_eq_append_right.mp h)
  · rw [parse_utf8, hage]
    rfl
  · rw [parse_utf8, parse_utf8, hage]
    intro h
    have hiff := @readParts_toString_iff _ wholeNumbers "max-age=123".toList
    rw [hage] at hiff
    have hgood := (hiff rfl (List.forall_mem_singleton.mpr (unmarked_of_no_parameters rfl))).mp h _ List.mem_cons_self
    cases hgood.value

end HttpStrings
end Snapwebsites
