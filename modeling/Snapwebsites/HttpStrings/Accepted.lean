import Snapwebsites.HttpStrings.Weight

/-! # Accepted texts

What a parse without errors leaves in the parts: names and parameters as the scanner cuts them out of the text, and the level that the
parameter "q" gives. -/

namespace Snapwebsites
namespace HttpStrings
open QString

variable {L : Type} {qt : Qt L} {s : QString} {c : Char} {l : List Char} {quoted : QString → QString} {part part' : Part L}

/-- A parameter that stood in a text. -/
structure EntryFromText (e : QString × QString) : Prop where
  ne : e.1 ≠ []
  simplified : QString.simplified e.1 = e.1
  stops : ∀ c ∈ e.1, c ≠ nul ∧ c ∉ [',', ';', '=']
  value : ∀ c ∈ e.2, c ≠ nul

/-- The level is the one of the parameter "q". -/
structure Leveled (qt : Qt L) (part : Part L) : Prop where
  given : ∀ v, part.param.find? ['q'] = some v → qt.toFloat v = some part.level ∧ qt.nonNegative part.level = true
  missing : part.param.find? ['q'] = none → part.level = qt.one

/-- A part that stood in a text. -/
structure FromText (qt : Qt L) (part : Part L) : Prop where
  ne : part.name ≠ []
  short : units part.name ≤ 17
  simplified : QString.simplified part.name = part.name
  stops : ∀ c ∈ part.name, c ≠ nul ∧ c ∉ [',', ';', '=', '\t']
  entries : ∀ e ∈ part.param.entries, EntryFromText e
  level : Leveled qt part

/-- A part whose parameters are not yet read. -/
theorem fromText_start {name : QString} (hne : name ≠ []) (hshort : units name ≤ 17) (hsimplified : simplified name = name)
    (hstops : ∀ c ∈ name, c ≠ nul ∧ c ∉ [',', ';', '=', '\t']) (value : QString) : FromText qt ⟨name, value, qt.one, ∅⟩ := by
  refine ⟨hne, hshort, hsimplified, hstops, fun e he => (List.not_mem_nil he).elim, fun v hv => ?_, fun _ => rfl⟩
  cases hv

theorem Leveled.level_eq (h : Leveled qt part) (h' : Leveled qt part') (hparam : part.param = part'.param) :
    part.level = part'.level := by
  cases hq : part.param.find? ['q'] with
  | none => rw [h.missing hq, h'.missing (hparam ▸ hq)]
  | some v => exact Option.some.inj ((h.given v hq).1.symm.trans (h'.given v (hparam ▸ hq)).1)

/-! ### Texts that are cut out -/

theorem mem_text (h : c ∈ simplified (fromUtf8 (before characters l s))) : (c ≠ nul ∧ c ∉ l) ∨ c = ' ' :=
  (mem_simplified h).imp_left fun h => (mem_before ((fromUtf8_sublist _).subset h)).2

theorem readQuoted_ne_nul (hquoted : ∀ x, quoted x ⊆ x) (quote : Char) (s : QString) :
    ∀ c ∈ (readQuoted characters quote quoted s).1, c ≠ nul := by
  intro c hc
  exact (mem_before ((fromUtf8_sublist _).subset (hquoted _ hc))).2.1

theorem readValue_ne_nul (hquoted : ∀ x, quoted x ⊆ x) (s : QString) :
    ∀ c ∈ (readValue characters quoted s).1, c ≠ nul := by
  rw [readValue]
  split
  · exact readQuoted_ne_nul hquoted _ _
  · split
    · exact readQuoted_ne_nul hquoted _ _
    · intro c hc
      rcases mem_text hc with ⟨hnul, -⟩ | rfl
      · exact hnul
      · decide

/-! ### Parameters -/

theorem Leveled.addParameter (h : Leveled qt part) {name : QString} (hname : name ≠ ['q']) (value : QString) :
    Leveled qt (addParameter part name value) := by
  have hfind : (part.param.insert name value).find? ['q'] = part.param.find? ['q'] := SortedMap.find?_insert_of_ne hname.symm
  exact ⟨fun v hv => h.given v (hfind ▸ hv), fun hq => h.missing (hfind ▸ hq)⟩

/-- A quality value that is accepted gives the level. -/
theorem leveled_setLevel {value : QString} (h : (setLevel qt part value).2 = []) (hq : part.param.find? ['q'] = some value) :
    Leveled qt (setLevel qt part value).1 := by
  rw [setLevel] at h ⊢
  split at h
  · rename_i level hlevel
    split at h
    · simp only [if_pos ‹qt.nonNegative level = true›]
      refine ⟨fun v hv => ?_, fun hnone => ?_⟩
      · rw [← Option.some.inj (hq.symm.trans hv)]
        exact ⟨hlevel, ‹_›⟩
      · cases hq.symm.trans hnone
    · rw [String.toList_ofList] at h
      cases h
  · rw [String.toList_ofList] at h
    cases h

theorem FromText.addEntry (h : FromText qt part) {name value : QString} (he : EntryFromText (name, value))
    (hname : part'.name = part.name) (hparam : part'.param = part.param.insert name value) (hlevel : Leveled qt part') :
    FromText qt part' := by
  refine ⟨hname ▸ h.ne, hname ▸ h.short, hname ▸ h.simplified, hname ▸ h.stops, fun e hmem => ?_, hlevel⟩
  rw [hparam] at hmem
  rcases SortedMap.mem_insertIn hmem with rfl | hmem
  · exact he
  · exact h.entries e hmem

theorem fromText_readNamed (h : FromText qt part) {name : QString} (he : EntryFromText (name, []))
    (herrors : (readNamed qt characters part name s).2.1 = []) : FromText qt (readNamed qt characters part name s).1 := by
  rw [readNamed] at herrors ⊢
  generalize hr : (if peek characters s = '='.toNat then readValue characters trimmed s.tail else ([], s)) = r at herrors ⊢
  have hvalue : ∀ c ∈ r.1, c ≠ nul := by
    rw [← hr]
    split
    · exact readValue_ne_nul (fun s => (trimmed_inside s).subset) _
    · exact fun c hc => by cases hc
  have he : EntryFromText (name, r.1) := ⟨he.ne, he.simplified, he.stops, hvalue⟩
  split at herrors
  · obtain ⟨hname, -, hparam⟩ := setLevel_part qt (addParameter part name r.1) r.1
    have hq : (addParameter part name r.1).param.find? ['q'] = some r.1 := by
      rw [← ‹name = ['q']›]
      exact SortedMap.find?_insert_self _ _ _
    simp only [if_pos ‹name = ['q']›]
    exact h.addEntry he hname hparam (leveled_setLevel herrors hq)
  · simp only [if_neg ‹¬ name = ['q']›]
    exact h.addEntry he rfl rfl (h.level.addParameter ‹_› _)

/-- A character that is left out is an error. -/
theorem skipSpurious_eq {r : Part L × QString × QString} (h : (skipSpurious characters r).2.1 = []) :
    skipSpurious characters r = r := by
  rw [skipSpurious] at h ⊢
  split at h
  · cases (List.append_eq_nil_iff.mp h).2
  · rw [if_neg ‹_›]

theorem fromText_readParameter (h : FromText qt part) (herrors : (readParameter qt characters part s).2.1 = []) :
    FromText qt (readParameter qt characters part s).1 := by
  rw [readParameter] at herrors ⊢
  have hsame := skipSpurious_eq herrors
  simp only [hsame] at herrors ⊢
  split at herrors
  · simp only [if_pos ‹simplified _ = []›]
    exact h
  · simp only [if_neg ‹¬ simplified _ = []›]
    refine fromText_readNamed h ⟨‹_›, simplified_simplified _, fun c hc => ?_, fun c hc => by cases hc⟩ herrors
    rcases mem_text hc with hc | rfl
    · exact hc
    · decide

theorem fromText_readParameters (h : FromText qt part) (herrors : (readParameters qt characters part s).2.1 = []) :
    FromText qt (readParameters qt characters part s).1 := by
  induction hn : s.length using Nat.strong_induction_on generalizing part s with
  | _ n ih =>
    rw [readParameters_eq] at herrors ⊢
    split at herrors
    · have htail : s.tail.length < s.length := length_tail_lt (n := ';'.toNat) (by decide) ‹_›
      have hlt := (length_readParameter qt (u := characters) part s.tail).trans_lt htail
      obtain ⟨hfirst, hrest⟩ := List.append_eq_nil_iff.mp herrors
      rw [if_pos ‹_›]
      exact ih _ (hn ▸ hlt) (fromText_readParameter h hfirst) hrest rfl
    · rw [if_neg ‹_›]
      exact h

/-! ### Parts -/

theorem fromText_readPart {r : Part L × QString × QString} (h : readPart qt characters s = some r) (herrors : r.2.1 = []) :
    FromText qt r.1 := by
  rw [readPart] at h
  simp only at h
  split at h
  · cases h
  · rename_i hname
    obtain ⟨hne, hshort⟩ := not_or.mp hname
    rw [← Option.some.inj h] at herrors ⊢
    have hstops : [',', ';', '=', '\t'] ⊆ [',', ';', '=', ' ', '\t'] := by simp
    refine fromText_readParameters (fromText_start hne (Nat.le_of_not_lt hshort) (simplified_simplified _) (fun c hc => ?_) _) herrors
    rcases mem_text hc with ⟨hnul, hl⟩ | rfl
    · exact ⟨hnul, fun hmem => hl (hstops hmem)⟩
    · decide

/-- A parse without errors gives parts that stood in the text. -/
theorem fromText_readParts (herrors : (readParts qt characters s).2 = []) :
    ∀ part ∈ (readParts qt characters s).1, FromText qt part := by
  induction h : s.length using Nat.strong_induction_on generalizing s with
  | _ n ih =>
    rw [readParts_eq] at herrors ⊢
    split at herrors
    · rw [if_pos ‹_›]
      exact fun part hpart => by cases hpart
    · rw [if_neg ‹_›]
      cases hread : readPart qt characters (skip characters separators s) with
      | none =>
        rw [hread, String.toList_ofList] at herrors
        cases herrors
      | some r =>
        have hlt := (length_readPart qt characters hread).trans_le (length_skip separators s)
        rw [hread] at herrors
        obtain ⟨hfirst, hrest⟩ := List.append_eq_nil_iff.mp herrors
        exact List.forall_mem_cons.mpr
          ⟨fromText_readPart hread (List.append_eq_nil_iff.mp hfirst).1, ih _ (h ▸ hlt) hrest rfl⟩

end HttpStrings
end Snapwebsites
