import Snapwebsites.SnapManager.Status

/-! # Lines that are accepted

What `from_string()` accepts, phase by phase: a name is read up to the character that ends it or to the end of
the text, and only what is behind a known state is taken for its closing bracket without a look
(`fromString_accepts_iff`, `fromString_eq_none_iff`). The format asks for the bracket (`WellFormed`). -/

namespace Snapwebsites
namespace SnapManager
open QString
namespace Status
variable {status : Status} {r line plugin field : QString}

/-- The function accepts the text. -/
def Accepts (result : Option (Status × Bool)) : Prop := ∃ status, result = some (status, true)

theorem not_accepts_false : ¬Accepts (some (status, false)) := by
  rintro ⟨_, h⟩
  cases h

/-! ### The value -/

theorem readValue_equal (status : Status) (v : QString) : readValue status ('=' :: v ++ [nul]) =
    some ({ status with value := SnapCommunicatorMessage.readValue v }, true) := by
  show some ({ status with value := SnapCommunicatorMessage.readValue (v ++ [nul]).dropLast }, true) = _
  rw [List.dropLast_concat]

theorem readValue_refused (h : ∀ v, r ≠ '=' :: v) : readValue status (r ++ [nul]) = some (status, false) := by
  cases r with
  | nil => rfl
  | cons c r =>
    have hc : c ≠ '=' := fun hc => h r (by rw [hc])
    show (if c = nul ∨ c ≠ '=' then _ else _) = _
    rw [if_pos (Or.inr hc)]
    rfl

theorem readValue_accepts : Accepts (readValue status (r ++ [nul])) ↔ ∃ v, r = '=' :: v := by
  constructor
  · intro h
    by_contra hr
    rw [not_exists] at hr
    rw [readValue_refused hr] at h
    exact not_accepts_false h
  · rintro ⟨v, rfl⟩
    exact ⟨_, readValue_equal status v⟩

theorem readValue_ne_none : readValue status (r ++ [nul]) ≠ none := by
  by_cases h : ∃ v, r = '=' :: v
  · obtain ⟨v, rfl⟩ := h
    rw [readValue_equal]
    exact Option.some_ne_none _
  · rw [not_exists] at h
    rw [readValue_refused h]
    exact Option.some_ne_none _

/-! ### The state -/

theorem clean_name (s : State) : Clean (· == ']') s.name := fun c hc =>
  ⟨(name_spec s c hc).1, beq_eq_false_iff_ne.mpr (name_spec s c hc).2⟩

theorem readState_other (h : ∀ s, r ≠ '[' :: s) : readState status (r ++ [nul]) = readValue status (r ++ [nul]) := by
  cases r with
  | nil => rfl
  | cons c r =>
    show (if c = '[' then _ else _) = _
    rw [if_neg fun hc => h r (by rw [hc])]

/-- The bracket is read up to `c`, which is skipped when the state is known. -/
theorem readState_bracket {a s : QString} {c : Char} (ha : Clean (· == ']') a) (hc : c = nul ∨ c = ']') :
    readState status ('[' :: (a ++ c :: s)) =
      (stateNamed a).elim (some (status, false)) fun state => readValue { status with state } s := by
  have hscan : scan (· == ']') (a ++ c :: s) = some (a, c :: s) := scan_append ha (hc.imp_right beq_iff_eq.mpr)
  show (scan (· == ']') (a ++ c :: s)).bind _ = _
  rw [hscan]
  cases hname : stateNamed a <;> simp [hname]

/-- What may stand between the field name and the equal sign: what is behind a known state is not looked at. -/
def Bracket (s : QString) : Prop :=
  s = [] ∨ ∃ name c, (stateNamed name).isSome ∧ (c = nul ∨ c = ']') ∧ s = '[' :: name ++ [c]

theorem clean_of_isSome {name : QString} (h : (stateNamed name).isSome) : Clean (· == ']') name := by
  obtain ⟨s, hs⟩ := Option.isSome_iff_exists.mp h
  rw [(stateNamed_eq_some hs).2]
  exact clean_name s

theorem readState_accepts : Accepts (readState status (r ++ [nul])) ↔ ∃ b v, Bracket b ∧ r = b ++ '=' :: v := by
  constructor
  · intro h
    by_cases hr : ∃ s, r = '[' :: s
    · obtain ⟨s, rfl⟩ := hr
      rcases scan_cases (· == ']') s with ⟨a, c, t, ha, hc, rfl⟩ | hs
      · rw [beq_iff_eq] at hc
        rw [List.cons_append, List.append_assoc, List.cons_append, readState_bracket ha hc] at h
        cases hname : stateNamed a with
        | none =>
          rw [hname] at h
          exact absurd h not_accepts_false
        | some state =>
          rw [hname, Option.elim_some] at h
          obtain ⟨v, rfl⟩ := readValue_accepts.mp h
          exact ⟨'[' :: a ++ [c], v, Or.inr ⟨a, c, by rw [hname]; rfl, hc, rfl⟩, by simp⟩
      · rw [List.cons_append, readState_bracket hs (Or.inl rfl)] at h
        cases hname : stateNamed s with
        | none =>
          rw [hname] at h
          exact absurd h not_accepts_false
        | some state =>
          rw [hname] at h
          obtain ⟨_, h⟩ := h
          cases h
    · rw [not_exists] at hr
      rw [readState_other hr] at h
      obtain ⟨v, rfl⟩ := readValue_accepts.mp h
      exact ⟨[], v, Or.inl rfl, rfl⟩
  · rintro ⟨b, v, rfl | ⟨name, c, hname, hc, rfl⟩, rfl⟩
    · exact ⟨_, (readState_other (by simp)).trans (readValue_equal status v)⟩
    · obtain ⟨state, hstate⟩ := Option.isSome_iff_exists.mp hname
      refine ⟨{ status with state, value := SnapCommunicatorMessage.readValue v }, ?_⟩
      rw [show '[' :: name ++ [c] ++ '=' :: v ++ [nul] = '[' :: (name ++ c :: ('=' :: v ++ [nul])) by simp,
        readState_bracket (clean_of_isSome hname) hc, hstate]
      exact readValue_equal _ v

theorem readState_eq_none : readState status (r ++ [nul]) = none ↔ ∃ name, (stateNamed name).isSome ∧ r = '[' :: name := by
  constructor
  · intro h
    by_cases hr : ∃ s, r = '[' :: s
    · obtain ⟨s, rfl⟩ := hr
      rcases scan_cases (· == ']') s with ⟨a, c, t, ha, hc, rfl⟩ | hs
      · rw [beq_iff_eq] at hc
        rw [List.cons_append, List.append_assoc, List.cons_append, readState_bracket ha hc] at h
        cases hname : stateNamed a with
        | none =>
          rw [hname] at h
          cases h
        | some state =>
          rw [hname, Option.elim_some] at h
          exact absurd h readValue_ne_none
      · rw [List.cons_append, readState_bracket hs (Or.inl rfl)] at h
        cases hname : stateNamed s with
        | none =>
          rw [hname] at h
          cases h
        | some state => exact ⟨s, by rw [hname]; rfl, rfl⟩
    · rw [not_exists] at hr
      rw [readState_other hr] at h
      exact absurd h readValue_ne_none
  · rintro ⟨name, hname, rfl⟩
    obtain ⟨state, hstate⟩ := Option.isSome_iff_exists.mp hname
    rw [List.cons_append, readState_bracket (clean_of_isSome hname) (Or.inl rfl), hstate]
    rfl

/-! ### The names -/

theorem stopsField {c : Char} : (c == '[' || c == '=') = true ↔ c = '[' ∨ c = '=' := by
  rw [Bool.or_eq_true, beq_iff_eq, beq_iff_eq]

theorem readState_nul (status : Status) (s : QString) : readState status (nul :: s) = some (status, false) := rfl

/-- The field name is read up to a bracket or an equal sign, else the text is refused. -/
theorem readFieldName_cases (status : Status) (r : QString) :
    (∃ field s, Clean (fun c => c == '[' || c == '=') field ∧ r = field ++ s ∧ (s.head? = some '[' ∨ s.head? = some '=') ∧
      readFieldName status (r ++ [nul]) = readState { status with fieldName := field } (s ++ [nul])) ∨
    ∃ field, readFieldName status (r ++ [nul]) = some ({ status with fieldName := field }, false) := by
  rcases scan_cases (fun c => c == '[' || c == '=') r with ⟨a, c, s, ha, hc, rfl⟩ | hr
  · have hscan : readFieldName status (a ++ c :: s ++ [nul]) = readState { status with fieldName := a } (c :: s ++ [nul]) := by
      rw [List.append_assoc, List.cons_append, readFieldName, scan_append ha hc]
      rfl
    rcases hc with rfl | hc
    · rw [List.cons_append, readState_nul] at hscan
      exact Or.inr ⟨a, hscan⟩
    · exact Or.inl ⟨a, c :: s, ha, rfl, (stopsField.mp hc).imp (congrArg some) (congrArg some), hscan⟩
  · refine Or.inr ⟨r, ?_⟩
    rw [readFieldName, scan_append hr (Or.inl rfl)]
    rfl

theorem readFieldName_append {s : QString} (hfield : Clean (fun c => c == '[' || c == '=') field)
    (hs : s.head? = some '[' ∨ s.head? = some '=') : readFieldName status (field ++ s ++ [nul]) =
      readState { status with fieldName := field } (s ++ [nul]) := by
  cases s with
  | nil => rcases hs with hs | hs <;> cases hs
  | cons c s =>
    have hc : c = '[' ∨ c = '=' := hs.imp Option.some.inj Option.some.inj
    rw [List.append_assoc, List.cons_append, readFieldName, scan_append hfield (Or.inr (stopsField.mpr hc))]
    rfl

/-- The plugin name is read up to two colons, else the text is refused. -/
theorem fromString_cases (line : QString) :
    (∃ plugin s, Clean (· == ':') plugin ∧ line = plugin ++ ':' :: ':' :: s ∧
      fromString line = readFieldName { pluginName := plugin } (s ++ [nul])) ∨
    ∃ plugin, fromString line = some ({ pluginName := plugin }, false) := by
  rcases scan_cases (· == ':') line with ⟨a, c, s, ha, hc, rfl⟩ | hline
  · have hscan : scan (· == ':') (a ++ c :: s ++ [nul]) = some (a, c :: (s ++ [nul])) := by
      rw [List.append_assoc, List.cons_append, scan_append ha hc]
    rcases hc with rfl | hc
    · refine Or.inr ⟨a, ?_⟩
      rw [fromString, hscan]
      rfl
    · rw [beq_iff_eq] at hc
      subst hc
      cases s with
      | nil =>
        refine Or.inr ⟨a, ?_⟩
        rw [fromString, hscan]
        rfl
      | cons d s =>
        by_cases hd : d = ':'
        · subst hd
          refine Or.inl ⟨a, s, ha, rfl, ?_⟩
          rw [fromString, hscan]
          rfl
        · refine Or.inr ⟨a, ?_⟩
          rw [fromString, hscan]
          show (if d = nul ∨ d ≠ ':' then _ else _) = _
          rw [if_pos (Or.inr hd)]
          rfl
  · refine Or.inr ⟨line, ?_⟩
    rw [fromString, scan_append hline (Or.inl rfl)]
    rfl

theorem fromString_append {s : QString} (hplugin : Clean (· == ':') plugin) :
    fromString (plugin ++ ':' :: ':' :: s) = readFieldName { pluginName := plugin } (s ++ [nul]) := by
  rw [fromString, List.append_assoc, List.cons_append, scan_append hplugin (Or.inr rfl)]
  rfl

/-! ### All the phases -/

theorem head?_bracket {b v : QString} (hb : Bracket b) :
    (b ++ '=' :: v).head? = some '[' ∨ (b ++ '=' :: v).head? = some '=' := by
  rcases hb with rfl | ⟨name, c, -, -, rfl⟩
  · exact Or.inr rfl
  · exact Or.inl rfl

theorem fromString_accepts_iff (line : QString) : Accepts (fromString line) ↔
    ∃ plugin field b v, Clean (· == ':') plugin ∧ Clean (fun c => c == '[' || c == '=') field ∧ Bracket b ∧
      line = plugin ++ ':' :: ':' :: (field ++ (b ++ '=' :: v)) := by
  constructor
  · intro h
    rcases fromString_cases line with ⟨plugin, s, hplugin, rfl, hline⟩ | ⟨plugin, hline⟩
    · rw [hline] at h
      rcases readFieldName_cases { pluginName := plugin } s with ⟨field, t, hfield, rfl, -, hs⟩ | ⟨field, hs⟩
      · rw [hs, readState_accepts] at h
        obtain ⟨b, v, hb, rfl⟩ := h
        exact ⟨plugin, field, b, v, hplugin, hfield, hb, rfl⟩
      · rw [hs] at h
        exact absurd h not_accepts_false
    · rw [hline] at h
      exact absurd h not_accepts_false
  · rintro ⟨plugin, field, b, v, hplugin, hfield, hb, rfl⟩
    rw [fromString_append hplugin, readFieldName_append hfield (head?_bracket hb), readState_accepts]
    exact ⟨b, v, hb, rfl⟩

/-- The scanner leaves the text where the text ends behind a known state. -/
theorem fromString_eq_none_iff (line : QString) : fromString line = none ↔
    ∃ plugin field name, Clean (· == ':') plugin ∧ Clean (fun c => c == '[' || c == '=') field ∧
      (stateNamed name).isSome ∧ line = plugin ++ ':' :: ':' :: (field ++ '[' :: name) := by
  constructor
  · intro h
    rcases fromString_cases line with ⟨plugin, s, hplugin, rfl, hline⟩ | ⟨plugin, hline⟩
    · rw [hline] at h
      rcases readFieldName_cases { pluginName := plugin } s with ⟨field, t, hfield, rfl, -, hs⟩ | ⟨field, hs⟩
      · rw [hs, readState_eq_none] at h
        obtain ⟨name, hname, rfl⟩ := h
        exact ⟨plugin, field, name, hplugin, hfield, hname, rfl⟩
      · rw [hs] at h
        cases h
    · rw [hline] at h
      cases h
  · rintro ⟨plugin, field, name, hplugin, hfield, hname, rfl⟩
    rw [fromString_append hplugin, readFieldName_append hfield (Or.inl rfl), readState_eq_none]
    exact ⟨name, hname, rfl⟩

/-! ### The format -/

/-- A plugin name, two colons, a field name, a known state in brackets or nothing, and a value. -/
structure Parts (line plugin field bracket value : QString) : Prop where
  line : line = plugin ++ ':' :: ':' :: (field ++ (bracket ++ '=' :: value))
  plugin : ':' ∉ plugin
  field : ∀ c ∈ field, ¬(c = '[' ∨ c = '=')
  bracket : bracket = [] ∨ ∃ name, (stateNamed name).isSome ∧ bracket = '[' :: name ++ [']']

def WellFormed (line : QString) : Prop := ∃ plugin field bracket value, Parts line plugin field bracket value

/-- The text is read up to its end at most, and accepted when it is of the format. -/
structure Safe (line : QString) : Prop where
  inside : fromString line ≠ none
  accepted : (∃ status, fromString line = some (status, true)) ↔ WellFormed line

/-- No known state is open where the text ends or a NUL stands in front of the equal sign. -/
def Closed (line : QString) : Prop :=
  ∀ plugin field name rest, Clean (· == ':') plugin → Clean (fun c => c == '[' || c == '=') field →
    (stateNamed name).isSome → line = plugin ++ ':' :: ':' :: (field ++ '[' :: (name ++ rest)) →
      rest ≠ [] ∧ ∀ value, rest ≠ nul :: '=' :: value

/-- The names of a text of the format have no NUL. -/
def PlainNames (line : QString) : Prop :=
  ∀ plugin field bracket value, Parts line plugin field bracket value → nul ∉ plugin ∧ nul ∉ field

theorem notMem_of_clean {plugin : QString} (h : Clean (· == ':') plugin) : ':' ∉ plugin := fun hmem =>
  absurd (h ':' hmem).2 (by decide)

theorem not_stops_of_clean {field : QString} (h : Clean (fun c => c == '[' || c == '=') field) :
    ∀ c ∈ field, ¬(c = '[' ∨ c = '=') := fun c hc hstop =>
  Bool.false_ne_true ((h c hc).2.symm.trans (stopsField.mpr hstop))

theorem clean_of_notMem {plugin : QString} (h : ':' ∉ plugin) (hnul : nul ∉ plugin) : Clean (· == ':') plugin :=
  fun _ hc => ⟨fun hn => hnul (hn ▸ hc), beq_eq_false_iff_ne.mpr fun hcolon => h (hcolon ▸ hc)⟩

theorem clean_of_not_stops {field : QString} (h : ∀ c ∈ field, ¬(c = '[' ∨ c = '=')) (hnul : nul ∉ field) :
    Clean (fun c => c == '[' || c == '=') field := fun c hc =>
  ⟨fun hn => hnul (hn ▸ hc), Bool.eq_false_iff.mpr fun hstop => h c hc (stopsField.mp hstop)⟩

theorem nul_notMem_of_clean {stop : Char → Bool} {s : QString} (h : Clean stop s) : nul ∉ s := fun hmem => (h nul hmem).1 rfl

/-- Names and what follows them are the same whichever way a text is cut. -/
theorem cut_names {plugin' field' s t : QString} {c d : Char} (hp : ':' ∉ plugin) (hp' : ':' ∉ plugin')
    (hf : ∀ x ∈ field, ¬(x = '[' ∨ x = '=')) (hf' : ∀ x ∈ field', ¬(x = '[' ∨ x = '=')) (hc : c = '[' ∨ c = '=')
    (hd : d = '[' ∨ d = '=')
    (h : plugin ++ ':' :: ':' :: (field ++ c :: s) = plugin' ++ ':' :: ':' :: (field' ++ d :: t)) :
    plugin = plugin' ∧ field = field' ∧ c = d ∧ s = t := by
  obtain ⟨hplugin, hrest⟩ := append_cons_inj h hp hp'
  exact ⟨hplugin, cut_unique hf hc hf' hd (List.cons.inj hrest).2⟩

theorem Parts.cut {b v : QString} (h : Parts line plugin field b v) : ∃ c s, b ++ '=' :: v = c :: s ∧ (c = '[' ∨ c = '=') := by
  rcases h.bracket with rfl | ⟨name, -, rfl⟩
  · exact ⟨'=', v, rfl, Or.inr rfl⟩
  · exact ⟨'[', name ++ [']'] ++ '=' :: v, rfl, Or.inl rfl⟩

/-- A known state that a NUL ends is not of the format. -/
theorem not_wellFormed_of_open {name s : QString} (hplugin : Clean (· == ':') plugin)
    (hfield : Clean (fun c => c == '[' || c == '=') field) (hname : (stateNamed name).isSome) :
    ¬WellFormed (plugin ++ ':' :: ':' :: (field ++ '[' :: (name ++ nul :: s))) := by
  rintro ⟨plugin', field', b, v, h⟩
  have hline := h.line
  rcases h.bracket with rfl | ⟨name', hname', rfl⟩
  · obtain ⟨-, -, hc, -⟩ := cut_names (notMem_of_clean hplugin) h.plugin (not_stops_of_clean hfield) h.field (Or.inl rfl)
      (Or.inr rfl) hline
    exact absurd hc (by decide)
  · rw [List.cons_append, List.cons_append, List.append_assoc] at hline
    obtain ⟨-, -, -, hrest⟩ := cut_names (notMem_of_clean hplugin) h.plugin (not_stops_of_clean hfield) h.field (Or.inl rfl)
      (Or.inl rfl) hline
    have hstops : ∀ {name : QString}, (stateNamed name).isSome → ∀ c ∈ name, ¬(c = nul ∨ c = ']') := fun hname c hc => by
      obtain ⟨hnul, hclose⟩ := clean_of_isSome hname c hc
      exact not_or.mpr ⟨hnul, beq_eq_false_iff_ne.mp hclose⟩
    obtain ⟨-, hc, -⟩ := cut_unique (hstops hname) (Or.inl rfl) (hstops hname') (Or.inr rfl) hrest
    exact absurd hc (by decide)

/-! ### When the scanner is safe -/

/-- The scanner is safe unless a known state is left open or a name has a NUL. -/
theorem fromString_safe_iff (line : QString) : Safe line ↔ Closed line ∧ PlainNames line := by
  constructor
  · intro h
    constructor
    · intro plugin field name rest hplugin hfield hname hline
      constructor
      · rintro rfl
        rw [List.append_nil] at hline
        exact h.inside ((fromString_eq_none_iff line).mpr ⟨plugin, field, name, hplugin, hfield, hname, hline⟩)
      · rintro value rfl
        have hbracket : Bracket ('[' :: name ++ [nul]) := Or.inr ⟨name, nul, hname, Or.inl rfl, rfl⟩
        have haccepts : Accepts (fromString line) := (fromString_accepts_iff line).mpr
          ⟨plugin, field, '[' :: name ++ [nul], value, hplugin, hfield, hbracket, by rw [hline]; simp⟩
        have hformat := h.accepted.mp haccepts
        rw [hline] at hformat
        exact not_wellFormed_of_open hplugin hfield hname hformat
    · intro plugin field b v hparts
      obtain ⟨plugin', field', b', v', hplugin, hfield, hb, hline⟩ :=
        (fromString_accepts_iff line).mp (h.accepted.mpr ⟨plugin, field, b, v, hparts⟩)
      obtain ⟨c, s, hcut, hc⟩ := hparts.cut
      obtain ⟨d, t, hcut', hd⟩ : ∃ d t, b' ++ '=' :: v' = d :: t ∧ (d = '[' ∨ d = '=') := by
        rcases hb with rfl | ⟨name, c, -, -, rfl⟩
        · exact ⟨'=', v', rfl, Or.inr rfl⟩
        · exact ⟨'[', name ++ [c] ++ '=' :: v', rfl, Or.inl rfl⟩
      have hsame := hparts.line
      rw [hline, hcut', hcut] at hsame
      obtain ⟨hp, hf, -⟩ := cut_names (notMem_of_clean hplugin) hparts.plugin (not_stops_of_clean hfield) hparts.field hd hc hsame
      rw [← hp, ← hf]
      exact ⟨nul_notMem_of_clean hplugin, nul_notMem_of_clean hfield⟩
  · rintro ⟨hclosed, hplain⟩
    refine ⟨fun hnone => ?_, fun haccepts => ?_, fun hformat => ?_⟩
    · obtain ⟨plugin, field, name, hplugin, hfield, hname, hline⟩ := (fromString_eq_none_iff line).mp hnone
      exact (hclosed plugin field name [] hplugin hfield hname (by rw [hline, List.append_nil])).1 rfl
    · obtain ⟨plugin, field, b, v, hplugin, hfield, hb, hline⟩ := (fromString_accepts_iff line).mp haccepts
      refine ⟨plugin, field, b, v, hline, notMem_of_clean hplugin, not_stops_of_clean hfield, ?_⟩
      rcases hb with rfl | ⟨name, c, hname, rfl | rfl, rfl⟩
      · exact Or.inl rfl
      · exact absurd rfl ((hclosed plugin field name (nul :: '=' :: v) hplugin hfield hname (by rw [hline]; simp)).2 v)
      · exact Or.inr ⟨name, hname, rfl⟩
    · obtain ⟨plugin, field, b, v, hparts⟩ := hformat
      obtain ⟨hp, hf⟩ := hplain plugin field b v hparts
      refine (fromString_accepts_iff line).mpr ⟨plugin, field, b, v, clean_of_notMem hparts.plugin hp,
        clean_of_not_stops hparts.field hf, ?_, hparts.line⟩
      exact hparts.bracket.imp_right fun ⟨name, hname, hb⟩ => ⟨name, ']', hname, Or.inr rfl, hb⟩

/-- The line `a::b[info` is read past its end. -/
theorem fromString_unsafe : ¬Safe ['a', ':', ':', 'b', '[', 'i', 'n', 'f', 'o'] := fun h => h.inside (by decide)

end Status
end SnapManager
end Snapwebsites
