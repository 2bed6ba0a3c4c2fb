import Snapwebsites.Communicator.Value
import Snapwebsites.SnapManager.ServerStatus
import Snapwebsites.SnapManager.StatusLine

/-! # The line of one status

What is written for a status (`toString_eq`) and what is read of it: from the text the value comes back less a
byte order mark (`fromString_lineOf`), and the reader of the file takes one more from the front of the line and
the carriage returns out of the names (`readline_lineOf`). -/

namespace Snapwebsites
namespace SnapManager
open QString SnapCommunicatorMessage

namespace Status
variable {s : Status} {line : QString}

/-! ### Writing -/

def bracketOf (s : State) : QString := if s = .info then [] else '[' :: s.name ++ [']']

def lineOf (s : Status) : QString :=
  s.pluginName ++ ':' :: ':' :: (s.fieldName ++ (bracketOf s.state ++ '=' :: escaped s.value))

theorem stateText_eq {s : State} (h : s ≠ .undefined) : stateText s = .ok (bracketOf s) := by
  cases s with
  | undefined => exact absurd rfl h
  | _ => rfl

theorem safeValue_eq {value : QString} (h : nul ∉ value) : safeValue value = escaped (fromUtf8 value) := by
  rw [safeValue, constData_eq_self h, replaceMany_escapes, fromUtf8_escaped]

theorem toString_eq (h : Written s) : s.toString = .ok (lineOf { s with value := fromUtf8 s.value }) := by
  have hnames : ¬(s.pluginName.isEmpty ∨ s.fieldName.isEmpty) := by
    rw [List.isEmpty_iff, List.isEmpty_iff]
    exact not_or.mpr ⟨h.pluginName.1, h.fieldName.1⟩
  have htext : s.toString = .ok (s.pluginName ++ "::".toList ++ s.fieldName ++ bracketOf s.state ++ ['='] ++ safeValue s.value) := by
    rw [toString, if_neg hnames, stateText_eq h.state]
    rfl
  have hcolons : "::".toList = [':', ':'] := rfl
  rw [htext, safeValue_eq h.value, hcolons]
  simp only [lineOf, List.append_assoc, List.cons_append, List.nil_append]

/-! ### Reading -/

theorem nul_notMem_escaped {value : QString} (h : nul ∉ value) : nul ∉ escaped value := fun hmem => by
  rcases mem_escaped hmem with hc | hc | hc | hc
  · exact absurd hc (by decide)
  · exact absurd hc (by decide)
  · exact absurd hc (by decide)
  · exact h hc.1

theorem readState_bracketOf (status : Status) {state : State} (hstate : state ≠ .undefined) (hinfo : status.state = .info)
    (v : QString) : readState status (bracketOf state ++ '=' :: v ++ [nul]) =
      some ({ status with state, value := SnapCommunicatorMessage.readValue v }, true) := by
  unfold bracketOf
  split
  · rename_i h
    subst h
    rw [List.nil_append, readState_other (by simp), readValue_equal, ← hinfo]
  · have hsplit : '[' :: state.name ++ [']'] ++ '=' :: v ++ [nul] = '[' :: (state.name ++ ']' :: ('=' :: v ++ [nul])) := by simp
    rw [hsplit, readState_bracket (clean_name state) (Or.inr rfl), stateNamed_name hstate]
    exact readValue_equal _ v

theorem head?_bracketOf (state : State) (v : QString) :
    (bracketOf state ++ '=' :: v).head? = some '[' ∨ (bracketOf state ++ '=' :: v).head? = some '=' := by
  unfold bracketOf
  split
  · exact Or.inr rfl
  · exact Or.inl rfl

/-- The line of a status gives it back, less a byte order mark in front of its value. -/
theorem fromString_lineOf (hplugin : Clean (· == ':') s.pluginName) (hfield : Clean (fun c => c == '[' || c == '=') s.fieldName)
    (hstate : s.state ≠ .undefined) (hvalue : nul ∉ s.value) :
    fromString (lineOf s) = some ({ s with value := fromUtf8 s.value }, true) := by
  rw [lineOf, fromString_append hplugin, readFieldName_append hfield (head?_bracketOf _ _), readState_bracketOf _ hstate rfl,
    readValue_escaped hvalue]

/-! ### Names that are read -/

theorem readValue_names {status status' : Status} {b : Bool} {r : QString} (h : readValue status r = some (status', b)) :
    status'.pluginName = status.pluginName ∧ status'.fieldName = status.fieldName := by
  obtain ⟨c, -, h⟩ := Option.bind_eq_some_iff.mp h
  split at h <;> cases h <;> exact ⟨rfl, rfl⟩

theorem readState_names {status status' : Status} {b : Bool} {r : QString} (h : readState status r = some (status', b)) :
    status'.pluginName = status.pluginName ∧ status'.fieldName = status.fieldName := by
  obtain ⟨c, -, h⟩ := Option.bind_eq_some_iff.mp h
  split at h
  · obtain ⟨⟨state, t⟩, -, h⟩ := Option.bind_eq_some_iff.mp h
    cases hname : stateNamed state with
    | none =>
      simp only [hname] at h
      cases h
      exact ⟨rfl, rfl⟩
    | some state =>
      simp only [hname] at h
      obtain ⟨hplugin, hfield⟩ := readValue_names h
      exact ⟨hplugin, hfield⟩
  · exact readValue_names h

/-- The names of an accepted line have no NUL and no character that the line does not have. -/
theorem fromString_names {status : Status} (h : fromString line = some (status, true)) :
    (∀ c ∈ status.pluginName, c ≠ nul ∧ c ∈ line) ∧ ∀ c ∈ status.fieldName, c ≠ nul ∧ c ∈ line := by
  rcases fromString_cases line with ⟨plugin, r, hplugin, rfl, hline⟩ | ⟨plugin, hline⟩
  · rw [hline] at h
    rcases readFieldName_cases { pluginName := plugin } r with ⟨field, t, hfield, rfl, -, hr⟩ | ⟨field, hr⟩
    · rw [hr] at h
      obtain ⟨hp, hf⟩ := readState_names h
      simp only at hp hf
      rw [hp, hf]
      exact ⟨fun c hc => ⟨(hplugin c hc).1, by simp [hc]⟩, fun c hc => ⟨(hfield c hc).1, by simp [hc]⟩⟩
    · rw [hr] at h
      cases h
  · rw [hline] at h
    cases h

/-! ### The line in the file -/

/-- The carriage returns are dropped. -/
def withoutReturns (s : QString) : QString := s.filter (· ≠ '\r')

theorem return_notMem_escaped (value : QString) : '\r' ∉ escaped value := fun hmem => by
  rcases mem_escaped hmem with hc | hc | hc | hc
  · exact absurd hc (by decide)
  · exact absurd hc (by decide)
  · exact absurd hc (by decide)
  · exact hc.2.2 rfl

theorem withoutReturns_eq_self {t : QString} (h : '\r' ∉ t) : withoutReturns t = t :=
  List.filter_eq_self.mpr fun c hc => decide_eq_true fun hr : c = '\r' => h (hr ▸ hc)

theorem withoutReturns_lineOf (s : Status) : withoutReturns (lineOf s) =
    lineOf { s with pluginName := withoutReturns s.pluginName, fieldName := withoutReturns s.fieldName } := by
  have hbracket : '\r' ∉ bracketOf s.state := by cases s.state <;> decide
  have hescaped := withoutReturns_eq_self (return_notMem_escaped s.value)
  have hstate := withoutReturns_eq_self hbracket
  unfold withoutReturns at hescaped hstate ⊢
  simp only [lineOf, List.filter_append, List.filter_cons_of_pos, hescaped, hstate, decide_true, ne_eq, Char.reduceEq,
    not_false_eq_true]

theorem fromUtf8_lineOf (s : Status) : fromUtf8 (lineOf s) = lineOf { s with pluginName := fromUtf8 s.pluginName } := by
  unfold lineOf
  cases s.pluginName with
  | nil => rfl
  | cons c plugin =>
    by_cases hc : c.toNat = 0xFEFF
    · simp only [List.cons_append, fromUtf8, if_pos hc]
    · simp only [List.cons_append, fromUtf8, if_neg hc]

theorem newline_notMem_lineOf (hplugin : '\n' ∉ s.pluginName) (hfield : '\n' ∉ s.fieldName) : '\n' ∉ lineOf s := by
  have hbracket : '\n' ∉ bracketOf s.state := by cases s.state <;> decide
  have hescaped : '\n' ∉ escaped s.value := fun hmem => by
    rcases mem_escaped hmem with hc | hc | hc | hc
    · exact absurd hc (by decide)
    · exact absurd hc (by decide)
    · exact absurd hc (by decide)
    · exact hc.2.1 rfl
  simp [lineOf, hplugin, hfield, hbracket, hescaped]

theorem nul_notMem_lineOf (hplugin : nul ∉ s.pluginName) (hfield : nul ∉ s.fieldName) (hvalue : nul ∉ s.value) :
    nul ∉ lineOf s := by
  have hbracket : nul ∉ bracketOf s.state := by cases s.state <;> decide
  have hcolon : nul ≠ ':' := by decide
  have hequal : nul ≠ '=' := by decide
  simp [lineOf, hplugin, hfield, hbracket, nul_notMem_escaped hvalue, hcolon, hequal]

end Status

namespace ServerStatus
open Status

/-- The bytes of a character, all of which the reader keeps unless it is a carriage return. -/
theorem readline_char {c : Char} (hn : c ≠ '\n') (hnul : c ≠ nul) (line rest : Bytes) :
    readline line (String.utf8EncodeChar c ++ rest) =
      readline (line ++ if c = '\r' then [] else String.utf8EncodeChar c) rest := by
  by_cases hr : c = '\r'
  · subst hr
    have hbyte : String.utf8EncodeChar '\r' = [0x0D] := by decide
    rw [hbyte, if_pos rfl, List.append_nil]
    rfl
  · rw [if_neg hr]
    have hbytes : ∀ x ∈ String.utf8EncodeChar c, x ≠ 0x0A ∧ x ≠ 0x0D ∧ x ≠ 0 := fun x hx => by
      refine ⟨?_, ?_, ?_⟩ <;> rintro rfl
      · exact hn (Char.toNat_inj.mp (toNat_eq_of_mem hx (by decide)))
      · exact hr (Char.toNat_inj.mp (toNat_eq_of_mem hx (by decide)))
      · exact hnul (Char.toNat_inj.mp (toNat_eq_of_mem hx (by decide)))
    revert hbytes
    generalize String.utf8EncodeChar c = b
    intro hbytes
    induction b generalizing line with
    | nil => rw [List.nil_append, List.append_nil]
    | cons x b ih =>
      obtain ⟨⟨hx, hxr, hx0⟩, hb⟩ := List.forall_mem_cons.mp hbytes
      rw [List.cons_append, readline, if_neg hx, if_pos ⟨hxr, hx0⟩, ih _ hb, List.append_assoc, List.singleton_append]

/-- A line of the file is read whole, but for the carriage returns. -/
theorem readline_utf8 {s : QString} (hn : '\n' ∉ s) (hnul : nul ∉ s) (line rest : Bytes) :
    readline line (s.utf8 ++ 0x0A :: rest) = (fromCString (line ++ (withoutReturns s).utf8), true, rest) := by
  induction s generalizing line with
  | nil =>
    show readline line (0x0A :: rest) = (fromCString (line ++ []), true, rest)
    rw [readline, if_pos rfl, List.append_nil]
  | cons c s ih =>
    rw [List.mem_cons, not_or] at hn hnul
    rw [utf8, List.flatMap_cons, List.append_assoc, readline_char (Ne.symm hn.1) (Ne.symm hnul.1), ← utf8, ih hn.2 hnul.2,
      List.append_assoc]
    by_cases hr : c = '\r'
    · simp [withoutReturns, hr]
    · simp [withoutReturns, hr, utf8]

/-- The line of a status, as the reader of the file gives it. -/
theorem readline_lineOf {s : Status} (hn : '\n' ∉ lineOf s) (hnul : nul ∉ lineOf s) (rest : Bytes) :
    readline [] ((lineOf s).utf8 ++ 0x0A :: rest) =
      (lineOf { s with
        pluginName := fromUtf8 (withoutReturns s.pluginName)
        fieldName := withoutReturns s.fieldName }, true, rest) := by
  have hnul' : nul ∉ withoutReturns (lineOf s) := fun hmem => hnul (List.mem_filter.mp hmem).1
  rw [readline_utf8 hn hnul, List.nil_append, fromCString_utf8 hnul', withoutReturns_lineOf, fromUtf8_lineOf]

end ServerStatus
end SnapManager
end Snapwebsites
