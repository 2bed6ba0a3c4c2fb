import Snapwebsites.SnapManager.StatusText

/-! # Statuses as one text

The text that a computer sends holds one line for each status. A status that is read comes from a line, so its
names have no line end and no NUL (`mem_of_readLines`); without these each line is read back on its own, and
the map is the one that was sent but for the byte order marks (`readLines_map`). -/

namespace Snapwebsites
namespace SnapManager
open QString HttpStrings

variable {L : Type} {qt : Qt L}

namespace Statuses
variable {m : Statuses qt}

/-! ### Many statuses -/

def setAll (m : Statuses qt) (l : List Status) : Statuses qt := l.foldl set m

theorem map_setAll (l : List Status) (m : Statuses qt) : (m.setAll l).map = m.map.insertAll (l.map fun s => (key qt s, s)) := by
  induction l generalizing m with
  | nil => rfl
  | cons s l ih => exact ih (m.set s)

theorem setAll_append (m : Statuses qt) (l l' : List Status) : m.setAll (l ++ l') = (m.setAll l).setAll l' :=
  List.foldl_append

theorem mem_values {e : QString × Status} (he : e ∈ m.map.entries) : e.2 ∈ m.values := List.mem_map_of_mem he

theorem entry_of_mem {s : Status} (hs : s ∈ m.values) : (key qt s, s) ∈ m.map.entries := by
  obtain ⟨e, he, rfl⟩ := List.mem_map.mp hs
  rw [← m.keyed e he]
  exact he

theorem find?_of_mem {s : Status} (hs : s ∈ m.values) : m.map.find? (key qt s) = some s :=
  SortedMap.find?_eq_some.mpr (entry_of_mem hs)

theorem sorted_keys (m : Statuses qt) : (m.values.map (key qt)).Pairwise (· < ·) := by
  have hkeys : m.values.map (key qt) = m.map.entries.map (·.1) := by
    rw [values, List.map_map]
    exact List.map_congr_left fun e he => (m.keyed e he).symm
  rw [hkeys]
  exact List.Pairwise.map _ (fun _ _ hab => hab) m.map.sorted

theorem nodup_keys (m : Statuses qt) : (m.values.map (key qt)).Nodup := m.sorted_keys.imp fun hab => hab.ne

theorem entries_eq (m : Statuses qt) : m.map.entries = m.values.map fun s => (key qt s, s) := by
  rw [values, List.map_map]
  refine (List.map_id _).symm.trans (List.map_congr_left fun e he => ?_)
  rw [Function.comp_apply, ← m.keyed e he]
  rfl

/-- All the statuses of a map make the map, in whichever order. -/
theorem setAll_of_perm {l : List Status} (h : l.Perm m.values) : (∅ : Statuses qt).setAll l = m := by
  ext1
  have hentries : (l.map fun s => (key qt s, s)).Perm m.map.entries := by
    rw [entries_eq]
    exact h.map _
  rw [map_setAll]
  exact SortedMap.insertAll_of_perm hentries

section
variable {l : List Status} {g : Status → Status}

theorem map_key (hg : ∀ s ∈ l, key qt (g s) = key qt s) :
    ((l.map g).map fun s => (key qt s, s)) = l.map fun s => (key qt s, g s) := by
  rw [List.map_map]
  exact List.map_congr_left fun s hs => by rw [Function.comp_apply, hg s hs]

/-- What is stored of a status is found under its key. -/
theorem find?_setAll {s : Status} (hl : (l.map (key qt)).Nodup) (hg : ∀ s ∈ l, key qt (g s) = key qt s) (hs : s ∈ l) :
    ((∅ : Statuses qt).setAll (l.map g)).map.find? (key qt s) = some (g s) := by
  have hmem : (key qt s, g s) ∈ l.map fun s => (key qt s, g s) := List.mem_map_of_mem hs
  have hnodup : ((l.map fun s => (key qt s, g s)).map (·.1)).Nodup := by rwa [List.map_map]
  rw [map_setAll, map_key hg]
  exact SortedMap.find?_insertAll_of_mem hnodup hmem _

theorem find?_setAll_of_notMem {k : QString} (hg : ∀ s ∈ l, key qt (g s) = key qt s) (hk : k ∉ l.map (key qt)) :
    ((∅ : Statuses qt).setAll (l.map g)).map.find? k = none := by
  rw [map_setAll, map_key hg, SortedMap.find?_insertAll_of_notMem]
  · rfl
  · rwa [List.map_map]

end

/-- What is stored comes from the list. -/
theorem mem_of_mem_setAll {l : List Status} {e : QString × Status} (he : e ∈ ((∅ : Statuses qt).setAll l).map.entries) :
    e.2 ∈ l := by
  rw [← Prod.mk.eta (p := e), ← SortedMap.find?_eq_some, map_setAll] at he
  rcases SortedMap.mem_of_find?_insertAll he with hmem | hnone
  · obtain ⟨s, hs, heq⟩ := List.mem_map.mp hmem
    rw [← (Prod.mk.inj heq).2]
    exact hs
  · cases hnone

end Statuses

namespace ServerStatus
open Status Statuses

/-! ### The text -/

/-- A status without the byte order mark that the writer takes from its value. -/
def sent (s : Status) : Status := { s with value := fromUtf8 s.value }

/-- A status as it is read back from its line. -/
def received (s : Status) : Status := { s with value := fromUtf8 (fromUtf8 s.value) }

theorem toString_eq {s : ServerStatus qt} (h : ∀ status ∈ s.statuses.values, Written status) :
    s.toString = .ok ((s.statuses.values.map fun status => lineOf (sent status)).flatMap (· ++ ['\n'])) := by
  have hfold : ∀ (l : List Status) (result : QString), (∀ status ∈ l, Written status) →
      l.foldlM (fun result (status : Status) => do
        let line ← status.toString
        return result ++ line ++ ['\n']) result =
      (.ok (result ++ (l.map fun status => lineOf (sent status)).flatMap (· ++ ['\n'])) : Except String QString) := by
    intro l
    induction l with
    | nil =>
      intro result _
      rw [List.map_nil, List.flatMap_nil, List.append_nil]
      rfl
    | cons status l ih =>
      intro result hl
      rw [List.forall_mem_cons] at hl
      rw [List.foldlM_cons, Status.toString_eq hl.1]
      refine (ih _ hl.2).trans ?_
      rw [List.map_cons, List.flatMap_cons, List.append_assoc, List.append_assoc, List.append_assoc]
      rfl
  exact (hfold s.statuses.values [] h).trans (by rw [List.nil_append])

/-- What is read of lines is read of one of them. -/
theorem mem_of_readLines : ∀ {lines : List QString} {m m' : Statuses qt}, readLines m lines = some (m', true) →
    ∀ e ∈ m'.map.entries, e ∈ m.map.entries ∨ ∃ l ∈ lines, Status.fromString l = some (e.2, true)
  | [], m, m', h, e, he => by
    cases h
    exact Or.inl he
  | l :: lines, m, m', h, e, he => by
    obtain ⟨⟨status, success⟩, hl, h⟩ := Option.bind_eq_some_iff.mp h
    cases success with
    | false => cases h
    | true =>
      rcases mem_of_readLines h e he with hm | ⟨l', hl', hread⟩
      · rcases SortedMap.mem_insertIn hm with rfl | hm
        · exact Or.inr ⟨l, List.mem_cons_self, hl⟩
        · exact Or.inl hm
      · exact Or.inr ⟨l', List.mem_cons_of_mem _ hl', hread⟩

/-- Lines that are read one by one. -/
theorem readLines_map {f : Status → QString} {g : Status → Status} {l : List Status}
    (h : ∀ s ∈ l, Status.fromString (f s) = some (g s, true)) (m : Statuses qt) :
    readLines m (l.map f) = some (m.setAll (l.map g), true) := by
  induction l generalizing m with
  | nil => rfl
  | cons s l ih =>
    rw [List.forall_mem_cons] at h
    rw [List.map_cons, readLines, h.1]
    exact ih h.2 (m.set (g s))

/-! ### Both ways -/

/-- What the text of the line needs: no line end and no NUL in a name. -/
structure Lines (s : Status) : Prop where
  pluginName : '\n' ∉ s.pluginName ∧ nul ∉ s.pluginName
  fieldName : nul ∉ s.fieldName

theorem nul_notMem_fromUtf8 {t : QString} (h : nul ∉ t) : nul ∉ fromUtf8 t := fun hmem =>
  h ((fromUtf8_sublist t).subset hmem)

theorem not_stops {status : Status} (h : Written status) : ∀ c ∈ status.fieldName, ¬(c = '[' ∨ c = '=') := fun c hc hstop => by
  rcases hstop with rfl | rfl
  · exact h.fieldName.2.1 hc
  · exact h.fieldName.2.2.1 hc

theorem fromString_sent {status : Status} (h : Written status) (hlines : Lines status) :
    Status.fromString (lineOf (sent status)) = some (received status, true) := by
  have hfield : Clean (fun c => c == '[' || c == '=') status.fieldName := clean_of_not_stops (not_stops h) hlines.fieldName
  exact fromString_lineOf (s := sent status) (clean_of_notMem h.pluginName.2 hlines.pluginName.2) hfield h.state
    (nul_notMem_fromUtf8 h.value)

theorem newline_notMem_sent {status : Status} (h : Written status) (hlines : Lines status) : '\n' ∉ lineOf (sent status) :=
  newline_notMem_lineOf (s := sent status) hlines.pluginName.1 h.fieldName.2.2.2

theorem lineOf_ne_nil (s : Status) : lineOf s ≠ [] := by simp [lineOf]

theorem fromUtf8_fromUtf8 {t : QString} (h : fromUtf8 (fromUtf8 t) = t) : t.head? ≠ some bom := fun hhead => by
  obtain ⟨t, rfl⟩ := List.head?_eq_some_iff.mp hhead
  have hlength := congrArg List.length h
  have hle := (fromUtf8_sublist t).length_le
  rw [fromUtf8_bom, List.length_cons] at hlength
  omega

/-- The other computer has the map as it was, less the byte order marks. -/
theorem fromString_toString (other : ServerStatus qt) {m : Statuses qt} (h : ∀ status ∈ m.values, Written status)
    (hlines : ∀ status ∈ m.values, Lines status) :
    other.fromString ((m.values.map fun status => lineOf (sent status)).flatMap (· ++ ['\n'])) =
      some ({ other with statuses := (∅ : Statuses qt).setAll (m.values.map received) }, true) := by
  have hparts : ∀ t ∈ m.values.map fun status => lineOf (sent status), '\n' ∉ t ∧ t ≠ [] := fun t ht => by
    obtain ⟨status, hstatus, rfl⟩ := List.mem_map.mp ht
    exact ⟨newline_notMem_sent (h status hstatus) (hlines status hstatus), lineOf_ne_nil _⟩
  have hsplit := splitParts_flatMap hparts
  rw [fromString, hsplit, readLines_map fun status hs => fromString_sent (h status hs) (hlines status hs)]
  rfl

/-- The text gives the statuses back unless a name has a line end or a NUL or a value starts with a byte order mark. -/
theorem transport_iff {s : ServerStatus qt} (h : ∀ status ∈ s.statuses.values, Written status) :
    (∀ other : ServerStatus qt, ∃ text other', s.toString = .ok text ∧ other.fromString text = some (other', true) ∧
      other'.statuses = s.statuses) ↔
    ∀ status ∈ s.statuses.values, Lines status ∧ status.value.head? ≠ some bom := by
  constructor
  · intro htransport
    obtain ⟨text, other, htext, hread, hsame⟩ := htransport s
    have hlines : ∀ status ∈ s.statuses.values, Lines status := fun status hstatus => by
      obtain ⟨⟨m, success⟩, hloop, hresult⟩ := Option.bind_eq_some_iff.mp hread
      cases hresult
      subst hsame
      have hentry := entry_of_mem hstatus
      obtain ⟨l, hl, hstatus⟩ := (mem_of_readLines hloop _ hentry).resolve_left (by simp [EmptyCollection.emptyCollection, Statuses.empty, SortedMap.empty])
      obtain ⟨hplugin, hfield⟩ := fromString_names hstatus
      have hn : '\n' ∉ l := notMem_of_mem_splitOn (List.mem_filter.mp hl).1
      exact ⟨⟨fun hc => hn (hplugin _ hc).2, fun hc => (hplugin _ hc).1 rfl⟩, fun hc => (hfield _ hc).1 rfl⟩
    intro status hstatus
    refine ⟨hlines status hstatus, fromUtf8_fromUtf8 ?_⟩
    rw [toString_eq h] at htext
    cases htext
    rw [fromString_toString s h hlines] at hread
    cases hread
    have hfind := find?_setAll (g := received) s.statuses.nodup_keys (fun _ _ => rfl) hstatus
    have hstatuses : (∅ : Statuses qt).setAll (s.statuses.values.map received) = s.statuses := hsame
    rw [hstatuses, find?_of_mem hstatus] at hfind
    exact (congrArg Status.value (Option.some.inj hfind)).symm
  · intro hplain other
    refine ⟨_, _, toString_eq h, fromString_toString other h fun status hs => (hplain status hs).1, ?_⟩
    have hreceived : s.statuses.values.map received = s.statuses.values :=
      (List.map_congr_left fun status hs => by
        unfold received
        rw [fromUtf8_eq_self (hplain status hs).2, fromUtf8_eq_self (hplain status hs).2]
        rfl).trans (List.map_id _)
    rw [hreceived]
    exact setAll_of_perm (List.Perm.refl _)

end ServerStatus
end SnapManager
end Snapwebsites
