import Mathlib.Data.String.Basic
import Mathlib.Order.Interval.Finset.Fin
import Snapwebsites.Lib.Fallible
import Snapwebsites.Snapdatabase.Row

/-! # The identifiers of the columns

`assign_column_ids()` keeps the identifier of each column that the existing schema has and gives the other columns the smallest ones
that are left, also those of columns which were removed: a row refers to the schema it was written with. Then it looks up the columns
of the keys. A search goes on until it finds an identifier that is not used, on 16 bits. -/

namespace Snapwebsites.Snapdatabase

/-- What is thrown, with its text. -/
inductive SchemaError
  | logicError (message : String)
  | idAlreadyAssigned (message : String)
  | invalidXml (message : String)
deriving DecidableEq

/-- `schema_sort_column`. -/
structure SortColumn where
  columnName : String
  columnId : ColumnId := 0
deriving DecidableEq

/-- `schema_table`: a column is its name with its identifier, which is 0 until it is given one. The secondary indexes are in the order
of their names. -/
structure SchemaTable where
  name : String
  columnsByName : SortedMap String ColumnId
  columnsById : SortedMap ColumnId String := ∅
  rowKeyNames : List String := []
  rowKey : List ColumnId := []
  secondaryIndexes : List (String × List SortColumn) := []
deriving DecidableEq

namespace SchemaTable

def names (t : SchemaTable) : List String := t.columnsByName.entries.map (·.1)

/-- `column_id()` of a column. -/
def columnId (t : SchemaTable) (n : String) : ColumnId := (t.columnsByName.find? n).getD 0

/-- `set_column_id()`, with the entry by identifier. -/
def setColumnId (t : SchemaTable) (n : String) (id : ColumnId) : Except SchemaError SchemaTable :=
  if t.columnId n ≠ 0 then
    .error (.idAlreadyAssigned ("This column already has an identifier (" ++ toString (t.columnId n).val ++
      "). You can't assigned it another one."))
  else .ok { t with columnsByName := t.columnsByName.insert n id, columnsById := t.columnsById.insert id n }

/-- A column gets the identifier that it has in the existing schema. -/
def keepId (existing t : SchemaTable) (n : String) : Except SchemaError SchemaTable :=
  if t.columnId n ≠ 0 then
    .error (.logicError ("Column \"" ++ t.name ++ "." ++ n ++ "\" was already given an identifier: " ++
      toString (t.columnId n).val ++ "."))
  else
    match existing.columnsByName.find? n with
    | none => .ok t
    | some id => t.setColumnId n id

def keepIds (existing : Option SchemaTable) (t : SchemaTable) : Except SchemaError SchemaTable :=
  match existing with
  | none => .ok t
  | some e => t.names.foldlM (keepId e) t

/-- The first identifier from `id` on that is not used; nothing when the search goes round without end. -/
def nextFree (m : SortedMap ColumnId String) : Nat → ColumnId → Option ColumnId
  | 0, _ => none
  | fuel + 1, id => if m.contains id then nextFree m fuel (id + 1) else some id

/-- The columns that have no identifier yet get one. -/
def giveIds : List String → ColumnId → SchemaTable → Option (Except SchemaError SchemaTable)
  | [], _, t => some (.ok t)
  | n :: l, id, t =>
    if t.columnId n ≠ 0 then giveIds l id t
    else
      match nextFree t.columnsById 65536 id with
      | none => none
      | some free =>
        match t.setColumnId n free with
        | .error e => some (.error e)
        | .ok t => giveIds l (free + 1) t

/-- The identifier of a column that a key refers to. -/
def referenced (key : String) (t : SchemaTable) (n : String) : Except SchemaError ColumnId :=
  match t.columnsByName.find? n with
  | none =>
    .error (.invalidXml ("A column referenced in the " ++ key ++ " of table \"" ++ t.name ++ "\" must exist. We could not find \"" ++
      t.name ++ "." ++ n ++ "\"."))
  | some id =>
    if id = 0 then .error (.logicError ("Somehow column \"" ++ t.name ++ "." ++ n ++ "\" still has no identifier.")) else .ok id

def rowKeyColumn (t : SchemaTable) (n : String) : Except SchemaError ColumnId :=
  if n = "_oid" then
    .error (.invalidXml ("The \"" ++ n ++ "\" column is not acceptable for the primary key since you have no control over its value."))
  else t.referenced "row-key attribute" n

def sortColumn (t : SchemaTable) (sc : SortColumn) : Except SchemaError SortColumn := do
  let id ← t.referenced "secondary-index" sc.columnName
  .ok { sc with columnId := id }

def secondaryIndex (t : SchemaTable) (index : String × List SortColumn) : Except SchemaError (String × List SortColumn) := do
  let columns ← index.2.mapM t.sortColumn
  .ok (index.1, columns)

/-- The identifiers of the columns that the keys refer to. -/
def defineKeys (t : SchemaTable) : Except SchemaError SchemaTable := do
  let ids ← t.rowKeyNames.mapM t.rowKeyColumn
  let indexes ← t.secondaryIndexes.mapM t.secondaryIndex
  .ok { t with rowKey := t.rowKey ++ ids, secondaryIndexes := indexes }

/-- `assign_column_ids()`; nothing when it does not end. -/
def assignColumnIds (existing : Option SchemaTable) (t : SchemaTable) : Option (Except SchemaError SchemaTable) :=
  if ¬ t.columnsById.isEmpty then some (.ok t)
  else
    match keepIds existing t with
    | .error e => some (.error e)
    | .ok t => (giveIds t.names firstColumnId t).map (· >>= defineKeys)

/-! ### What is assigned -/

/-- A schema that was just read: no column has an identifier. -/
structure Fresh (t : SchemaTable) : Prop where
  columnId : ∀ n id, t.columnsByName.find? n = some id → id = 0
  columnsById : t.columnsById = ∅

/-- The two maps agree on the columns that have an identifier. -/
def Matched (t : SchemaTable) : Prop :=
  ∀ n id, t.columnsById.find? id = some n ↔ id ≠ 0 ∧ t.columnsByName.find? n = some id

/-- Every column has an identifier and is found by it. -/
structure Assigned (t : SchemaTable) : Prop where
  matched : t.Matched
  columnId : ∀ n id, t.columnsByName.find? n = some id → id ≠ 0

/-- The schemata that a table can have: the first one, and each one that replaces it. -/
inductive Stored : SchemaTable → Prop
  | first {t t' : SchemaTable} : t.Fresh → t.columnsByName.entries.length < 65535 →
      assignColumnIds none t = some (.ok t') → Stored t'
  | next {existing t t' : SchemaTable} : Stored existing → t.Fresh → t.columnsByName.entries.length < 65535 →
      assignColumnIds (some existing) t = some (.ok t') → Stored t'

/-- The same columns, where those that had an identifier still have it, and the same keys to look up. -/
structure Extends (t t' : SchemaTable) : Prop where
  name : t'.name = t.name
  contains : ∀ n, t'.columnsByName.contains n = t.columnsByName.contains n
  kept : ∀ n id, id ≠ 0 → t.columnsByName.find? n = some id → t'.columnsByName.find? n = some id
  rowKeyNames : t'.rowKeyNames = t.rowKeyNames
  secondaryIndexes : t'.secondaryIndexes = t.secondaryIndexes

section Extends
variable {t t' t'' : SchemaTable}

theorem Extends.refl (t : SchemaTable) : Extends t t := ⟨rfl, fun _ => rfl, fun _ _ _ h => h, rfl, rfl⟩

theorem Extends.trans (h : Extends t t') (h' : Extends t' t'') : Extends t t'' where
  name := h'.name.trans h.name
  contains n := (h'.contains n).trans (h.contains n)
  kept n id hid hf := h'.kept n id hid (h.kept n id hid hf)
  rowKeyNames := h'.rowKeyNames.trans h.rowKeyNames
  secondaryIndexes := h'.secondaryIndexes.trans h.secondaryIndexes

end Extends

/-! ### One column -/

section Column
variable {t : SchemaTable} {n : String} {id : ColumnId}

theorem columnId_of_find? (h : t.columnsByName.find? n = some id) : t.columnId n = id := by
  simp [columnId, h]

theorem contains_of_find? (h : t.columnsByName.find? n = some id) : t.columnsByName.contains n = true := by
  simp [SortedMap.contains, h]

theorem find?_of_contains (h : t.columnsByName.contains n = true) : t.columnsByName.find? n = some (t.columnId n) := by
  obtain ⟨id, h⟩ := Option.isSome_iff_exists.mp h
  rw [h, columnId_of_find? h]

theorem mem_names : n ∈ t.names ↔ t.columnsByName.contains n = true := by
  simp only [names, List.mem_map, SortedMap.contains, Option.isSome_iff_exists, SortedMap.find?_eq_some]
  constructor
  · rintro ⟨⟨m, id⟩, h, rfl⟩
    exact ⟨id, h⟩
  · rintro ⟨id, h⟩
    exact ⟨(n, id), h, rfl⟩

theorem names_nodup (t : SchemaTable) : t.names.Nodup :=
  List.pairwise_map.mpr (t.columnsByName.sorted.imp fun h => ne_of_lt h)

theorem Fresh.matched (h : t.Fresh) : t.Matched := by
  intro n id
  rw [h.columnsById]
  exact ⟨fun hf => by simp at hf, fun hf => absurd (h.columnId n id hf.2) hf.1⟩

theorem Matched.injective (h : t.Matched) {m : String} (hid : id ≠ 0) (hn : t.columnsByName.find? n = some id)
    (hm : t.columnsByName.find? m = some id) : n = m :=
  Option.some.inj (((h n id).mpr ⟨hid, hn⟩).symm.trans ((h m id).mpr ⟨hid, hm⟩))

/-- An identifier that is not used goes to a column without one. -/
theorem Matched.setColumnId (h : t.Matched) (hn : t.columnsByName.find? n = some 0) (hid : id ≠ 0)
    (hfree : t.columnsById.find? id = none) :
    ∃ t', t.setColumnId n id = .ok t' ∧ t'.Matched ∧ Extends t t' ∧
      (∀ m, t'.columnsByName.find? m = if m = n then some id else t.columnsByName.find? m) ∧
      ∀ k, t'.columnsById.find? k = if k = id then some n else t.columnsById.find? k := by
  have hfind := fun m => SortedMap.find?_insert t.columnsByName n m id
  refine ⟨{ t with columnsByName := t.columnsByName.insert n id, columnsById := t.columnsById.insert id n },
    by simp [SchemaTable.setColumnId, columnId_of_find? hn], fun m k => ?_, ?_, hfind,
    fun k => SortedMap.find?_insert t.columnsById id k n⟩
  · rw [hfind, SortedMap.find?_insert]
    have hm := h m k
    by_cases hmn : m = n
    · subst hmn
      have hne : t.columnsById.find? k ≠ some m := fun hf => (hm.mp hf).1 (Option.some.inj ((hm.mp hf).2.symm.trans hn))
      by_cases hk : k = id
      · simp [hk, hid]
      · simp [hk, hne, Ne.symm hk]
    · by_cases hk : k = id
      · subst hk
        have hne : t.columnsByName.find? m ≠ some k := fun hf => by simp [hm.mpr ⟨hid, hf⟩] at hfree
        simp [hmn, hne, Ne.symm hmn]
      · simp [hmn, hk, hm]
  · refine ⟨rfl, fun m => ?_, fun m k hk hf => ?_, rfl, rfl⟩
    · by_cases hmn : m = n <;> simp [SortedMap.contains, hfind, hmn, hn]
    · have hmn : m ≠ n := fun hmn => hk (Option.some.inj (hf.symm.trans (hmn ▸ hn)))
      rw [hfind, if_neg hmn, hf]

end Column

/-! ### The columns that the existing schema has -/

/-- The loop over the columns, with those that are still to come. -/
structure Kept (existing t₀ t : SchemaTable) (rest : List String) : Prop where
  matched : t.Matched
  extended : Extends t₀ t
  source : ∀ n id, t.columnsByName.find? n = some id → id = 0 ∨ existing.columnsByName.find? n = some id
  pending : ∀ n ∈ rest, t.columnsByName.find? n = some 0
  done : ∀ n, n ∉ rest → ∀ id, existing.columnsByName.find? n = some id → t.columnsByName.contains n = true →
    t.columnsByName.find? n = some id

section Kept
variable {existing t₀ t : SchemaTable} {n : String} {rest : List String}

theorem Fresh.kept (h : t.Fresh) : Kept existing t t t.names where
  matched := h.matched
  extended := Extends.refl t
  source n id hf := Or.inl (h.columnId n id hf)
  pending n hn := by
    have hf := find?_of_contains (mem_names.mp hn)
    rwa [h.columnId n _ hf] at hf
  done n hn id _ hc := absurd (mem_names.mpr hc) hn

/-- Only the column itself can have its identifier in the existing schema. -/
theorem Kept.isFree (K : Kept existing t₀ t (n :: rest)) (ha : existing.Assigned) {id : ColumnId}
    (hn : existing.columnsByName.find? n = some id) : t.columnsById.find? id = none := by
  rcases hm : t.columnsById.find? id with _ | m
  · rfl
  · obtain ⟨hid, hf⟩ := (K.matched m id).mp hm
    have hmn : m = n := ha.matched.injective hid ((K.source m id hf).resolve_left hid) hn
    have hz := K.pending n List.mem_cons_self
    rw [← hmn, hf] at hz
    exact absurd (Option.some.inj hz) hid

theorem Kept.step (K : Kept existing t₀ t (n :: rest)) (ha : existing.Assigned) (hnew : n ∉ rest) :
    ∃ t', keepId existing t n = .ok t' ∧ Kept existing t₀ t' rest := by
  have hz := K.pending n List.mem_cons_self
  rcases he : existing.columnsByName.find? n with _ | id
  · refine ⟨t, by simp [keepId, columnId_of_find? hz, he], K.matched, K.extended, K.source,
      fun m hm => K.pending m (List.mem_cons_of_mem n hm), fun m hm id hf => ?_⟩
    have hmn : m ≠ n := fun hmn => by simp [hmn, he] at hf
    exact K.done m (by simp [hmn, hm]) id hf
  · obtain ⟨t', ht', hM, hE, hfind, -⟩ := K.matched.setColumnId hz (ha.columnId n id he) (K.isFree ha he)
    refine ⟨t', by simp [keepId, columnId_of_find? hz, he, ht'], hM, K.extended.trans hE, fun m k hf => ?_, fun m hm => ?_,
      fun m hm k hf hc => ?_⟩
    · rw [hfind] at hf
      split at hf
      · rename_i hmn
        exact Or.inr (by rw [hmn, he, hf])
      · exact K.source m k hf
    · rw [hfind, if_neg fun hmn : m = n => hnew (hmn ▸ hm)]
      exact K.pending m (List.mem_cons_of_mem n hm)
    · rw [hfind]
      split
      · rename_i hmn
        rw [← he, ← hmn, hf]
      · rename_i hmn
        exact K.done m (by simp [hmn, hm]) k hf (by rw [← hE.contains, hc])

theorem Kept.run (ha : existing.Assigned) : ∀ {rest : List String} {t : SchemaTable}, Kept existing t₀ t rest → rest.Nodup →
    ∃ t', rest.foldlM (keepId existing) t = .ok t' ∧ Kept existing t₀ t' []
  | [], t, K, _ => ⟨t, rfl, K⟩
  | n :: rest, t, K, hnd => by
    obtain ⟨hnew, hnd⟩ := List.nodup_cons.mp hnd
    obtain ⟨t₁, h₁, K₁⟩ := K.step ha hnew
    obtain ⟨t', h', K'⟩ := Kept.run ha K₁ hnd
    exact ⟨t', by rw [List.foldlM_cons, h₁]; exact h', K'⟩

end Kept

/-! ### The columns that are new -/

/-- All identifiers from 1 up to `id` are used. -/
def UsedBelow (m : SortedMap ColumnId String) (id : ColumnId) : Prop :=
  ∀ k : ColumnId, k ≠ 0 → k < id → m.contains k = true

section Free
variable {m : SortedMap ColumnId String} {id : ColumnId}

theorem UsedBelow.le_length (h : UsedBelow m id) : id.val ≤ m.entries.length + 1 := by
  have hsub : Finset.Ioo 0 id ⊆ (m.entries.map (·.1)).toFinset := fun k hk => by
    obtain ⟨hk, hlt⟩ := Finset.mem_Ioo.mp hk
    obtain ⟨n, hf⟩ := Option.isSome_iff_exists.mp (h k (ne_of_gt hk) hlt)
    exact List.mem_toFinset.mpr (List.mem_map.mpr ⟨(k, n), SortedMap.find?_eq_some.mp hf, rfl⟩)
  have hcard := (Finset.card_le_card hsub).trans (List.toFinset_card_le _)
  rw [Fin.card_Ioo, List.length_map] at hcard
  simp at hcard
  omega

theorem val_succ (h : id.val + 1 < 65536) : (id + 1).val = id.val + 1 := by
  rw [Fin.val_add]
  exact Nat.mod_eq_of_lt h

theorem UsedBelow.succ (h : UsedBelow m id) (hid : m.contains id = true) (hlt : id.val + 1 < 65536) : UsedBelow m (id + 1) := by
  intro k hk hlt'
  rcases Nat.lt_succ_iff_lt_or_eq.mp (val_succ hlt ▸ hlt' : k.val < id.val + 1) with hlt' | heq
  · exact h k hk hlt'
  · rw [Fin.ext heq, hid]

/-- The search ends at an identifier that is not larger than what the columns need. -/
theorem nextFree_isFree (hm : m.entries.length < 65534) : ∀ {fuel : Nat} {id : ColumnId}, UsedBelow m id → id ≠ 0 →
    m.entries.length + 1 < fuel + id.val →
    ∃ free, nextFree m fuel id = some free ∧ free ≠ 0 ∧ m.find? free = none ∧ UsedBelow m free
  | 0, id, hb, _, hf => by
    have := hb.le_length
    omega
  | fuel + 1, id, hb, hid, hf => by
    unfold nextFree
    split
    · rename_i hc
      have hlt : id.val + 1 < 65536 := by
        have := hb.le_length
        omega
      have hval := val_succ hlt
      exact nextFree_isFree hm (hb.succ hc hlt) (fun h => by simp [h] at hval) (by omega)
    · rename_i hc
      exact ⟨id, rfl, hid, by simpa [SortedMap.contains] using hc, hb⟩

end Free

section Give
variable {t t' : SchemaTable} {n : String}

theorem Extends.length (h : Extends t t') : t'.columnsByName.entries.length = t.columnsByName.entries.length := by
  have hperm : t'.names.Perm t.names := (List.perm_ext_iff_of_nodup t'.names_nodup t.names_nodup).mpr fun n => by
    rw [mem_names, mem_names, h.contains]
  simpa [names] using hperm.length_eq

/-- A column without an identifier is not among those by identifier. -/
theorem Matched.length_lt (h : t.Matched) (hn : t.columnsByName.find? n = some 0) :
    t.columnsById.entries.length < t.columnsByName.entries.length := by
  have hmem : ∀ e ∈ t.columnsById.entries, e.1 ≠ 0 ∧ t.columnsByName.find? e.2 = some e.1 := fun e he =>
    (h e.2 e.1).mp (SortedMap.find?_eq_some.mpr he)
  have hnd : (n :: t.columnsById.entries.map (·.2)).Nodup := by
    refine List.nodup_cons.mpr ⟨fun hc => ?_, List.pairwise_map.mpr ?_⟩
    · obtain ⟨e, he, rfl⟩ := List.mem_map.mp hc
      exact (hmem e he).1 (Option.some.inj ((hmem e he).2.symm.trans hn))
    · refine t.columnsById.sorted.imp_of_mem fun {e e'} he he' hlt heq => ne_of_lt hlt ?_
      have hf := (hmem e he).2
      rw [heq, (hmem e' he').2] at hf
      exact (Option.some.inj hf).symm
  have hsub : n :: t.columnsById.entries.map (·.2) ⊆ t.names := fun m hm => by
    rcases List.mem_cons.mp hm with rfl | hm
    · exact mem_names.mpr (contains_of_find? hn)
    · obtain ⟨e, he, rfl⟩ := List.mem_map.mp hm
      exact mem_names.mpr (contains_of_find? (hmem e he).2)
  have hlen := (hnd.subperm hsub).length_le
  simp [names] at hlen
  omega

/-- Every column of the list has an identifier afterwards, and no search goes round. -/
theorem giveIds_assigned : ∀ {l : List String} {id : ColumnId} {t : SchemaTable}, t.Matched →
    (∀ n ∈ l, t.columnsByName.contains n = true) →
    UsedBelow t.columnsById id → id ≠ 0 → t.columnsByName.entries.length < 65535 →
    ∃ t', giveIds l id t = some (.ok t') ∧ t'.Matched ∧ Extends t t' ∧ ∀ n ∈ l, t'.columnId n ≠ 0
  | [], _, t, hM, _, _, _, _ => ⟨t, rfl, hM, Extends.refl t, fun _ h => absurd h List.not_mem_nil⟩
  | n :: l, id, t, hM, hl, hb, hid, hlen => by
    have hn := find?_of_contains (hl n List.mem_cons_self)
    have hl' := fun m hm => hl m (List.mem_cons_of_mem n hm)
    unfold giveIds
    by_cases hz : t.columnId n = 0
    · rw [if_neg (not_not.mpr hz)]
      rw [hz] at hn
      have hlt := hM.length_lt hn
      obtain ⟨free, hfree, hne, hnone, hb⟩ := nextFree_isFree (by omega) hb hid (by omega : _ < 65536 + id.val)
      obtain ⟨t₁, h₁, hM₁, hE₁, hfind, hfind'⟩ := hM.setColumnId hn hne hnone
      have hle := hb.le_length
      have hb₁ : UsedBelow t₁.columnsById (free + 1) := by
        refine UsedBelow.succ (fun k hk hlt => ?_) (by simp [SortedMap.contains, hfind']) (by omega)
        have hc := hb k hk hlt
        rw [SortedMap.contains, hfind', if_neg (ne_of_lt hlt)]
        exact hc
      have hne₁ : free + 1 ≠ 0 := fun h => by
        have hval := val_succ (by omega : free.val + 1 < 65536)
        simp [h] at hval
      obtain ⟨t', h', hM', hE', hdone⟩ :=
        giveIds_assigned hM₁ (fun m hm => by rw [hE₁.contains]; exact hl' m hm) hb₁ hne₁ (by rw [hE₁.length]; exact hlen)
      refine ⟨t', by rw [hfree]; simp only [h₁]; exact h', hM', hE₁.trans hE', fun m hm => ?_⟩
      rcases List.mem_cons.mp hm with rfl | hm
      · rw [columnId_of_find? (hE'.kept m free hne (by rw [hfind, if_pos rfl]))]
        exact hne
      · exact hdone m hm
    · rw [if_pos hz]
      obtain ⟨t', h', hM', hE', hdone⟩ := giveIds_assigned hM hl' hb hid hlen
      refine ⟨t', h', hM', hE', fun m hm => ?_⟩
      rcases List.mem_cons.mp hm with rfl | hm
      · rw [columnId_of_find? (hE'.kept m _ hz hn)]
        exact hz
      · exact hdone m hm

end Give

/-! ### A first schema -/

section First
variable {t : SchemaTable}

/-- Without an identifier from `id` on, each column gets the next one. -/
theorem giveIds_inOrder : ∀ {l : List String} {id : ColumnId} {t : SchemaTable}, t.Matched → l.Nodup →
    (∀ n ∈ l, t.columnsByName.find? n = some 0) → (∀ k, id ≤ k → t.columnsById.find? k = none) → id ≠ 0 →
    id.val + l.length < 65536 →
    ∃ t', giveIds l id t = some (.ok t') ∧ (∀ n ∉ l, t'.columnId n = t.columnId n) ∧
      ∀ i n, l[i]? = some n → (t'.columnId n).val = id.val + i
  | [], _, t, _, _, _, _, _, _ => ⟨t, rfl, fun _ _ => rfl, fun _ _ h => by simp at h⟩
  | n :: l, id, t, hM, hnd, hz, hfree, hid, hlen => by
    obtain ⟨hn, hnd⟩ := List.nodup_cons.mp hnd
    rw [List.length_cons] at hlen
    have hval := val_succ (by omega : id.val + 1 < 65536)
    obtain ⟨t₁, h₁, hM₁, -, hfind, hfind'⟩ := hM.setColumnId (hz n List.mem_cons_self) hid (hfree id (le_refl id))
    have hz₁ : ∀ m ∈ l, t₁.columnsByName.find? m = some 0 := fun m hm => by
      rw [hfind, if_neg fun h : m = n => hn (h ▸ hm)]
      exact hz m (List.mem_cons_of_mem n hm)
    have hfree₁ : ∀ k, id + 1 ≤ k → t₁.columnsById.find? k = none := fun k hk => by
      have hlt : id.val < k.val := by
        have : (id + 1).val ≤ k.val := hk
        omega
      rw [hfind', if_neg (ne_of_gt hlt : k ≠ id)]
      exact hfree k (le_of_lt hlt)
    obtain ⟨t', h', hkept, hids⟩ := giveIds_inOrder hM₁ hnd hz₁ hfree₁ (fun h => by simp [h] at hval) (by omega)
    refine ⟨t', ?_, fun m hm => ?_, fun i m hi => ?_⟩
    · have hnext : nextFree t.columnsById 65536 id = some id := by
        simp [nextFree, SortedMap.contains, hfree id (le_refl id)]
      rw [giveIds, columnId_of_find? (hz n List.mem_cons_self), if_neg (by decide), hnext]
      simp only [h₁]
      exact h'
    · obtain ⟨hmn, hml⟩ := not_or.mp fun h => hm (List.mem_cons.mpr h)
      rw [hkept m hml, columnId, hfind, if_neg hmn]
      rfl
    · rcases i with _ | i
      · cases hi
        rw [hkept n hn, columnId, hfind, if_pos rfl]
        rfl
      · rw [hids i m hi, hval]
        omega

/-- For a new table these are the identifiers of `RowSchema.assign`. -/
theorem assignColumnIds_rowSchema (hf : t.Fresh) (hlen : t.columnsByName.entries.length < 65535) {version : Nat}
    (hv : version < 256 ^ 4) (type : String → StructType) :
    ∃ t₂ : SchemaTable, assignColumnIds none t = some t₂.defineKeys ∧
      ∀ n ∈ t.names, (RowSchema.assign version hv (t.names.map type)).column (t₂.columnId n) = some (type n) := by
  have hz : ∀ n ∈ t.names, t.columnsByName.find? n = some 0 := fun n hn => by
    have hfind := find?_of_contains (mem_names.mp hn)
    rwa [hf.columnId n _ hfind] at hfind
  obtain ⟨t₂, h₂, -, hids⟩ := giveIds_inOrder hf.matched t.names_nodup hz (fun k _ => by simp [hf.columnsById])
    (by decide : firstColumnId ≠ 0) (by simp [names, firstColumnId]; omega)
  refine ⟨t₂, ?_, fun n hn => ?_⟩
  · have hempty : t.columnsById.isEmpty = true := SortedMap.isEmpty_iff.mpr hf.columnsById
    simp only [assignColumnIds, hempty, keepIds, h₂]
    rfl
  · obtain ⟨i, hi⟩ := List.getElem?_of_mem hn
    have hid := hids i n hi
    have hne : t₂.columnId n ≠ 0 := fun h => by
      rw [h] at hid
      simp [firstColumnId] at hid
      omega
    simp [RowSchema.assign, hne, hid, hi]

end First

/-! ### The columns of the keys -/

/-- The columns that the keys refer to exist, and `_oid` is not one of the primary key. -/
structure KeysFound (t : SchemaTable) : Prop where
  rowKey : ∀ n ∈ t.rowKeyNames, n ≠ "_oid" ∧ t.columnsByName.contains n = true
  secondaryIndexes : ∀ index ∈ t.secondaryIndexes, ∀ sc ∈ index.2, t.columnsByName.contains sc.columnName = true

section Keys
variable {t t' : SchemaTable} {n : String}

theorem referenced_succeeds (ha : t.Assigned) {key : String} :
    (∃ id, t.referenced key n = .ok id) ↔ t.columnsByName.contains n = true := by
  rcases hn : t.columnsByName.find? n with _ | id
  · exact iff_of_false (by simp [referenced, hn]) (by simp [SortedMap.contains, hn])
  · exact iff_of_true ⟨id, by simp [referenced, hn, ha.columnId n id hn]⟩ (contains_of_find? hn)

theorem rowKeyColumn_succeeds (ha : t.Assigned) :
    (∃ id, t.rowKeyColumn n = .ok id) ↔ n ≠ "_oid" ∧ t.columnsByName.contains n = true := by
  unfold rowKeyColumn
  split
  · rename_i hn
    exact iff_of_false (fun ⟨_, h⟩ => by cases h) fun h => h.1 hn
  · rename_i hn
    rw [referenced_succeeds ha, and_iff_right hn]

theorem sortColumn_succeeds (ha : t.Assigned) {sc : SortColumn} :
    (∃ sc', t.sortColumn sc = .ok sc') ↔ t.columnsByName.contains sc.columnName = true := by
  rw [← referenced_succeeds ha]
  simp only [sortColumn, Fallible.bind_eq_ok]
  exact ⟨fun ⟨_, id, h, _⟩ => ⟨id, h⟩, fun ⟨id, h⟩ => ⟨_, id, h, rfl⟩⟩

theorem secondaryIndex_succeeds (ha : t.Assigned) {index : String × List SortColumn} :
    (∃ index', t.secondaryIndex index = .ok index') ↔ ∀ sc ∈ index.2, t.columnsByName.contains sc.columnName = true := by
  simp only [← sortColumn_succeeds ha, ← Fallible.mapM_succeeds, secondaryIndex, Fallible.bind_eq_ok]
  exact ⟨fun ⟨_, columns, h, _⟩ => ⟨columns, h⟩, fun ⟨columns, h⟩ => ⟨_, columns, h, rfl⟩⟩

theorem defineKeys_succeeds (ha : t.Assigned) : (∃ t', t.defineKeys = .ok t') ↔ t.KeysFound := by
  have hrow : (∃ ids, t.rowKeyNames.mapM t.rowKeyColumn = .ok ids) ↔
      ∀ n ∈ t.rowKeyNames, n ≠ "_oid" ∧ t.columnsByName.contains n = true := by
    simp only [Fallible.mapM_succeeds, rowKeyColumn_succeeds ha]
  have hindexes : (∃ indexes, t.secondaryIndexes.mapM t.secondaryIndex = .ok indexes) ↔
      ∀ index ∈ t.secondaryIndexes, ∀ sc ∈ index.2, t.columnsByName.contains sc.columnName = true := by
    simp only [Fallible.mapM_succeeds, secondaryIndex_succeeds ha]
  simp only [defineKeys, Fallible.bind_eq_ok]
  constructor
  · rintro ⟨_, ids, hids, indexes, hi, -⟩
    exact ⟨hrow.mp ⟨ids, hids⟩, hindexes.mp ⟨indexes, hi⟩⟩
  · intro hk
    obtain ⟨ids, hids⟩ := hrow.mpr hk.rowKey
    obtain ⟨indexes, hi⟩ := hindexes.mpr hk.secondaryIndexes
    exact ⟨_, ids, hids, indexes, hi, rfl⟩

/-- Nothing of the columns changes. -/
theorem columns_defineKeys (h : t.defineKeys = .ok t') : t'.columnsByName = t.columnsByName ∧ t'.columnsById = t.columnsById := by
  obtain ⟨ids, -, h⟩ := Fallible.bind_eq_ok.mp h
  obtain ⟨indexes, -, h⟩ := Fallible.bind_eq_ok.mp h
  cases h
  exact ⟨rfl, rfl⟩

end Keys

/-! ### The whole call -/

/-- A column that the existing schema has keeps its identifier. -/
def Keeps (existing : Option SchemaTable) (t t' : SchemaTable) : Prop :=
  ∀ e ∈ existing, ∀ n id, e.columnsByName.find? n = some id → t.columnsByName.contains n = true →
    t'.columnsByName.find? n = some id

/-- What the identifiers of a schema are to those of the one it replaces. -/
structure Identified (existing : Option SchemaTable) (t t' : SchemaTable) : Prop where
  contains : ∀ n, t'.columnsByName.contains n = t.columnsByName.contains n
  columnId : ∀ n id, t'.columnsByName.find? n = some id → id ≠ 0
  distinct : ∀ n m id, t'.columnsByName.find? n = some id → t'.columnsByName.find? m = some id → n = m
  kept : Keeps existing t t'
  /-- A column that is new has the identifier of no column that is kept. -/
  reused : ∀ e ∈ existing, ∀ n m id, e.columnsByName.contains n = false → t'.columnsByName.find? n = some id →
    e.columnsByName.find? m = some id → t.columnsByName.contains m = false
  columnsById : ∀ n id, t'.columnsById.find? id = some n ↔ t'.columnsByName.find? n = some id

section Whole
variable {existing : Option SchemaTable} {t t' : SchemaTable}

theorem keepIds_kept (he : ∀ e ∈ existing, e.Assigned) (hf : t.Fresh) :
    ∃ t₁, keepIds existing t = .ok t₁ ∧ t₁.Matched ∧ Extends t t₁ ∧ Keeps existing t t₁ := by
  rcases existing with _ | e
  · exact ⟨t, rfl, hf.matched, Extends.refl t, fun _ h => by cases h⟩
  · obtain ⟨t₁, h₁, K⟩ := Kept.run (he e rfl) (hf.kept : Kept e t t t.names) t.names_nodup
    refine ⟨t₁, h₁, K.matched, K.extended, fun e' he' n id hn hc => ?_⟩
    cases he'
    exact K.done n List.not_mem_nil id hn (by rw [K.extended.contains, hc])

/-- The loops end; what is thrown is about the columns of the keys. -/
theorem assignColumnIds_assigned (he : ∀ e ∈ existing, e.Assigned) (hf : t.Fresh) (hlen : t.columnsByName.entries.length < 65535) :
    ∃ t₂, assignColumnIds existing t = some t₂.defineKeys ∧ t₂.Assigned ∧ Extends t t₂ ∧ Keeps existing t t₂ := by
  obtain ⟨t₁, h₁, hM₁, hE₁, hkept⟩ := keepIds_kept he hf
  have hb : UsedBelow t₁.columnsById firstColumnId := fun k hk hlt => absurd (Fin.ext (Nat.lt_one_iff.mp hlt)) hk
  obtain ⟨t₂, h₂, hM₂, hE₂, hdone⟩ :=
    giveIds_assigned hM₁ (fun n hn => mem_names.mp hn) hb (by decide) (by rw [hE₁.length]; exact hlen)
  refine ⟨t₂, ?_, ⟨hM₂, fun n id hn => ?_⟩, hE₁.trans hE₂, fun e hee n id hn hc => ?_⟩
  · have hempty : t.columnsById.isEmpty = true := SortedMap.isEmpty_iff.mpr hf.columnsById
    simp only [assignColumnIds, hempty, h₁, h₂]
    rfl
  · rw [← columnId_of_find? hn]
    exact hdone n (mem_names.mpr (by rw [← hE₂.contains, contains_of_find? hn]))
  · exact hE₂.kept n id ((he e hee).columnId n id hn) (hkept e hee n id hn hc)

theorem Assigned.identified (ha : t'.Assigned) (hc : ∀ n, t'.columnsByName.contains n = t.columnsByName.contains n)
    (hkept : Keeps existing t t') :
    Identified existing t t' where
  contains := hc
  columnId := ha.columnId
  distinct n m id hn hm := ha.matched.injective (ha.columnId n id hn) hn hm
  kept := hkept
  reused e hee n m id hnew hn hm := by
    rcases h : t.columnsByName.contains m
    · rfl
    · have hnm := ha.matched.injective (ha.columnId n id hn) hn (hkept e hee m id hm h)
      rw [hnm, contains_of_find? hm] at hnew
      exact absurd hnew (by decide)
  columnsById n id := by
    rw [ha.matched n id]
    exact and_iff_right_of_imp (ha.columnId n id)

theorem Stored.assigned (h : Stored t) : t.Assigned := by
  have defined : ∀ {existing : Option SchemaTable} {t t' : SchemaTable}, (∀ e ∈ existing, e.Assigned) → t.Fresh →
      t.columnsByName.entries.length < 65535 → assignColumnIds existing t = some (.ok t') → t'.Assigned := by
    intro existing t t' he hf hlen h
    obtain ⟨t₂, h₂, ha, -, -⟩ := assignColumnIds_assigned he hf hlen
    obtain ⟨hn, hi⟩ := columns_defineKeys (Option.some.inj (h₂.symm.trans h))
    exact ⟨fun n id => by rw [hn, hi]; exact ha.matched n id, fun n id => by rw [hn]; exact ha.columnId n id⟩
  induction h with
  | first hf hlen h => exact defined (fun _ h => by cases h) hf hlen h
  | next _ hf hlen h ih => exact defined (fun _ h => by cases h; exact ih) hf hlen h

end Whole

/-- A table with two columns, its next schema, which has the second of them and a new one, and the identifiers. -/
def twoColumns : SchemaTable where
  name := "t"
  columnsByName := ((∅ : SortedMap String ColumnId).insert "a" 0).insert "b" 0
  rowKeyNames := ["b"]

def otherColumns : SchemaTable where
  name := "t"
  columnsByName := ((∅ : SortedMap String ColumnId).insert "b" 0).insert "c" 0
  rowKeyNames := ["b"]

def twoColumnsAssigned : SchemaTable :=
  { twoColumns with
    columnsByName := ((∅ : SortedMap String ColumnId).insert "a" 1).insert "b" 2
    columnsById := ((∅ : SortedMap ColumnId String).insert 1 "a").insert 2 "b"
    rowKey := [2] }

def otherColumnsAssigned : SchemaTable :=
  { otherColumns with
    columnsByName := ((∅ : SortedMap String ColumnId).insert "b" 2).insert "c" 1
    columnsById := ((∅ : SortedMap ColumnId String).insert 1 "c").insert 2 "b"
    rowKey := [2] }

theorem assignColumnIds_twoColumns : assignColumnIds none twoColumns = some (.ok twoColumnsAssigned) := by rfl

theorem assignColumnIds_otherColumns :
    assignColumnIds (some twoColumnsAssigned) otherColumns = some (.ok otherColumnsAssigned) := by rfl

theorem fresh_of_entries {t : SchemaTable} (h : t.columnsByName.entries.all (fun e => e.2 = 0) = true)
    (hi : t.columnsById = ∅) : t.Fresh :=
  ⟨fun _ _ hn => of_decide_eq_true (List.all_eq_true.mp h _ (SortedMap.find?_eq_some.mp hn)), hi⟩

theorem twoColumnsAssigned_stored : twoColumnsAssigned.Stored :=
  .first (fresh_of_entries rfl rfl) (by decide) assignColumnIds_twoColumns

theorem assignColumnIds_rowSchema_twoColumns : ∃ t₂ : SchemaTable, assignColumnIds none twoColumns = some t₂.defineKeys ∧
    ∀ n ∈ twoColumns.names, (RowSchema.assign 1 (by decide) (twoColumns.names.map fun _ => .p8string)).column (t₂.columnId n) =
      some .p8string :=
  assignColumnIds_rowSchema (fresh_of_entries rfl rfl) (by decide) (by decide) fun _ => .p8string

end SchemaTable

end Snapwebsites.Snapdatabase
