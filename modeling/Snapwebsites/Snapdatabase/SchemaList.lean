import Snapwebsites.Snapdatabase.Table

/-! # The list of the schemata of a table

A `SCHL` block: records of a version and a reference, packed behind the header and the count, the latest first.
`get_schema()` searches them as memory, so it compares the versions as their bytes lie there. -/

namespace Snapwebsites.Snapdatabase

/-- `version_t`. -/
structure Version where
  major : UInt16
  minor : UInt16
  deriving DecidableEq

namespace Version

def null : Version := { major := 0, minor := 0 }

def toBinary (v : Version) : UInt32 := (v.major.toUInt32 <<< 16) + v.minor.toUInt32

def ofBinary (n : UInt32) : Version := { major := (n >>> 16).toUInt16, minor := n.toUInt16 }

def nextRevision (v : Version) : Version :=
  { major := if v.minor + 1 = 0 then v.major + 1 else v.major, minor := v.minor + 1 }

end Version

/-- What the list reads of a `schema_table`. -/
structure Schema where
  version : Version
  offset : Reference
  deriving DecidableEq

structure SchemaRecord where
  version : UInt32
  reference : Reference
  deriving DecidableEq

/-- The page, as far as records fit; they are all zeroes in a new block. -/
structure SchemaList where
  pageSize : Nat
  count : Nat
  records : List SchemaRecord

/-- The bytes of a version in memory. -/
def memory (n : UInt32) : Bytes := (bigEndian 4 n.toNat).reverse

inductive SchemaListError
  | logicError | blockFull | schemaNotFound
  deriving DecidableEq

namespace SchemaList

/-- The header and the count take 10 bytes, and a record takes 12. -/
def maxCount (pageSize : Nat) : Nat := (pageSize - (4 + 4 + 2)) / (4 + 8)

def create (pageSize : Nat) : SchemaList :=
  { pageSize, count := 0, records := List.replicate (maxCount pageSize) { version := 0, reference := nullFileAddr } }

def record (b : SchemaList) (p : Nat) : SchemaRecord := b.records.getD p { version := 0, reference := nullFileAddr }

def setCount (count : Nat) (b : SchemaList) : SchemaList := { b with count }

/-- The comparison of the search with the record at `p`. The records are sorted the other way around. -/
def compareRecord (b : SchemaList) (version : Version) (p : Nat) : Ordering :=
  memcmp (memory version.toBinary) (memory (b.record p).version) 4

/-- `get_schema()`; the version 0.0 is for the latest one. -/
def getSchema (b : SchemaList) (version : Version) : Except SchemaListError Reference :=
  if b.count < 2 then .error .logicError
  else if version = .null then .ok (b.record 0).reference
  else
    let (position, found) := bisect (b.compareRecord version) b.count 0 b.count 0
    if found then .ok (b.record position).reference else .error .schemaNotFound

/-- `add_schema()`, which gives the schema its version. -/
def addSchema (schema : Schema) (b : SchemaList) : Except SchemaListError (Schema × SchemaList) :=
  if schema.version = .null then .error .logicError
  else if b.count ≥ maxCount b.pageSize then .error .blockFull
  else
    let version := (Version.ofBinary (b.record 0).version).nextRevision
    .ok ({ schema with version },
      { b with records := { version := version.toBinary, reference := schema.offset } ::
          (b.records.take b.count ++ b.records.drop (b.count + 1)) })

def addSchemata (schemata : List Schema) (b : SchemaList) : Except SchemaListError SchemaList :=
  schemata.foldlM (fun b schema => (b.addSchema schema).map Prod.snd) b

/-- The list finds the schemata that were added, the greatest version as the latest one, and no other. -/
structure Lists (b : SchemaList) (schemata : List Schema) : Prop where
  added : ∀ s ∈ schemata, b.getSchema s.version = .ok s.offset
  latest : ∀ s ∈ schemata, (∀ t ∈ schemata, t.version.toBinary ≤ s.version.toBinary) → b.getSchema .null = .ok s.offset
  other : ∀ v, v ≠ .null → (∀ s ∈ schemata, s.version ≠ v) → b.getSchema v = .ok nullFileAddr

/-! ### The count -/

variable {b c : SchemaList} {v : Version} {schema : Schema} {schemata : List Schema} {r : Reference}

theorem addSchema_cases {s : Schema} (h : b.addSchema schema = .ok (s, c)) :
    schema.version ≠ .null ∧ b.count < maxCount b.pageSize ∧ c.pageSize = b.pageSize ∧ c.count = b.count ∧
      s.version = (Version.ofBinary (b.record 0).version).nextRevision ∧ s.offset = schema.offset ∧
      c.record 0 = { version := s.version.toBinary, reference := schema.offset } := by
  unfold addSchema at h
  split at h
  · cases h
  · rename_i hversion
    split at h
    · cases h
    · rename_i hroom
      cases h
      exact ⟨hversion, Nat.lt_of_not_ge hroom, rfl, rfl, rfl, rfl, rfl⟩

/-- An addition does not count the record that it writes. -/
theorem addSchemata_count (h : b.addSchemata schemata = .ok c) : c.count = b.count := by
  induction schemata generalizing b with
  | nil =>
    cases h
    rfl
  | cons schema schemata ih =>
    unfold addSchemata at h
    rw [List.foldlM_cons] at h
    cases hadd : b.addSchema schema with
    | error e =>
      rw [hadd] at h
      cases h
    | ok added =>
      obtain ⟨s, d⟩ := added
      rw [hadd] at h
      obtain ⟨-, -, -, hcount, -⟩ := addSchema_cases hadd
      rw [← hcount]
      exact ih h

theorem getSchema_of_count (h : b.count < 2) : b.getSchema v = .error .logicError := if_pos h

/-- Whatever is added to a new block, a search throws. -/
theorem getSchema_addSchemata {pageSize : Nat} (h : (create pageSize).addSchemata schemata = .ok c) :
    c.getSchema v = .error .logicError := by
  refine getSchema_of_count ?_
  rw [addSchemata_count h]
  exact Nat.two_pos

/-- No sequence of additions makes a new block a list of what was added. -/
theorem not_lists_addSchemata (pageSize : Nat) (schemata : List Schema) :
    ¬ ∃ b, (create pageSize).addSchemata schemata = .ok b ∧ b.Lists schemata := by
  rintro ⟨b, hadd, hlists⟩
  have hthrows : ∀ v, b.getSchema v = .error .logicError := fun v => getSchema_addSchemata hadd
  cases schemata with
  | nil =>
    have hother := hlists.other { major := 1, minor := 0 } (by simp [Version.null]) (by simp)
    rw [hthrows] at hother
    cases hother
  | cons schema schemata =>
    have hadded := hlists.added schema List.mem_cons_self
    rw [hthrows] at hadded
    cases hadded

/-- Two schemata are in the list, which counts none of them. -/
theorem not_all_lists : ¬ ∀ pageSize schemata b, (schemata.map Schema.version).Nodup → (∀ s ∈ schemata, s.version ≠ .null) →
    (create pageSize).addSchemata schemata = .ok b → b.Lists schemata := by
  intro hall
  have hlists := hall 64 [{ version := { major := 1, minor := 0 }, offset := 4096 },
    { version := { major := 1, minor := 1 }, offset := 8192 }] _ (by decide) (by decide) rfl
  have hadded := hlists.added _ List.mem_cons_self
  cases hadded

/-! ### The search -/

theorem bisect_found {cmp : Nat → Ordering} {fuel i j position : Nat} (h : (bisect cmp fuel i j position).2 = true) :
    i ≤ (bisect cmp fuel i j position).1 ∧ (bisect cmp fuel i j position).1 < j ∧
      cmp (bisect cmp fuel i j position).1 = .eq := by
  fun_induction bisect cmp fuel i j position with
  | case1 => cases h
  | case2 fuel i j position hij middle hcmp ih =>
    obtain ⟨hle, hlt, heq⟩ := ih h
    exact ⟨by omega, hlt, heq⟩
  | case3 fuel i j position hij middle hcmp ih =>
    obtain ⟨hle, hlt, heq⟩ := ih h
    exact ⟨hle, by omega, heq⟩
  | case4 fuel i j position hij middle hcmp => exact ⟨by omega, by omega, hcmp⟩
  | case5 => cases h

/-- The search finds what is there when the comparison changes once. -/
theorem bisect_complete {cmp : Nat → Ordering} {n fuel i j position k : Nat}
    (hlt : ∀ p q, p < q → q < n → cmp q ≠ .gt → cmp p = .lt) (hgt : ∀ p q, p < q → q < n → cmp p ≠ .lt → cmp q = .gt)
    (hj : j ≤ n) (hfuel : j - i ≤ fuel) (hik : i ≤ k) (hkj : k < j) (hk : cmp k = .eq) :
    (bisect cmp fuel i j position).2 = true := by
  fun_induction bisect cmp fuel i j position with
  | case1 => omega
  | case2 fuel i j position hij middle hcmp ih =>
    have hmiddle : middle = (j - i) / 2 + i := rfl
    refine ih hj (by omega) ?_ hkj
    by_contra hle
    rcases Nat.lt_or_eq_of_le (by omega : k ≤ middle) with hkm | rfl
    · rw [hgt k middle hkm (by omega) (by simp [hk])] at hcmp
      cases hcmp
    · rw [hk] at hcmp
      cases hcmp
  | case3 fuel i j position hij middle hcmp ih =>
    have hmiddle : middle = (j - i) / 2 + i := rfl
    refine ih (by omega) (by omega) hik ?_
    by_contra hle
    rcases Nat.lt_or_eq_of_le (by omega : middle ≤ k) with hkm | rfl
    · rw [hlt middle k hkm (by omega) (by simp [hk])] at hcmp
      cases hcmp
    · rw [hk] at hcmp
      cases hcmp
  | case4 => rfl
  | case5 => omega

theorem memory_length (n : UInt32) : (memory n).length = 4 := by rw [memory, List.length_reverse, bigEndian_length]

theorem memory_injective {m n : UInt32} (h : memory m = memory n) : m = n := by
  have hlt (n : UInt32) : n.toNat < 256 ^ 4 := n.toNat_lt
  have hm := (bigEndian_reads m.toNat 4).run []
  have hn := (bigEndian_reads n.toNat 4).run []
  rw [List.reverse_injective h, hn] at hm
  have hmod : n.toNat % 256 ^ 4 = m.toNat % 256 ^ 4 := congrArg Prod.fst (Option.some.inj hm)
  rw [Nat.mod_eq_of_lt (hlt m), Nat.mod_eq_of_lt (hlt n)] at hmod
  exact UInt32.toNat_inj.mp hmod.symm

theorem compareRecord_eq (p : Nat) : b.compareRecord v p = compare (memory v.toBinary) (memory (b.record p).version) := by
  have htake (n : UInt32) : (memory n).take 4 = memory n := List.take_of_length_le (memory_length n).le
  rw [compareRecord, memcmp, htake, htake]

/-- The versions of the records that are counted go down, as `memcmp()` compares them. -/
def Descending (b : SchemaList) : Prop :=
  ∀ p q, p < q → q < b.count → compare (memory (b.record q).version) (memory (b.record p).version) = .lt

/-- Where the records go down in the order of the search, it finds exactly the versions that are there. -/
theorem getSchema_eq_ok_iff (hcount : 2 ≤ b.count) (hdesc : b.Descending) (hv : v ≠ .null) :
    b.getSchema v = .ok r ↔ ∃ p < b.count, b.record p = { version := v.toBinary, reference := r } := by
  have heq (p : Nat) : b.compareRecord v p = .eq ↔ (b.record p).version = v.toBinary := by
    rw [compareRecord_eq, Std.compare_eq_iff_eq]
    exact ⟨fun h => (memory_injective h).symm, fun h => by rw [h]⟩
  have hlt : ∀ p q, p < q → q < b.count → b.compareRecord v q ≠ .gt → b.compareRecord v p = .lt := by
    intro p q hpq hq hne
    rw [compareRecord_eq] at hne ⊢
    exact Std.TransCmp.lt_of_isLE_of_lt (Ordering.isLE_iff_ne_gt.mpr hne) (hdesc p q hpq hq)
  have hgt : ∀ p q, p < q → q < b.count → b.compareRecord v p ≠ .lt → b.compareRecord v q = .gt := by
    intro p q hpq hq hne
    by_contra hle
    exact hne (hlt p q hpq hq hle)
  rw [getSchema, if_neg (Nat.not_lt.mpr hcount), if_neg hv]
  simp only
  constructor
  · intro h
    split at h
    · rename_i hfound
      obtain ⟨-, hp, hcmp⟩ := bisect_found hfound
      cases h
      exact ⟨_, hp, by rw [← (heq _).mp hcmp]⟩
    · cases h
  · rintro ⟨p, hp, hrecord⟩
    have hfound : (bisect (b.compareRecord v) b.count 0 b.count 0).2 = true :=
      bisect_complete hlt hgt le_rfl (Nat.sub_le _ _) (Nat.zero_le p) hp ((heq p).mpr (by rw [hrecord]))
    obtain ⟨-, hq, hcmp⟩ := bisect_found hfound
    -- two records of one version would compare as equal, so there is one
    have hpos : (bisect (b.compareRecord v) b.count 0 b.count 0).1 = p := by
      have hp' := (heq p).mpr (by rw [hrecord])
      rcases Nat.lt_trichotomy (bisect (b.compareRecord v) b.count 0 b.count 0).1 p with hlt' | heq' | hgt'
      · rw [hlt _ _ hlt' hp (by simp [hp'])] at hcmp
        cases hcmp
      · exact heq'
      · rw [hgt _ _ hgt' hq (by simp [hp'])] at hcmp
        cases hcmp
    rw [if_pos hfound, hpos, hrecord]

/-- Two schemata, the latest first. -/
def twoSchemata : SchemaList where
  pageSize := 4096
  count := 2
  records := [{ version := Version.toBinary ⟨0, 2⟩, reference := 20 }, { version := Version.toBinary ⟨0, 1⟩, reference := 10 }]

theorem getSchema_eq_ok_iff_twoSchemata : twoSchemata.getSchema ⟨0, 1⟩ = .ok 10 ↔
    ∃ p < twoSchemata.count, twoSchemata.record p = { version := Version.toBinary ⟨0, 1⟩, reference := 10 } := by
  refine getSchema_eq_ok_iff (by decide) (fun p q hpq hq => ?_) (by decide)
  obtain ⟨rfl, rfl⟩ : p = 0 ∧ q = 1 := by
    have hq : q < 2 := hq
    omega
  decide

end SchemaList
end Snapwebsites.Snapdatabase
