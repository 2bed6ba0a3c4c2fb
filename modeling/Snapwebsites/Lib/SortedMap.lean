import Mathlib.Algebra.GroupWithZero.Nat
import Mathlib.Data.List.Lex
import Mathlib.Data.List.Pairwise
import Mathlib.Order.Lattice
import Mathlib.Tactic.Common

/-! # Sorted maps

An ordered map as the list of its entries, strictly increasing in the key. The order is a field of the
structure, so a map with a repeated key or with entries out of order cannot be built. A lookup
determines the map (`SortedMap.ext_find?`), and the first entry has the smallest key. -/

/-- A finite map whose entries are listed by increasing key. -/
structure SortedMap (κ α : Type) [LinearOrder κ] where
  entries : List (κ × α)
  sorted : entries.Pairwise fun a b => a.1 < b.1

namespace SortedMap
variable {κ α β : Type} [LinearOrder κ]

/-! ### Operations on entry lists -/

def lookupIn (k : κ) : List (κ × α) → Option α
  | [] => none
  | e :: l => if k = e.1 then some e.2 else lookupIn k l

def insertIn (k : κ) (v : α) : List (κ × α) → List (κ × α)
  | [] => [(k, v)]
  | e :: l =>
    if k < e.1 then (k, v) :: e :: l
    else if k = e.1 then (k, v) :: l
    else e :: insertIn k v l

theorem mem_insertIn {k : κ} {v : α} {x : κ × α} :
    ∀ {l : List (κ × α)}, x ∈ insertIn k v l → x = (k, v) ∨ x ∈ l
  | [], h => Or.inl (List.mem_singleton.mp h)
  | e :: l, h => by
    unfold insertIn at h
    split at h
    · exact (List.mem_cons.mp h).imp_right id
    · split at h
      · exact (List.mem_cons.mp h).imp_right (List.mem_cons_of_mem _)
      · rcases List.mem_cons.mp h with rfl | h
        · exact Or.inr List.mem_cons_self
        · exact (mem_insertIn h).imp_right (List.mem_cons_of_mem _)

theorem sorted_insertIn (k : κ) (v : α) :
    ∀ {l : List (κ × α)}, l.Pairwise (fun a b => a.1 < b.1) →
      (insertIn k v l).Pairwise fun a b => a.1 < b.1
  | [], _ => List.pairwise_singleton _ _
  | e :: l, h => by
    obtain ⟨he, hl⟩ := List.pairwise_cons.mp h
    unfold insertIn
    split
    · rename_i hk
      refine List.pairwise_cons.mpr ⟨fun x hx => ?_, h⟩
      rcases List.mem_cons.mp hx with rfl | hx
      · exact hk
      · exact hk.trans (he x hx)
    · split
      · rename_i hk
        exact List.pairwise_cons.mpr ⟨fun x hx => hk ▸ he x hx, hl⟩
      · rename_i hlt hne
        refine List.pairwise_cons.mpr ⟨fun x hx => ?_, sorted_insertIn k v hl⟩
        rcases mem_insertIn hx with rfl | hx
        · exact lt_of_le_of_ne (not_lt.mp hlt) (Ne.symm hne)
        · exact he x hx

theorem lookupIn_insertIn (k k' : κ) (v : α) : ∀ l : List (κ × α),
    lookupIn k' (insertIn k v l) = if k' = k then some v else lookupIn k' l
  | [] => by simp [insertIn, lookupIn]
  | e :: l => by
    unfold insertIn
    split
    · simp [lookupIn]
    · split
      · rename_i hk
        by_cases hk' : k' = k <;> simp [lookupIn, hk', ← hk]
      · rename_i hk
        by_cases hk' : k' = e.1
        · have : k' ≠ k := fun h => hk (h.symm.trans hk')
          simp [lookupIn, hk', Ne.symm hk]
        · simp [lookupIn, hk', lookupIn_insertIn k k' v l]

theorem lookupIn_eq_some {k : κ} {v : α} : ∀ {l : List (κ × α)},
    l.Pairwise (fun a b => a.1 < b.1) → (lookupIn k l = some v ↔ (k, v) ∈ l)
  | [], _ => by simp [lookupIn]
  | e :: l, h => by
    obtain ⟨he, hl⟩ := List.pairwise_cons.mp h
    unfold lookupIn
    split
    · rename_i hk
      subst hk
      constructor
      · rintro ⟨⟩
        exact List.mem_cons_self
      · intro hm
        rcases List.mem_cons.mp hm with hm | hm
        · rw [← hm]
        · exact absurd (he _ hm) (lt_irrefl _)
    · rename_i hk
      rw [lookupIn_eq_some hl, List.mem_cons]
      exact ⟨Or.inr, fun hm => hm.resolve_left fun heq => hk (congrArg Prod.fst heq)⟩

/-- Two sorted entry lists with the same lookups are equal. -/
theorem eq_of_lookupIn : ∀ {l l' : List (κ × α)}, l.Pairwise (fun a b => a.1 < b.1) →
    l'.Pairwise (fun a b => a.1 < b.1) → (∀ k, lookupIn k l = lookupIn k l') → l = l' := by
  intro l l' hl hl' h
  have hmem : ∀ x, x ∈ l ↔ x ∈ l' := fun ⟨k, v⟩ => by
    rw [← lookupIn_eq_some hl, ← lookupIn_eq_some hl', h]
  have nodup : ∀ {m : List (κ × α)}, m.Pairwise (fun a b => a.1 < b.1) → m.Nodup := fun hm =>
    hm.imp fun hab heq => absurd hab (by rw [heq]; exact lt_irrefl _)
  have hperm : l.Perm l' := (List.perm_ext_iff_of_nodup (nodup hl) (nodup hl')).mpr hmem
  exact hperm.eq_of_pairwise (fun a b _ _ hab hba => absurd (hab.trans hba) (lt_irrefl _)) hl hl'

/-! ### Maps -/

def empty : SortedMap κ α := ⟨[], List.Pairwise.nil⟩

instance : EmptyCollection (SortedMap κ α) := ⟨empty⟩
instance : Inhabited (SortedMap κ α) := ⟨empty⟩

def find? (m : SortedMap κ α) (k : κ) : Option α := lookupIn k m.entries

def contains (m : SortedMap κ α) (k : κ) : Bool := (m.find? k).isSome

def insert (m : SortedMap κ α) (k : κ) (v : α) : SortedMap κ α :=
  ⟨insertIn k v m.entries, sorted_insertIn k v m.sorted⟩

def filter (m : SortedMap κ α) (p : κ × α → Bool) : SortedMap κ α :=
  ⟨m.entries.filter p, m.sorted.filter p⟩

def erase (m : SortedMap κ α) (k : κ) : SortedMap κ α := m.filter fun e => e.1 ≠ k

def isEmpty (m : SortedMap κ α) : Bool := m.entries.isEmpty

/-- The entry with the smallest key. -/
def first? (m : SortedMap κ α) : Option (κ × α) := m.entries.head?

@[ext] theorem ext {m m' : SortedMap κ α} (h : m.entries = m'.entries) : m = m' := by
  cases m
  cases m'
  cases h
  rfl

instance [DecidableEq α] : DecidableEq (SortedMap κ α) := fun m m' =>
  decidable_of_iff (m.entries = m'.entries) ⟨ext, congrArg entries⟩

theorem find?_eq_some {m : SortedMap κ α} {k : κ} {v : α} : m.find? k = some v ↔ (k, v) ∈ m.entries :=
  lookupIn_eq_some m.sorted

theorem ext_find? {m m' : SortedMap κ α} (h : ∀ k, m.find? k = m'.find? k) : m = m' :=
  ext (eq_of_lookupIn m.sorted m'.sorted h)

@[simp] theorem entries_empty : (∅ : SortedMap κ α).entries = [] := rfl

@[simp] theorem find?_empty (k : κ) : (∅ : SortedMap κ α).find? k = none := rfl

theorem find?_insert (m : SortedMap κ α) (k k' : κ) (v : α) :
    (m.insert k v).find? k' = if k' = k then some v else m.find? k' :=
  lookupIn_insertIn k k' v m.entries

@[simp] theorem find?_insert_self (m : SortedMap κ α) (k : κ) (v : α) : (m.insert k v).find? k = some v := by
  simp [find?_insert]

theorem find?_insert_of_ne {m : SortedMap κ α} {k k' : κ} {v : α} (h : k' ≠ k) :
    (m.insert k v).find? k' = m.find? k' := by
  simp [find?_insert, h]

theorem find?_filter_eq_some {m : SortedMap κ α} {p : κ × α → Bool} {k : κ} {v : α} :
    (m.filter p).find? k = some v ↔ m.find? k = some v ∧ p (k, v) = true := by
  rw [find?_eq_some, find?_eq_some]
  exact List.mem_filter

theorem find?_erase (m : SortedMap κ α) (k k' : κ) :
    (m.erase k).find? k' = if k' = k then none else m.find? k' := by
  apply Option.ext
  intro v
  unfold erase
  rw [find?_filter_eq_some]
  by_cases hk : k' = k <;> simp [hk]

@[simp] theorem find?_erase_self (m : SortedMap κ α) (k : κ) : (m.erase k).find? k = none := by
  simp [find?_erase]

theorem find?_erase_of_ne {m : SortedMap κ α} {k k' : κ} (h : k' ≠ k) : (m.erase k).find? k' = m.find? k' := by
  simp [find?_erase, h]

theorem erase_of_find?_eq_none {m : SortedMap κ α} {k : κ} (h : m.find? k = none) : m.erase k = m :=
  ext_find? fun k' => by
    rw [find?_erase]
    split
    · rename_i hk
      rw [hk, h]
    · rfl

/-- Erasing a key leaves out what satisfies `p`, when nothing else does and the key has nothing else. -/
theorem erase_eq_filter_iff (m : SortedMap κ α) (key : κ) (p : α → Prop) [DecidablePred p]
    (hp : ∀ k c, m.find? k = some c → p c → k = key) :
    m.erase key = m.filter (fun c => ¬ p c.2) ↔ ∀ c, m.find? key = some c → p c := by
  constructor
  · intro heq c hc
    by_contra hnot
    have hfind := congrArg (fun m => m.find? key) heq
    simp only [find?_erase_self] at hfind
    have hkept : (m.filter fun c => ¬ p c.2).find? key = some c :=
      find?_filter_eq_some.mpr ⟨hc, decide_eq_true hnot⟩
    rw [hkept] at hfind
    cases hfind
  · intro hall
    refine ext_find? fun k => ?_
    by_cases hk : k = key
    · subst hk
      rw [find?_erase_self]
      symm
      refine Option.eq_none_iff_forall_ne_some.mpr fun c hc => ?_
      obtain ⟨hc, hnot⟩ := find?_filter_eq_some.mp hc
      exact of_decide_eq_true hnot (hall c hc)
    · rw [find?_erase_of_ne hk]
      refine Option.ext fun c => ?_
      rw [find?_filter_eq_some]
      exact ⟨fun hc => ⟨hc, decide_eq_true fun hpc => hk (hp k c hc hpc)⟩, fun hc => hc.1⟩

theorem eq_filter_iff (m : SortedMap κ α) (key : κ) (p : α → Prop) [DecidablePred p]
    (hp : ∀ k c, m.find? k = some c → p c → k = key) :
    m = m.filter (fun c => ¬ p c.2) ↔ ∀ c, m.find? key = some c → ¬ p c := by
  constructor
  · intro heq c hc
    rw [heq] at hc
    exact of_decide_eq_true (find?_filter_eq_some.mp hc).2
  · intro hall
    refine ext_find? fun k => Option.ext fun c => ?_
    rw [find?_filter_eq_some]
    refine ⟨fun hc => ⟨hc, decide_eq_true fun hpc => ?_⟩, fun hc => hc.1⟩
    exact hall c (hp k c hc hpc ▸ hc) hpc

theorem isEmpty_iff {m : SortedMap κ α} : m.isEmpty = true ↔ m = ∅ := by
  unfold isEmpty
  rw [List.isEmpty_iff]
  exact ⟨fun h => ext h, fun h => congrArg entries h⟩

/-- Inserting a key greater than every other one appends its entry. -/
theorem entries_insert_of_lt {m : SortedMap κ α} {k : κ} {v : α} (h : ∀ e ∈ m.entries, e.1 < k) :
    (m.insert k v).entries = m.entries ++ [(k, v)] := by
  show insertIn k v m.entries = _
  revert h
  generalize m.entries = l
  induction l with
  | nil => intro _; rfl
  | cons e l ih =>
    intro h
    have he := h e List.mem_cons_self
    unfold insertIn
    rw [if_neg (not_lt_of_gt he), if_neg (ne_of_gt he), ih fun x hx => h x (List.mem_cons_of_mem _ hx)]
    rfl

/-! ### Sums over the entries -/

section Sums
variable (f : κ × α → Nat)

def sumOf (m : SortedMap κ α) : Nat := (m.entries.map f).sum

@[simp] theorem sumOf_empty : (∅ : SortedMap κ α).sumOf f = 0 := rfl

theorem sum_insertIn_le (k : κ) (v : α) : ∀ l : List (κ × α),
    ((insertIn k v l).map f).sum ≤ (l.map f).sum + f (k, v)
  | [] => by simp [insertIn]
  | e :: l => by
    have ih := sum_insertIn_le k v l
    unfold insertIn
    split
    · simp only [List.map_cons, List.sum_cons]
      omega
    · split
      · simp only [List.map_cons, List.sum_cons]
        omega
      · simp only [List.map_cons, List.sum_cons]
        omega

theorem sum_insertIn_of_mem {k : κ} {v w : α} : ∀ {l : List (κ × α)}, l.Pairwise (fun a b => a.1 < b.1) →
    (k, w) ∈ l → ((insertIn k v l).map f).sum + f (k, w) = (l.map f).sum + f (k, v)
  | e :: l, h, hm => by
    obtain ⟨he, hl⟩ := List.pairwise_cons.mp h
    unfold insertIn
    rcases List.mem_cons.mp hm with rfl | hm
    · rw [if_neg (lt_irrefl _), if_pos rfl]
      simp only [List.map_cons, List.sum_cons]
      omega
    · have hlt : e.1 < k := he _ hm
      have ih := sum_insertIn_of_mem hl hm (v := v)
      rw [if_neg (not_lt_of_gt hlt), if_neg (ne_of_gt hlt)]
      simp only [List.map_cons, List.sum_cons]
      omega

theorem sumOf_insert_le (m : SortedMap κ α) (k : κ) (v : α) : (m.insert k v).sumOf f ≤ m.sumOf f + f (k, v) :=
  sum_insertIn_le f k v m.entries

/-- A value that is overwritten no longer counts. -/
theorem sumOf_insert_of_find? {m : SortedMap κ α} {k : κ} {w : α} (h : m.find? k = some w) (v : α) :
    (m.insert k v).sumOf f + f (k, w) = m.sumOf f + f (k, v) :=
  sum_insertIn_of_mem f m.sorted (find?_eq_some.mp h)

theorem sum_filter_of_mem {k : κ} {w : α} : ∀ {l : List (κ × α)}, l.Pairwise (fun a b => a.1 < b.1) →
    (k, w) ∈ l → ((l.filter fun e => e.1 ≠ k).map f).sum + f (k, w) = (l.map f).sum
  | e :: l, h, hm => by
    obtain ⟨he, hl⟩ := List.pairwise_cons.mp h
    rcases List.mem_cons.mp hm with rfl | hm
    · have hall : l.filter (fun e => e.1 ≠ k) = l := List.filter_eq_self.mpr fun x hx => by
        simpa using (ne_of_lt (he x hx)).symm
      rw [List.filter_cons_of_neg (by simp), hall, List.map_cons, List.sum_cons, Nat.add_comm]
    · have hne : e.1 ≠ k := ne_of_lt (he _ hm)
      rw [List.filter_cons_of_pos (by simpa using hne), List.map_cons, List.sum_cons, List.map_cons, List.sum_cons,
        Nat.add_assoc, sum_filter_of_mem hl hm]

theorem sumOf_erase_of_find? {m : SortedMap κ α} {k : κ} {w : α} (h : m.find? k = some w) :
    (m.erase k).sumOf f + f (k, w) = m.sumOf f :=
  sum_filter_of_mem f m.sorted (find?_eq_some.mp h)

end Sums

/-- The map built by inserting the entries of a list one after the other. -/
def insertAll (m : SortedMap κ α) (l : List (κ × α)) : SortedMap κ α :=
  l.foldl (fun m e => m.insert e.1 e.2) m

theorem sumOf_insertAll_le (f : κ × α → Nat) (l : List (κ × α)) (m : SortedMap κ α) :
    (m.insertAll l).sumOf f ≤ m.sumOf f + (l.map f).sum := by
  induction l generalizing m with
  | nil => exact Nat.le_refl _
  | cons e l ih =>
    have hinsert := m.sumOf_insert_le f e.1 e.2
    have ih := ih (m.insert e.1 e.2)
    have heta : f (e.1, e.2) = f e := rfl
    show ((m.insert e.1 e.2).insertAll l).sumOf f ≤ _
    rw [List.map_cons, List.sum_cons]
    omega

/-- Keys are put in order whatever goes with them. -/
theorem insertIn_map (f : α → β) (k : κ) (v : α) : ∀ l : List (κ × α),
    insertIn k (f v) (l.map (Prod.map id f)) = (insertIn k v l).map (Prod.map id f)
  | [] => rfl
  | e :: l => by
    have hkey : (Prod.map id f e).1 = e.1 := rfl
    rw [List.map_cons, insertIn, insertIn, hkey]
    split
    · rfl
    · split
      · rfl
      · rw [insertIn_map f k v l, List.map_cons]

theorem entries_insertAll_map (f : α → β) : ∀ (l : List (κ × α)) {m : SortedMap κ α} {m' : SortedMap κ β},
    m'.entries = m.entries.map (Prod.map id f) → (m'.insertAll (l.map (Prod.map id f))).entries = (m.insertAll l).entries.map (Prod.map id f)
  | [], _, _, h => h
  | e :: l, m, _, h => by
    rename_i m m'
    have hinsert : (m'.insert e.1 (f e.2)).entries = (m.insert e.1 e.2).entries.map (Prod.map id f) :=
      (congrArg _ h).trans (insertIn_map f e.1 e.2 m.entries)
    exact entries_insertAll_map f l hinsert

theorem find?_insertAll_of_notMem {k : κ} {l : List (κ × α)} (h : k ∉ l.map (·.1)) (m : SortedMap κ α) :
    (m.insertAll l).find? k = m.find? k := by
  induction l generalizing m with
  | nil => rfl
  | cons e l ih =>
    rw [List.map_cons, List.mem_cons, not_or] at h
    show ((m.insert e.1 e.2).insertAll l).find? k = _
    rw [ih h.2, find?_insert_of_ne h.1]

/-- What is found is one of the entries, or was there before. -/
theorem mem_of_find?_insertAll {k : κ} {v : α} {l : List (κ × α)} {m : SortedMap κ α} (h : (m.insertAll l).find? k = some v) :
    (k, v) ∈ l ∨ m.find? k = some v := by
  induction l generalizing m with
  | nil => exact .inr h
  | cons e l ih =>
    rcases ih (m := m.insert e.1 e.2) h with hmem | hfind
    · exact .inl (List.mem_cons_of_mem _ hmem)
    · by_cases hk : k = e.1
      · rw [hk, find?_insert_self] at hfind
        rw [hk, ← Option.some.inj hfind]
        exact .inl List.mem_cons_self
      · rw [find?_insert_of_ne hk] at hfind
        exact .inr hfind

/-- Entries with different keys are all found. -/
theorem find?_insertAll_of_mem {k : κ} {v : α} {l : List (κ × α)} (hl : (l.map (·.1)).Nodup) (h : (k, v) ∈ l)
    (m : SortedMap κ α) : (m.insertAll l).find? k = some v := by
  induction l generalizing m with
  | nil => exact absurd h List.not_mem_nil
  | cons e l ih =>
    obtain ⟨he, hl⟩ := List.nodup_cons.mp hl
    show ((m.insert e.1 e.2).insertAll l).find? k = _
    rcases List.mem_cons.mp h with rfl | h
    · rw [find?_insertAll_of_notMem he, find?_insert_self]
    · exact ih hl h _

/-- The entries of a map make the map, in whichever order they are inserted. -/
theorem insertAll_of_perm {m : SortedMap κ α} {l : List (κ × α)} (h : l.Perm m.entries) : (∅ : SortedMap κ α).insertAll l = m := by
  have hnodup : (l.map (·.1)).Nodup := by
    rw [(h.map _).nodup_iff]
    exact List.Pairwise.map _ (fun _ _ hab => hab.ne) m.sorted
  refine ext_find? fun k => Option.ext fun v => ?_
  rw [find?_eq_some (m := m), ← h.mem_iff]
  refine ⟨fun hfind => ?_, fun hmem => find?_insertAll_of_mem hnodup hmem ∅⟩
  exact (mem_of_find?_insertAll hfind).resolve_right (by simp)

/-- Inserting sorted entries above those of `m` appends them. -/
theorem entries_insertAll {l : List (κ × α)} : ∀ {m : SortedMap κ α},
    (m.entries ++ l).Pairwise (fun a b => a.1 < b.1) → (m.insertAll l).entries = m.entries ++ l := by
  induction l with
  | nil => intro m _; exact (List.append_nil _).symm
  | cons e l ih =>
    intro m h
    have he : (m.insert e.1 e.2).entries = m.entries ++ [e] :=
      entries_insert_of_lt fun x hx => (List.pairwise_append.mp h).2.2 x hx e List.mem_cons_self
    show ((m.insert e.1 e.2).insertAll l).entries = _
    rw [ih (by rw [he, List.append_assoc]; exact h), he, List.append_assoc]
    rfl

/-- The last value of a key in a list of entries. -/
def lastIn (k : κ) : List (κ × α) → Option α
  | [] => none
  | e :: l => (lastIn k l).or (if k = e.1 then some e.2 else none)

theorem find?_insertAll (k : κ) : ∀ (l : List (κ × α)) (m : SortedMap κ α), (m.insertAll l).find? k = (lastIn k l).or (m.find? k)
  | [], _ => rfl
  | e :: l, m => by
    show ((m.insert e.1 e.2).insertAll l).find? k = _
    rw [find?_insertAll k l, find?_insert, lastIn, Option.or_assoc]
    split_ifs <;> rfl

/-- The entries whose keys are not there yet are inserted, one after the other. -/
def insertMissing (m : SortedMap κ α) (l : List (κ × α)) : SortedMap κ α :=
  l.foldl (fun m e => if m.contains e.1 then m else m.insert e.1 e.2) m

/-- A key that is there keeps its value. -/
theorem find?_insertMissing (k : κ) : ∀ (l : List (κ × α)) (m : SortedMap κ α),
    (m.insertMissing l).find? k = (m.find? k).or (lookupIn k l)
  | [], m => (Option.or_none (o := m.find? k)).symm
  | e :: l, m => by
    have hstep : (if m.contains e.1 then m else m.insert e.1 e.2).find? k = (m.find? k).or (if k = e.1 then some e.2 else none) := by
      by_cases hk : k = e.1
      · subst hk
        unfold contains
        cases hfind : m.find? e.1 with
        | none => simp
        | some v => simp [hfind]
      · rw [if_neg hk, Option.or_none]
        split_ifs
        · rfl
        · exact find?_insert_of_ne hk
    show ((if m.contains e.1 then m else m.insert e.1 e.2).insertMissing l).find? k = _
    rw [find?_insertMissing k l, hstep, Option.or_assoc, lookupIn]
    split_ifs <;> rfl

end SortedMap
