import Mathlib.Data.List.Nodup
import Mathlib.Data.List.Range

/-! # Linked lists

References that lead to one another. `Linked next null r l`: from `r`, the links lead over the references of `l` to the null
reference. There is one such list at most (`Linked.unique`), it visits no reference twice (`Linked.nodup`), and it stays when
only other links change (`Linked.congr`). -/

inductive Linked {ρ : Type} (next : ρ → Option ρ) (null : ρ) : ρ → List ρ → Prop
  | nil : Linked next null null []
  | cons {r r' : ρ} {l : List ρ} : r ≠ null → next r = some r' → Linked next null r' l → Linked next null r (r :: l)

namespace Linked
variable {ρ : Type} {next next' : ρ → Option ρ} {null r r' : ρ} {l k : List ρ}

theorem null_nil (h : Linked next null null l) : l = [] := by
  cases h with
  | nil => rfl
  | cons hne => exact absurd rfl hne

theorem eq_cons (h : Linked next null r l) (hr : r ≠ null) : ∃ r' k, next r = some r' ∧ Linked next null r' k ∧ l = r :: k := by
  cases h with
  | nil => exact absurd rfl hr
  | cons _ hnext htail => exact ⟨_, _, hnext, htail, rfl⟩

theorem head (h : Linked next null r (r' :: l)) : r = r' ∧ ∃ a, next r' = some a ∧ Linked next null a l := by
  cases h with
  | cons _ hnext htail => exact ⟨rfl, _, hnext, htail⟩

theorem ne_null (h : Linked next null r l) {a : ρ} (ha : a ∈ l) : a ≠ null := by
  induction h with
  | nil => cases ha
  | cons hne _ _ ih =>
    rcases List.mem_cons.mp ha with rfl | ha
    · exact hne
    · exact ih ha

theorem congr (h : Linked next null r l) (heq : ∀ a ∈ l, next' a = next a) : Linked next' null r l := by
  induction h with
  | nil => exact .nil
  | cons hne hnext _ ih =>
    exact .cons hne ((heq _ List.mem_cons_self).trans hnext) (ih fun a ha => heq a (List.mem_cons_of_mem _ ha))

theorem unique (h : Linked next null r l) (h' : Linked next null r k) : l = k := by
  induction h generalizing k with
  | nil => exact h'.null_nil.symm
  | cons hne hnext _ ih =>
    obtain ⟨r', k', hnext', htail', rfl⟩ := h'.eq_cons hne
    rw [hnext] at hnext'
    cases hnext'
    rw [ih htail']

/-- The references from a place of the list on are linked as well. -/
theorem of_mem (h : Linked next null r l) {a : ρ} (ha : a ∈ l) : ∃ k, Linked next null a k ∧ k.length ≤ l.length := by
  induction h with
  | nil => cases ha
  | cons hne hnext htail ih =>
    rcases List.mem_cons.mp ha with rfl | ha
    · exact ⟨_, .cons hne hnext htail, le_rfl⟩
    · obtain ⟨k, hk, hlen⟩ := ih ha
      exact ⟨k, hk, hlen.trans (Nat.le_succ _)⟩

theorem nodup (h : Linked next null r l) : l.Nodup := by
  induction h with
  | nil => exact List.nodup_nil
  | cons hne hnext htail ih =>
    refine List.nodup_cons.mpr ⟨fun hmem => ?_, ih⟩
    -- a list from the reference would be longer than itself
    obtain ⟨k, hk, hlen⟩ := htail.of_mem hmem
    rw [hk.unique (.cons hne hnext htail), List.length_cons] at hlen
    exact absurd hlen (Nat.not_succ_le_self _)

/-- References that each lead to the one after, and the last one to the null reference. -/
theorem of_range {refs : Nat → ρ} {n : Nat} (hnull : ∀ i < n, refs i ≠ null) (hlast : refs n = null)
    (hnext : ∀ i < n, next (refs i) = some (refs (i + 1))) : Linked next null (refs 0) ((List.range n).map refs) := by
  induction n generalizing refs with
  | zero =>
    rw [hlast]
    exact .nil
  | succ n ih =>
    have htail := @ih (fun i => refs (i + 1)) (fun i hi => hnull (i + 1) (Nat.succ_lt_succ hi)) hlast
      fun i hi => hnext (i + 1) (Nat.succ_lt_succ hi)
    rw [List.range_succ_eq_map, List.map_cons, List.map_map]
    exact .cons (hnull 0 n.succ_pos) (hnext 0 n.succ_pos) htail

end Linked
