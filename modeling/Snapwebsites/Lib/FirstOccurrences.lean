import Mathlib.Data.List.Nodup

/-! # First occurrences

A list filled in by appending what it does not have yet has no duplicates and keeps the order in which the
items first came (`Firsts`): position is compared through `List.idxOf`, so the order can be stated of lists
with duplicates as well. -/

namespace FirstOccurrences
variable {α : Type} [DecidableEq α]

/-- `r` has the items of `l`, in the order of their first occurrences. -/
structure Firsts (l r : List α) : Prop where
  mem : ∀ x, x ∈ r ↔ x ∈ l
  order : ∀ x y, r.idxOf x < r.idxOf y ↔ l.idxOf x < l.idxOf y

/-- `x` is appended unless it is there. -/
def pushNew (r : List α) (x : α) : List α := if x ∈ r then r else r ++ [x]

/-- An item in front of another one after `x` was appended. -/
theorem idxOf_concat_lt_iff (l : List α) (x a b : α) : (l ++ [x]).idxOf a < (l ++ [x]).idxOf b ↔
    l.idxOf a < l.idxOf b ∨ (a ∉ l ∧ b ∉ l ∧ a = x ∧ b ≠ x) := by
  by_cases ha : a ∈ l <;> by_cases hb : b ∈ l
  · rw [List.idxOf_append_of_mem ha, List.idxOf_append_of_mem hb]
    simp [ha]
  · have := List.idxOf_lt_length_of_mem ha
    rw [List.idxOf_append_of_mem ha, List.idxOf_append_of_notMem hb, List.idxOf_of_notMem hb]
    simp only [ha, not_true_eq_false, false_and, or_false]
    omega
  · have := List.idxOf_lt_length_of_mem hb
    rw [List.idxOf_append_of_notMem ha, List.idxOf_append_of_mem hb, List.idxOf_of_notMem ha]
    simp only [hb, not_true_eq_false, false_and, and_false, or_false]
    omega
  · rw [List.idxOf_append_of_notMem ha, List.idxOf_append_of_notMem hb, List.idxOf_of_notMem ha, List.idxOf_of_notMem hb]
    have hone : ∀ c : α, [x].idxOf c = if c = x then 0 else 1 := fun c => by
      by_cases hc : c = x
      · rw [if_pos hc, hc, List.idxOf_cons_self]
      · rw [if_neg hc, List.idxOf_cons_ne [] (Ne.symm hc), List.idxOf_nil]
    rw [hone, hone]
    by_cases hax : a = x <;> by_cases hbx : b = x <;> simp_all

namespace Firsts
variable {l r : List α}

theorem refl (l : List α) : Firsts l l := ⟨fun _ => Iff.rfl, fun _ _ => Iff.rfl⟩

theorem concat (h : Firsts l r) (x : α) : Firsts (l ++ [x]) (r ++ [x]) where
  mem y := by rw [List.mem_append, List.mem_append, h.mem]
  order a b := by rw [idxOf_concat_lt_iff, idxOf_concat_lt_iff, h.order, h.mem, h.mem]

theorem skip (h : Firsts l r) {x : α} (hx : x ∈ r) : Firsts (l ++ [x]) r where
  mem y := by
    rw [h.mem, List.mem_append, List.mem_singleton]
    exact ⟨Or.inl, fun hy => hy.elim id fun hy => hy ▸ (h.mem x).mp hx⟩
  order a b := by
    rw [idxOf_concat_lt_iff, h.order]
    refine ⟨Or.inl, fun hab => hab.elim id ?_⟩
    rintro ⟨ha, -, rfl, -⟩
    exact absurd ((h.mem a).mp hx) ha

theorem pushNew (h : Firsts l r) (x : α) : Firsts (l ++ [x]) (pushNew r x) := by
  unfold FirstOccurrences.pushNew
  split
  · rename_i hx
    exact h.skip hx
  · exact h.concat x

/-- Items appended one after another, each the way `f` does it. -/
theorem foldl {f : List α → α → List α} (hf : ∀ {l r : List α}, Firsts l r → ∀ x, Firsts (l ++ [x]) (f r x)) :
    ∀ (m : List α) {l r : List α}, Firsts l r → Firsts (l ++ m) (m.foldl f r)
  | [], l, r, h => by rwa [List.append_nil]
  | x :: m, l, r, h => by
    have htail := foldl hf m (hf h x)
    rwa [List.append_assoc, List.singleton_append] at htail

end Firsts

theorem nodup_pushNew {r : List α} (h : r.Nodup) (x : α) : (pushNew r x).Nodup := by
  unfold pushNew
  split
  · exact h
  · rename_i hx
    exact List.nodup_append'.mpr ⟨h, List.nodup_singleton x, List.disjoint_singleton.mpr hx⟩

theorem nodup_foldl_pushNew : ∀ (m : List α) {r : List α}, r.Nodup → (m.foldl pushNew r).Nodup
  | [], _, h => h
  | x :: m, _, h => nodup_foldl_pushNew m (nodup_pushNew h x)

/-- What is appended stays behind what was there. -/
theorem prefix_foldl_pushNew : ∀ (m r : List α), r <+: m.foldl pushNew r
  | [], r => List.prefix_refl r
  | x :: m, r => by
    refine List.IsPrefix.trans ?_ (prefix_foldl_pushNew m (pushNew r x))
    unfold pushNew
    split
    · exact List.prefix_refl r
    · exact List.prefix_append r [x]

end FirstOccurrences
