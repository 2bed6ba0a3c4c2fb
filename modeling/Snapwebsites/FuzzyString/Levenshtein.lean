import Snapwebsites.Lib.EditDistance
import Mathlib.Data.List.GetD

/-! # Fuzzy string comparison

`levenshtein_distance` keeps two rows of the table of distances and swaps them after each character of `s`.
The row `v0` holds the distances from the characters of `s` done so far to each front of `t` (`Row`): a cell
is the recursion over the last items (`fillCell_row`), a pass over `t` gives the next row, and the last cell
of the last row is the least number of edits. The counts are `int`; no cell exceeds the longer length
(`Row.cell_le`). -/

namespace Snapwebsites
namespace FuzzyString
open EditDistance

/-- A `std::wstring`. -/
abbrev WString := List UInt32

/-- One pass of the inner loop: `v1[j + 1]` is filled in. -/
def fillCell (c : UInt32) (t : WString) (v0 v1 : List Nat) (j : Nat) : List Nat :=
  v1.set (j + 1) (min (v1.getD j 0 + 1) (min (v0.getD (j + 1) 0 + 1) (v0.getD j 0 + (if c = t.getD j 0 then 0 else 1))))

/-- One pass of the outer loop: `v1` is filled in from `v0`, then the two are swapped. -/
def fillRow (s t : WString) (v : List Nat × List Nat) (i : Nat) : List Nat × List Nat :=
  ((List.range t.length).foldl (fillCell (s.getD i 0) t v.1) (v.2.set 0 (i + 1)), v.1)

def levenshteinDistance (s t : WString) : Nat :=
  if s = t then 0
  else if s.isEmpty then t.length
  else if t.isEmpty then s.length
  else
    let v0 := List.range (t.length + 1)
    let v1 := List.replicate v0.length 0
    ((List.range s.length).foldl (fillRow s t) (v0, v1)).1.getD t.length 0

/-! ### Rows -/

/-- The first `n` cells of a row are the distances from `s` to the fronts of `t`. -/
structure Row (s t : WString) (n : Nat) (v : List Nat) : Prop where
  length : v.length = t.length + 1
  cell : ∀ j < n, v.getD j 0 = distance s (t.take j)

namespace Row
variable {s t : WString} {n : Nat} {v : List Nat}

theorem cell_le (h : Row s t n v) {j : Nat} (hj : j < n) : v.getD j 0 ≤ max s.length t.length := by
  rw [h.cell j hj]
  refine (distance_le_max s (t.take j)).trans (max_le_max_left _ ?_)
  rw [List.length_take]
  exact min_le_right _ _

/-- The row for an empty `s`. -/
theorem first (t : WString) : Row [] t (t.length + 1) (List.range (t.length + 1)) where
  length := List.length_range
  cell j hj := by
    rw [List.getD_eq_getElem _ _ (by rwa [List.length_range]), List.getElem_range, distance_nil_left, List.length_take,
      Nat.min_eq_left (Nat.le_of_lt_succ hj)]

theorem set (h : Row s t n v) (hn : n < t.length + 1) : Row s t (n + 1) (v.set n (distance s (t.take n))) where
  length := by rw [List.length_set, h.length]
  cell j hj := by
    rcases Nat.lt_succ_iff_lt_or_eq.mp hj with hj | rfl
    · rw [← h.cell j hj, List.getD_eq_getElem?_getD, List.getElem?_set_ne hj.ne', List.getD_eq_getElem?_getD]
    · rw [List.getD_eq_getElem?_getD, List.getElem?_set_self (by rwa [h.length]), Option.getD_some]

end Row

theorem take_succ_getD {l : WString} {j : Nat} (hj : j < l.length) : l.take (j + 1) = l.take j ++ [l.getD j 0] := by
  rw [List.take_succ_eq_append_getElem hj, List.getD_eq_getElem _ _ hj]

/-- A cell is filled in from its three neighbours. -/
theorem fillCell_row {s t : WString} {c : UInt32} {v0 v1 : List Nat} {j : Nat} (hj : j < t.length)
    (h0 : Row s t (t.length + 1) v0) (h1 : Row (s ++ [c]) t (j + 1) v1) : Row (s ++ [c]) t (j + 2) (fillCell c t v0 v1 j) := by
  have hcell := distance_concat s (t.take j) c (t.getD j 0)
  rw [← take_succ_getD hj, ← h1.cell j (Nat.lt_succ_self j), ← h0.cell (j + 1) (by omega), ← h0.cell j (by omega)] at hcell
  have hset := h1.set (Nat.succ_lt_succ hj)
  rw [hcell] at hset
  exact hset

/-- The inner loop fills in the row of the next character. -/
theorem fillRow_row {s t : WString} {v : List Nat × List Nat} {i : Nat} (hi : i < s.length) (hv : v.2.length = t.length + 1)
    (h : Row (s.take i) t (t.length + 1) v.1) : Row (s.take (i + 1)) t (t.length + 1) (fillRow s t v i).1 := by
  rw [take_succ_getD hi]
  have hloop : ∀ n ≤ t.length, Row (s.take i ++ [s.getD i 0]) t (n + 1)
      ((List.range n).foldl (fillCell (s.getD i 0) t v.1) (v.2.set 0 (i + 1))) := by
    intro n
    induction n with
    | zero =>
      intro _
      have hnone : Row (s.take i ++ [s.getD i 0]) t 0 v.2 := ⟨hv, fun _ hj => absurd hj (Nat.not_lt_zero _)⟩
      have hset := hnone.set (Nat.succ_pos _)
      rwa [List.take_zero, distance_nil_right, List.length_append, List.length_take, Nat.min_eq_left (Nat.le_of_lt hi)] at hset
    | succ n ih =>
      intro hn
      rw [List.range_succ, List.foldl_append]
      exact fillCell_row hn h (ih (Nat.le_of_lt hn))
  exact hloop t.length (Nat.le_refl _)

/-- The outer loop: the rows after `n` characters of `s`. -/
theorem rows {s t : WString} {v : List Nat × List Nat} (h : Row [] t (t.length + 1) v.1) (hv : v.2.length = t.length + 1) :
    ∀ n ≤ s.length, Row (s.take n) t (t.length + 1) ((List.range n).foldl (fillRow s t) v).1 ∧
      ((List.range n).foldl (fillRow s t) v).2.length = t.length + 1
  | 0, _ => ⟨h, hv⟩
  | n + 1, hn => by
    obtain ⟨hrow, hlength⟩ := rows h hv n (Nat.le_of_lt hn)
    rw [List.range_succ, List.foldl_append]
    exact ⟨fillRow_row hn hlength hrow, hrow.length⟩

/-- The function computes the distance, in the degenerate cases too. -/
theorem levenshteinDistance_eq (s t : WString) : levenshteinDistance s t = distance s t := by
  unfold levenshteinDistance
  split_ifs with heq hs ht
  · rw [heq, distance_self]
  · rw [List.isEmpty_iff.mp hs, distance_nil_left]
  · rw [List.isEmpty_iff.mp ht, distance_nil_right]
  · have hv1 : (List.replicate (List.range (t.length + 1)).length 0).length = t.length + 1 := by
      rw [List.length_replicate, List.length_range]
    obtain ⟨hrow, -⟩ := rows (v := (_, _)) (Row.first t) hv1 s.length (Nat.le_refl _)
    have hlast := hrow.cell t.length (Nat.lt_succ_self _)
    rwa [List.take_length, List.take_length] at hlast

/-- After `i` characters of `s` each cell is a distance, and no larger than the longer length: an `int` that has room for the lengths never
overflows. -/
theorem cells_le {s t : WString} {i j : Nat} (hi : i ≤ s.length) (hj : j ≤ t.length) {cell : Nat}
    (hcell : ((List.range i).foldl (fillRow s t) (List.range (t.length + 1), List.replicate (t.length + 1) 0)).1.getD j 0 = cell) :
    cell = distance (s.take i) (t.take j) ∧ cell ≤ max s.length t.length := by
  obtain ⟨hrow, -⟩ := rows (v := (List.range (t.length + 1), List.replicate (t.length + 1) 0)) (Row.first t) List.length_replicate i hi
  have hle := hrow.cell_le (Nat.lt_succ_of_le hj)
  rw [hcell] at hle
  refine ⟨hcell.symm.trans (hrow.cell j (Nat.lt_succ_of_le hj)), hle.trans (max_le_max_right _ ?_)⟩
  exact List.length_take_le' i s

theorem cells_le_one : 1 = distance [97] [(98 : UInt32)] ∧ 1 ≤ 1 :=
  cells_le (s := [97]) (t := [98]) (i := 1) (j := 1) (Nat.le_refl 1) (Nat.le_refl 1) rfl

/-! ### The least number of edits -/

theorem levenshteinDistance_least : (∀ s t : WString, IsLeast {n | Script n s t} (levenshteinDistance s t)) ∧
    (∀ s t, levenshteinDistance s t = levenshteinDistance t s) ∧ (∀ s t, levenshteinDistance s t = 0 ↔ s = t) ∧
    ∀ s t u, levenshteinDistance s u ≤ levenshteinDistance s t + levenshteinDistance t u := by
  simp only [levenshteinDistance_eq]
  exact ⟨isLeast_distance, distance_comm, fun _ _ => distance_eq_zero_iff, distance_triangle⟩

end FuzzyString
end Snapwebsites
