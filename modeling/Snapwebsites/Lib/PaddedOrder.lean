import Mathlib.Data.List.GetD
import Mathlib.Data.Nat.Basic
import Mathlib.Order.Compare
import Mathlib.Order.PiLex

/-! # The order of padded sequences

Lists read as sequences that go on with zeroes without end, in lexicographic order. A loop that compares two lists place by
place finds that order when it goes up to the end of the longer one. -/

namespace PaddedOrder
variable {α : Type}

/-! ### Sequences -/

/-- The sequence from a place on. -/
def drop (i : ℕ) (p : Lex (ℕ → α)) : Lex (ℕ → α) := toLex fun j => ofLex p (i + j)

theorem drop_zero (p : Lex (ℕ → α)) : drop 0 p = p := by
  funext j
  show ofLex p (0 + j) = ofLex p j
  rw [Nat.zero_add]

theorem drop_one_drop (i : ℕ) (p : Lex (ℕ → α)) : drop 1 (drop i p) = drop (i + 1) p := by
  funext j
  show ofLex p (i + (1 + j)) = ofLex p (i + 1 + j)
  rw [Nat.add_assoc]

section
variable [LinearOrder α]

theorem lt_iff (p q : Lex (ℕ → α)) :
    p < q ↔ ofLex p 0 < ofLex q 0 ∨ ofLex p 0 = ofLex q 0 ∧ drop 1 p < drop 1 q := by
  constructor
  · rintro ⟨_ | i, hi, hlt⟩
    · exact .inl hlt
    · refine .inr ⟨hi 0 i.succ_pos, i, fun j hj => ?_, ?_⟩
      · exact hi (1 + j) (by omega)
      · rwa [Nat.add_comm] at hlt
  · rintro (hlt | ⟨heq, i, hi, hlt⟩)
    · exact ⟨0, fun j hj => absurd hj j.not_lt_zero, hlt⟩
    · refine ⟨1 + i, fun j hj => ?_, hlt⟩
      cases j with
      | zero => exact heq
      | succ j =>
        have h := hi j (by omega)
        rwa [← Nat.add_comm 1 j]

noncomputable instance decidableLTLex : DecidableLT (Lex (ℕ → α)) := LinearOrder.toDecidableLT

variable {p q : Lex (ℕ → α)}

theorem cmp_eq_lt : cmp p q = .lt ↔ p < q := cmp_eq_lt_iff p q

theorem cmp_eq_gt : cmp p q = .gt ↔ q < p := cmp_eq_gt_iff p q

theorem cmp_self (p : Lex (ℕ → α)) : cmp p p = .eq := cmp_self_eq_eq p

/-- The first places decide, and where they are the same what is behind them does. -/
theorem cmp_eq_then (p q : Lex (ℕ → α)) : cmp p q = (cmp (ofLex p 0) (ofLex q 0)).then (cmp (drop 1 p) (drop 1 q)) := by
  rcases lt_trichotomy (ofLex p 0) (ofLex q 0) with hlt | heq | hgt
  · rw [cmp_eq_lt_iff _ _ |>.mpr hlt]
    exact cmp_eq_lt.mpr ((lt_iff p q).mpr (.inl hlt))
  · have hlt : p < q ↔ drop 1 p < drop 1 q := by simp [lt_iff p q, heq]
    have hgt : q < p ↔ drop 1 q < drop 1 p := by simp [lt_iff q p, heq]
    rw [cmp_eq_eq_iff _ _ |>.mpr heq, Ordering.eq_then]
    rw [cmp, cmpUsing, cmp, cmpUsing]
    simp only [hlt, hgt]
  · rw [cmp_eq_gt_iff _ _ |>.mpr hgt]
    exact cmp_eq_gt.mpr ((lt_iff q p).mpr (.inl hgt))

end

/-! ### Lists -/

variable [Zero α]

def padded (l : List α) : Lex (ℕ → α) := toLex fun i => l.getD i 0

theorem drop_padded_of_length_le {l : List α} {i : ℕ} (h : l.length ≤ i) : drop i (padded l) = padded [] := by
  funext j
  exact List.getD_eq_default _ _ (by omega)

/-- Zeroes at the end make no difference. -/
theorem padded_append {l m : List α} (h : ∀ a ∈ m, a = 0) : padded (l ++ m) = padded l := by
  funext i
  show (l ++ m).getD i 0 = l.getD i 0
  rcases lt_or_ge i l.length with hi | hi
  · rw [List.getD_append _ _ _ _ hi]
  · rw [List.getD_append_right _ _ _ _ hi, List.getD_eq_default _ _ hi]
    rcases lt_or_ge (i - l.length) m.length with hm | hm
    · rw [List.getD_eq_getElem _ _ hm]
      exact h _ (List.getElem_mem hm)
    · rw [List.getD_eq_default _ _ hm]

end PaddedOrder
