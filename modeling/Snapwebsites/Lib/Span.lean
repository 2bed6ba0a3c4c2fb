import Mathlib.Data.List.Basic
import Mathlib.Tactic.Common

/-! # Spans

A span is a number of places in a row. Two spans are apart when they share no place, and a span within another one is apart from
all that the other one is apart from. -/

structure Span where
  start : Nat
  size : Nat
  deriving DecidableEq

namespace Span

def stop (a : Span) : Nat := a.start + a.size

def Apart (a b : Span) : Prop := a.stop ≤ b.start ∨ b.stop ≤ a.start

def Within (a b : Span) : Prop := b.start ≤ a.start ∧ a.stop ≤ b.stop

instance (a b : Span) : Decidable (a.Apart b) := inferInstanceAs (Decidable (_ ∨ _))

instance (a b : Span) : Decidable (a.Within b) := inferInstanceAs (Decidable (_ ∧ _))

/-- The places of a span. -/
def Covers (a : Span) (x : Nat) : Prop := a.start ≤ x ∧ x < a.stop

variable {a b c : Span} {x : Nat}

theorem Apart.symm (h : a.Apart b) : b.Apart a := Or.symm h

theorem Within.refl (a : Span) : a.Within a := ⟨Nat.le_refl _, Nat.le_refl _⟩

theorem Within.trans (h : a.Within b) (h' : b.Within c) : a.Within c := ⟨Nat.le_trans h'.1 h.1, Nat.le_trans h.2 h'.2⟩

theorem Apart.within (h : b.Apart c) (ha : a.Within b) : a.Apart c := by
  rcases h with h | h
  · exact .inl (Nat.le_trans ha.2 h)
  · exact .inr (Nat.le_trans h ha.1)

theorem Within.covers (h : a.Within b) (hx : a.Covers x) : b.Covers x := ⟨Nat.le_trans h.1 hx.1, Nat.lt_of_lt_of_le hx.2 h.2⟩

theorem Apart.not_covers (h : a.Apart b) (ha : a.Covers x) : ¬ b.Covers x := by
  intro hb
  rcases h with h | h
  · exact absurd (Nat.lt_of_lt_of_le ha.2 h) (Nat.not_lt.mpr hb.1)
  · exact absurd (Nat.lt_of_lt_of_le hb.2 h) (Nat.not_lt.mpr ha.1)

/-- The first part of a span that is cut in two. -/
theorem within_first {start n size : Nat} (h : n ≤ size) : (Span.mk start n).Within ⟨start, size⟩ :=
  ⟨Nat.le_refl _, Nat.add_le_add_left h _⟩

theorem within_rest {start n k size : Nat} (h : n + k ≤ size) : (Span.mk (start + n) k).Within ⟨start, size⟩ :=
  ⟨Nat.le_add_right _ _, by rw [stop, stop, Nat.add_assoc]; exact Nat.add_le_add_left h _⟩

theorem apart_first_rest (start n k : Nat) : (Span.mk start n).Apart ⟨start + n, k⟩ := .inl (Nat.le_refl _)

end Span
