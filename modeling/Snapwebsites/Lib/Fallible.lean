import Mathlib.Logic.Basic

/-! # Computations that fail

What a chain of steps gives, it gives because each of its steps succeeds; a function over the result changes
nothing of a failure. -/

namespace Fallible
variable {ε α β : Type} {x : Except ε α} {f : α → Except ε β} {g : α → β} {b : β} {e : ε}

theorem bind_eq_ok : x >>= f = .ok b ↔ ∃ a, x = .ok a ∧ f a = .ok b := by
  cases x with
  | error e => exact ⟨fun h => (by cases h), fun ⟨a, h, _⟩ => (by cases h)⟩
  | ok a => exact ⟨fun h => ⟨a, rfl, h⟩, fun ⟨a', h, hf⟩ => (by cases h; exact hf)⟩

theorem map_eq_ok : x.map g = .ok b ↔ ∃ a, x = .ok a ∧ g a = b := by
  cases x with
  | error e => exact ⟨fun h => (by cases h), fun ⟨a, h, _⟩ => (by cases h)⟩
  | ok a => exact ⟨fun h => ⟨a, rfl, Except.ok.inj h⟩, fun ⟨a', h, hg⟩ => (by cases h; exact congrArg _ hg)⟩

theorem map_eq_error : x.map g = .error e ↔ x = .error e := by
  cases x with
  | error e' => exact ⟨fun h => congrArg Except.error (Except.error.inj h), fun h => congrArg Except.error (Except.error.inj h)⟩
  | ok a => exact iff_of_false (fun h => by cases h) fun h => by cases h

/-- A step for each element of a list gives a result when each one does. -/
theorem mapM_succeeds {h : α → Except ε β} : ∀ {l : List α}, (∃ r, l.mapM h = .ok r) ↔ ∀ a ∈ l, ∃ b, h a = .ok b
  | [] => iff_of_true ⟨[], rfl⟩ fun _ ha => absurd ha List.not_mem_nil
  | a :: l => by
    simp only [List.mapM_cons, bind_eq_ok, List.forall_mem_cons, ← mapM_succeeds (l := l)]
    constructor
    · rintro ⟨_, b, hb, r, hr, -⟩
      exact ⟨⟨b, hb⟩, r, hr⟩
    · rintro ⟨⟨b, hb⟩, r, hr⟩
      exact ⟨b :: r, b, hb, r, hr, rfl⟩

end Fallible
