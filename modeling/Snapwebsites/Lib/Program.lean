import Mathlib.Tactic.Common

/-! # Programs that may throw

A program over a state gives a value or throws, and leaves a state either way: what was written before an
exception stays written. `Yields p s a t`: from the state `s`, the program `p` gives `a` and leaves `t`. -/

abbrev Program (σ α : Type) := OptionT (StateM σ) α

namespace Program
variable {σ α β : Type}

/-- The state that a program leaves. -/
def exec (p : Program σ α) (s : σ) : σ := (p.run.run s).2

/-- The value that a program gives, when it does not throw. -/
def value (p : Program σ α) (s : σ) : Option α := (p.run.run s).1

def Yields (p : Program σ α) (s : σ) (a : α) (t : σ) : Prop := p.run.run s = (some a, t)

/-- A program that throws unless there is a value. -/
def ofOption (a : Option α) : Program σ α := OptionT.mk (pure a)

variable {p : Program σ α} {f : α → Program σ β} {s t u : σ} {a : α} {b : β}

theorem Yields.value (h : Yields p s a t) : p.value s = some a := congrArg Prod.fst h

theorem Yields.exec (h : Yields p s a t) : p.exec s = t := congrArg Prod.snd h

/-- A program that gives a value yields it with the state that it leaves. -/
theorem yields_of_value (h : p.value s = some a) : Yields p s a (p.exec s) := Prod.ext h rfl

theorem Yields.pure (a : α) (s : σ) : Yields (Pure.pure a : Program σ α) s a s := rfl

theorem Yields.get (s : σ) : Yields (MonadState.get : Program σ σ) s s s := rfl

theorem Yields.modify (g : σ → σ) (s : σ) : Yields (modify g : Program σ PUnit) s ⟨⟩ (g s) := rfl

theorem Yields.ofOption (a : α) (s : σ) : Yields (ofOption (some a) : Program σ α) s a s := rfl

theorem bind_run (p : Program σ α) (f : α → Program σ β) (s : σ) :
    (p >>= f).run.run s = match p.run.run s with
      | (some a, t) => (f a).run.run t
      | (none, t) => (none, t) := by
  rw [OptionT.run_bind, Option.elimM, StateT.run_bind]
  rcases p.run.run s with ⟨_ | a, t⟩ <;> rfl

theorem Yields.run_bind (h : Yields p s a t) (f : α → Program σ β) : (p >>= f).run.run s = (f a).run.run t := by
  unfold Yields at h
  rw [bind_run, h]

theorem Yields.bind (h : Yields p s a t) (hf : Yields (f a) t b u) : Yields (p >>= f) s b u := by
  unfold Yields at h ⊢
  rw [bind_run, h]
  exact hf

/-- What a sequence has given, its parts have. -/
theorem Yields.of_bind (h : Yields (p >>= f) s b u) : ∃ a t, Yields p s a t ∧ Yields (f a) t b u := by
  unfold Yields at h
  rw [bind_run] at h
  rcases hp : p.run.run s with ⟨_ | a, t⟩
  · rw [hp] at h
    cases h
  · rw [hp] at h
    exact ⟨a, t, hp, h⟩

/-- A sequence leaves the state that its second part leaves, when its first part gives a value. -/
theorem exec_bind (h : Yields p s a t) (f : α → Program σ β) : (p >>= f).exec s = (f a).exec t := by
  unfold exec
  rw [bind_run, h]

/-- What holds between the ends of both parts of a sequence, exceptions included, holds between its ends. -/
theorem exec_bind_keeps {r : σ → σ → Prop} (hr : ∀ {s t u}, r s t → r t u → r s u) (hp : r s (p.exec s))
    (hf : ∀ a t, Yields p s a t → r t ((f a).exec t)) : r s ((p >>= f).exec s) := by
  unfold exec at hp ⊢
  rw [bind_run]
  rcases h : p.run.run s with ⟨_ | a, t⟩
  · rw [h] at hp
    exact hp
  · rw [h] at hp
    exact hr hp (hf a t h)

end Program
