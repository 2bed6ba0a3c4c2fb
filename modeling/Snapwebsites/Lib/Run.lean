import Mathlib.Tactic.Common

/-! # Runs of a transition system

A run is a number of steps from one state to another. What every step keeps, every run keeps
(`Run.invariant`); and a quantity that every step lowers bounds the length of a run (`Run.length_le`). -/

/-- `Run step s n t`: from `s`, `n` steps lead to `t`. -/
inductive Run {σ : Type} (step : σ → σ → Prop) (s : σ) : Nat → σ → Prop
  | start : Run step s 0 s
  | step {n : Nat} {t u : σ} : Run step s n t → step t u → Run step s (n + 1) u

namespace Run
variable {σ : Type} {step : σ → σ → Prop} {s t u : σ} {n : Nat}

theorem invariant {I : σ → Prop} (hs : I s) (hstep : ∀ t u, I t → step t u → I u) (h : Run step s n t) : I t := by
  induction h with
  | start => exact hs
  | step _ hu ih => exact hstep _ _ ih hu

theorem length_le {I : σ → Prop} {μ : σ → Nat} (hs : I s) (hstep : ∀ t u, I t → step t u → I u)
    (hμ : ∀ t u, I t → step t u → μ u + 1 ≤ μ t) (h : Run step s n t) : n + μ t ≤ μ s := by
  induction h with
  | start => omega
  | step ht hu ih =>
    have := hμ _ _ (invariant hs hstep ht) hu
    omega

end Run
