import Mathlib.Data.List.Induction
import Mathlib.Tactic.Common

/-! # Events handled one after the other

A deterministic system handles a list of events. `Along P s es`: each event of `es` is handled in a state in which `P`
holds of it. What such an event keeps, the whole list keeps (`Along.invariant`), and what is said of the events handled so
far is shown one event at a time (`Along.snoc_induction`). -/

namespace Trace
variable {σ ε : Type} (step : σ → ε → σ)

/-- The state after the events. -/
def after (s : σ) (es : List ε) : σ := es.foldl step s

def Along (P : σ → ε → Prop) : σ → List ε → Prop
  | _, [] => True
  | s, e :: es => P s e ∧ Along P (step s e) es

variable {step} {P Q : σ → ε → Prop} {s : σ} {e : ε} {es es' : List ε}

@[simp] theorem after_nil : after step s [] = s := rfl

@[simp] theorem after_cons : after step s (e :: es) = after step (step s e) es := rfl

theorem after_append : after step s (es ++ es') = after step (after step s es) es' := List.foldl_append

@[simp] theorem after_snoc : after step s (es ++ [e]) = step (after step s es) e := after_append

theorem along_append : Along step P s (es ++ es') ↔ Along step P s es ∧ Along step P (after step s es) es' := by
  induction es generalizing s with
  | nil => simp [Along]
  | cons e es ih => rw [List.cons_append, Along, Along, ih, after_cons, and_assoc]

theorem along_snoc : Along step P s (es ++ [e]) ↔ Along step P s es ∧ P (after step s es) e := by
  rw [along_append, Along, Along, and_true]

theorem along_and : Along step (fun s e => P s e ∧ Q s e) s es ↔ Along step P s es ∧ Along step Q s es := by
  induction es generalizing s with
  | nil => simp [Along]
  | cons e es ih => rw [Along, Along, Along, ih, and_and_and_comm]

theorem Along.snoc_induction {motive : List ε → Prop} (nil : motive [])
    (snoc : ∀ es e, Along step P s es → P (after step s es) e → motive es → motive (es ++ [e])) (h : Along step P s es) :
    motive es := by
  induction es using List.reverseRecOn with
  | nil => exact nil
  | append_singleton es e ih =>
    obtain ⟨hes, he⟩ := along_snoc.mp h
    exact snoc es e hes he (ih hes)

theorem Along.invariant {I : σ → Prop} (hs : I s) (hstep : ∀ s e, I s → P s e → I (step s e)) (h : Along step P s es) :
    I (after step s es) := by
  induction es generalizing s with
  | nil => exact hs
  | cons e es ih =>
    obtain ⟨he, hes⟩ := h
    exact ih (hstep s e hs he) hes

/-- What holds of the events that keep an invariant holds along with it. -/
theorem Along.mono {I : σ → Prop} (hs : I s) (hstep : ∀ s e, I s → P s e → I (step s e) ∧ Q s e) (h : Along step P s es) :
    Along step Q s es := by
  induction es generalizing s with
  | nil => trivial
  | cons e es ih =>
    obtain ⟨he, hes⟩ := h
    obtain ⟨hI, hQ⟩ := hstep s e hs he
    exact ⟨hQ, ih hI hes⟩

/-- Two conditions that are the same under an invariant of the events that meet them are the same along a list of events. -/
theorem along_congr_of {I : σ → Prop} (hs : I s) (hstep : ∀ s e, I s → P s e → I (step s e))
    (hiff : ∀ s e, I s → (P s e ↔ Q s e)) : Along step P s es ↔ Along step Q s es := by
  induction es generalizing s with
  | nil => exact Iff.rfl
  | cons e es ih =>
    rw [Along, Along, ← hiff s e hs]
    exact and_congr_right fun he => ih (hstep s e hs he)

theorem along_congr {I : σ → Prop} (hs : I s) (hstep : ∀ s e, I s → I (step s e)) (hiff : ∀ s e, I s → (P s e ↔ Q s e)) :
    Along step P s es ↔ Along step Q s es := along_congr_of hs (fun s e h _ => hstep s e h) hiff

/-! ### Events that put something out -/

section
variable {ω τ ω' ε' : Type}

/-- The state after the events and what they have put out. -/
def run (step : σ → ε → σ × List ω) (s : σ) : List ε → σ × List ω
  | [] => (s, [])
  | e :: es => ((run step (step s e).1 es).1, (step s e).2 ++ (run step (step s e).1 es).2)

variable {step : σ → ε → σ × List ω} {step' : τ → ε' → τ × List ω'} {f : σ → τ} {out : ω → Option ω'} {R : ε → ε' → Prop}

theorem run_fst : (run step s es).1 = after (fun s e => (step s e).1) s es := by
  induction es generalizing s with
  | nil => rfl
  | cons e es ih => exact ih

/-- A system whose steps are steps of another one, under an invariant, puts out what the other one does. -/
theorem run_simulation {I : σ → Prop} (hs : I s) (h : Along (fun s e => (step s e).1) P s es)
    (hstep : ∀ s e, I s → P s e →
      I (step s e).1 ∧ ∃ e', R e e' ∧ step' (f s) e' = (f (step s e).1, (step s e).2.filterMap out)) :
    ∃ es', List.Forall₂ R es es' ∧ run step' (f s) es' = (f (run step s es).1, (run step s es).2.filterMap out) := by
  induction es generalizing s with
  | nil => exact ⟨[], .nil, rfl⟩
  | cons e es ih =>
    obtain ⟨he, hes⟩ := h
    obtain ⟨hI, e', hR, heq⟩ := hstep s e hs he
    obtain ⟨es', hRs, hrun⟩ := ih hI hes
    refine ⟨e' :: es', .cons hR hRs, ?_⟩
    simp only [run, heq, hrun, List.filterMap_append]

end

end Trace
