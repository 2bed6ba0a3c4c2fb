import Mathlib.Tactic.Common

/-! # Machines

A loop that nothing bounds: a step leads to the next state, or is done and gives a result. `Finishes` is a run that ends, and `run` its
first steps. A machine ends from every state when a measure gets smaller (`eval`); and it ends exactly outside of the states in which
it is caught, when the steps neither enter nor leave these (`ends_iff`). A machine may call another one for each of its steps
(`calling`); the calls of a run that ends are a list (`Calls`). -/

namespace Machine

/-- What a step does. -/
inductive Step (σ ρ : Type)
  | next (s : σ)
  | done (r : ρ)

variable {σ ρ : Type}

section Single
variable {step : σ → Step σ ρ} {s s' : σ} {r r' : ρ}

/-- What a machine gives within a number of steps. -/
def run (step : σ → Step σ ρ) : Nat → σ → Option ρ
  | 0, _ => none
  | n + 1, s =>
    match step s with
    | .next s => run step n s
    | .done r => some r

inductive Finishes (step : σ → Step σ ρ) : σ → ρ → Prop
  | next {s s' : σ} {r : ρ} : step s = .next s' → Finishes step s' r → Finishes step s r
  | done {s : σ} {r : ρ} : step s = .done r → Finishes step s r

/-- The run from `s` ends. -/
def Ends (step : σ → Step σ ρ) (s : σ) : Prop := ∃ r, Finishes step s r

theorem finishes_next_iff (h : step s = .next s') : Finishes step s r ↔ Finishes step s' r := by
  constructor
  · rintro (⟨h', hr⟩ | h')
    · cases h.symm.trans h'
      exact hr
    · cases h.symm.trans h'
  · exact .next h

theorem finishes_done_iff (h : step s = .done r') : Finishes step s r ↔ r' = r := by
  constructor
  · rintro (⟨h', -⟩ | h')
    · cases h.symm.trans h'
    · cases h.symm.trans h'
      rfl
  · rintro rfl
    exact .done h

/-- Only the first step tells the states apart. -/
theorem finishes_congr (h : step s = step s') : Finishes step s r ↔ Finishes step s' r := by
  cases hs : step s' with
  | next t => rw [finishes_next_iff hs, finishes_next_iff (h.trans hs)]
  | done t => rw [finishes_done_iff hs, finishes_done_iff (h.trans hs)]

theorem Finishes.unique (h : Finishes step s r) (h' : Finishes step s r') : r = r' := by
  induction h with
  | next hs _ ih => exact ih ((finishes_next_iff hs).mp h')
  | done hs => exact (finishes_done_iff hs).mp h'

theorem finishes_iff_run : Finishes step s r ↔ ∃ n, run step n s = some r := by
  constructor
  · intro h
    induction h with
    | next hs _ ih =>
      obtain ⟨n, hn⟩ := ih
      exact ⟨n + 1, by rw [run, hs]; exact hn⟩
    | done hs => exact ⟨1, by rw [run, hs]⟩
  · rintro ⟨n, hn⟩
    induction n generalizing s with
    | zero => cases hn
    | succ n ih =>
      rw [run] at hn
      cases hs : step s with
      | next t =>
        rw [hs] at hn
        exact .next hs (ih hn)
      | done t =>
        rw [hs] at hn
        exact .done (hs.trans (congrArg Step.done (Option.some.inj hn)))

/-- What the steps keep holds of the state in front of the last one. -/
theorem Finishes.invariant {I : σ → Prop} (hI : I s) (hnext : ∀ s s', I s → step s = .next s' → I s') (h : Finishes step s r) :
    ∃ t, I t ∧ step t = .done r := by
  induction h with
  | next hs _ ih => exact ih (hnext _ _ hI hs)
  | done hs => exact ⟨_, hI, hs⟩

/-- A machine that is never done in the states of `T`, which it neither enters nor leaves, and gets nearer to its end in the others. -/
theorem ends_iff {T : σ → Prop} {μ : σ → Nat} (hdone : ∀ s r, step s = .done r → ¬T s)
    (hnext : ∀ s s', step s = .next s' → (T s' ↔ T s)) (hμ : ∀ s s', step s = .next s' → ¬T s → μ s' < μ s) (s : σ) :
    Ends step s ↔ ¬T s := by
  constructor
  · rintro ⟨r, h⟩
    induction h with
    | next hs _ ih => exact fun ht => ih ((hnext _ _ hs).mpr ht)
    | done hs => exact hdone _ _ hs
  · intro h
    induction hn : μ s using Nat.strongRecOn generalizing s with
    | ind n ih =>
      cases hs : step s with
      | next s' =>
        obtain ⟨r, hr⟩ := ih (μ s') (hn ▸ hμ s s' hs h) s' (fun ht => h ((hnext s s' hs).mp ht)) rfl
        exact ⟨r, .next hs hr⟩
      | done r => exact ⟨r, .done hs⟩

theorem run_isSome {μ : σ → Nat} (hμ : ∀ s s', step s = .next s' → μ s' < μ s) {n : Nat} (hn : μ s < n) :
    (run step n s).isSome = true := by
  induction n generalizing s with
  | zero => exact absurd hn (Nat.not_lt_zero _)
  | succ n ih =>
    rw [run]
    cases hs : step s with
    | next s' => exact ih (by have := hμ s s' hs; omega)
    | done r => rfl

/-- The result of a machine that ends from every state. -/
def eval (step : σ → Step σ ρ) (μ : σ → Nat) (hμ : ∀ s s', step s = .next s' → μ s' < μ s) (s : σ) : ρ :=
  (run step (μ s + 1) s).get (run_isSome hμ (Nat.lt_succ_self _))

theorem eval_eq_iff {μ : σ → Nat} (hμ : ∀ s s', step s = .next s' → μ s' < μ s) : eval step μ hμ s = r ↔ Finishes step s r := by
  have heval : Finishes step s (eval step μ hμ s) := finishes_iff_run.mpr ⟨_, (Option.some_get _).symm⟩
  exact ⟨fun h => h ▸ heval, fun h => heval.unique h⟩

end Single

section Calling
variable {τ ρ' : Type} {inner : σ → Step σ ρ} {after : τ → ρ → Step (τ × σ) ρ'} {c c' : τ × σ} {s s' : σ} {t : τ} {v : ρ} {r : ρ'}

/-- A machine that goes on after each call of another one. -/
def calling (inner : σ → Step σ ρ) (after : τ → ρ → Step (τ × σ) ρ') (c : τ × σ) : Step (τ × σ) ρ' :=
  match inner c.2 with
  | .next s => .next (c.1, s)
  | .done v => after c.1 v

/-- The results of the calls of a run. -/
inductive Calls (inner : σ → Step σ ρ) (after : τ → ρ → Step (τ × σ) ρ') : τ × σ → List ρ → ρ' → Prop
  | last {c : τ × σ} {v : ρ} {r : ρ'} : Finishes inner c.2 v → after c.1 v = .done r → Calls inner after c [v] r
  | more {c c' : τ × σ} {v : ρ} {vs : List ρ} {r : ρ'} : Finishes inner c.2 v → after c.1 v = .next c' → Calls inner after c' vs r →
    Calls inner after c (v :: vs) r

/-- The calls of a run with at most so many of them, of so many steps each. -/
def trace (inner : σ → Step σ ρ) (after : τ → ρ → Step (τ × σ) ρ') (steps : Nat) : Nat → τ × σ → Option (List ρ × ρ')
  | 0, _ => none
  | n + 1, c =>
    match run inner steps c.2 with
    | none => none
    | some v =>
      match after c.1 v with
      | .next c => (trace inner after steps n c).map fun t => (v :: t.1, t.2)
      | .done r => some ([v], r)

/-- The calls that are reached. -/
inductive Reaches (inner : σ → Step σ ρ) (after : τ → ρ → Step (τ × σ) ρ') : τ × σ → τ × σ → Prop
  | refl (c : τ × σ) : Reaches inner after c c
  | step {c c' c'' : τ × σ} {v : ρ} : Finishes inner c.2 v → after c.1 v = .next c' → Reaches inner after c' c'' →
    Reaches inner after c c''

theorem calling_next (h : inner s = .next s') : calling inner after (t, s) = .next (t, s') := by
  rw [calling, h]

theorem calling_done (h : inner s = .done v) : calling inner after (t, s) = after t v := by
  rw [calling, h]

/-- A run goes on as what follows its first call. -/
theorem finishes_calling_next (h : Finishes inner s v) (hafter : after t v = .next c') :
    Finishes (calling inner after) (t, s) r ↔ Finishes (calling inner after) c' r := by
  induction h with
  | next hs _ ih => exact (finishes_next_iff (calling_next hs)).trans (ih hafter)
  | done hs => exact finishes_next_iff ((calling_done hs).trans hafter)

theorem finishes_calling_done (h : Finishes inner s v) (hafter : after t v = .done r) : Finishes (calling inner after) (t, s) r := by
  induction h with
  | next hs _ ih => exact .next (calling_next hs) (ih hafter)
  | done hs => exact .done ((calling_done hs).trans hafter)

/-- The run that starts in a call ends as its calls say. -/
theorem finishes_calling_iff : Finishes (calling inner after) c r ↔ ∃ vs, Calls inner after c vs r := by
  constructor
  · intro h
    induction h with
    | @next c c' r hc _ ih =>
      obtain ⟨vs, hvs⟩ := ih
      cases hs : inner c.2 with
      | next s =>
        rw [calling, hs] at hc
        cases hc
        cases hvs with
        | last hv hafter => exact ⟨_, .last (.next hs hv) hafter⟩
        | more hv hafter hvs => exact ⟨_, .more (.next hs hv) hafter hvs⟩
      | done v =>
        rw [calling, hs] at hc
        exact ⟨_, .more (.done hs) hc hvs⟩
    | @done c r hc =>
      cases hs : inner c.2 with
      | next s =>
        rw [calling, hs] at hc
        cases hc
      | done v =>
        rw [calling, hs] at hc
        exact ⟨_, .last (.done hs) hc⟩
  · rintro ⟨vs, h⟩
    induction h with
    | last hv hafter => exact finishes_calling_done hv hafter
    | more hv hafter _ ih => exact (finishes_calling_next hv hafter).mpr ih

theorem calls_of_trace {steps n : Nat} {vs : List ρ} (h : trace inner after steps n c = some (vs, r)) : Calls inner after c vs r := by
  induction n generalizing c vs with
  | zero => cases h
  | succ n ih =>
    rw [trace] at h
    cases hrun : run inner steps c.2 with
    | none =>
      rw [hrun] at h
      cases h
    | some v =>
      have hv : Finishes inner c.2 v := finishes_iff_run.mpr ⟨steps, hrun⟩
      rw [hrun] at h
      dsimp only at h
      cases hnext : after c.1 v with
      | next c' =>
        rw [hnext] at h
        obtain ⟨⟨vs', r'⟩, htrace, heq⟩ := Option.map_eq_some_iff.mp h
        cases heq
        exact .more hv hnext (ih htrace)
      | done r' =>
        rw [hnext] at h
        cases h
        exact .last hv hnext

/-- What the calls keep holds of those that are reached. -/
theorem Reaches.invariant {I : τ × σ → Prop} (hI : I c) (hafter : ∀ c c' v, I c → Finishes inner c.2 v → after c.1 v = .next c' → I c')
    (h : Reaches inner after c c') : I c' := by
  induction h with
  | refl c => exact hI
  | step hv hnext _ ih => exact ih (hafter _ _ _ hI hv hnext)

/-- A run ends when its calls do, if each of them leaves less to do. -/
theorem ends_calling_iff {I : τ × σ → Prop} {μ : τ × σ → Nat} (hI : I c)
    (hafter : ∀ c c' v, I c → Finishes inner c.2 v → after c.1 v = .next c' → I c' ∧ μ c' < μ c) :
    Ends (calling inner after) c ↔ ∀ c', Reaches inner after c c' → Ends inner c'.2 := by
  constructor
  · rintro ⟨r, hr⟩ c' hreach
    induction hreach with
    | refl c =>
      obtain ⟨vs, hvs⟩ := finishes_calling_iff.mp hr
      cases hvs with
      | last hv _ => exact ⟨_, hv⟩
      | more hv _ _ => exact ⟨_, hv⟩
    | step hv hnext _ ih => exact ih (hafter _ _ _ hI hv hnext).1 ((finishes_calling_next hv hnext).mp hr)
  · intro h
    induction hn : μ c using Nat.strongRecOn generalizing c with
    | ind n ih =>
      obtain ⟨v, hv⟩ := h c (.refl c)
      cases hnext : after c.1 v with
      | next c' =>
        obtain ⟨hI', hlt⟩ := hafter c c' v hI hv hnext
        obtain ⟨r, hr⟩ := ih (μ c') (hn ▸ hlt) hI' (fun c'' hreach => h c'' (.step hv hnext hreach)) rfl
        exact ⟨r, (finishes_calling_next hv hnext).mpr hr⟩
      | done r => exact ⟨r, finishes_calling_done hv hnext⟩

end Calling

end Machine
