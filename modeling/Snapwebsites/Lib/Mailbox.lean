import Mathlib.Data.List.Basic
import Mathlib.Tactic.Common
import Snapwebsites.Lib.Trace

/-! # Mailboxes

Messages to a receiver that comes and goes. While the box is open a message is handed over as it comes; otherwise it waits
until its deadline. All that waits is handed over when the receiver fetches it, whether the box is open then or not. What has
been handed over is, in its order, a part of what has come (`run_sublist`), and what has waited is handed over when it is
fetched, unless its deadline has passed (`run_waiting`). -/

structure Mailbox (α : Type) where
  isOpen : Bool
  waiting : List (Int × α)

namespace Mailbox
variable {α : Type}

inductive Event (α : Type)
  /-- A message that comes, how long it may wait, if at all, and whether the receiver takes it when the box is open. -/
  | put (a : α) (deadline : Option Int) (takes : Bool)
  | fetch (now : Int) (opens : Bool)
  | expire (now : Int) (stays : Bool)
  | leave (stays : Bool)

def alive (now : Int) (l : List (Int × α)) : List (Int × α) := l.filter fun m => decide (now ≤ m.1)

/-- What becomes of the box, and what is handed over. -/
def step (s : Mailbox α) : Event α → Mailbox α × List α
  | .put a deadline takes =>
    if s.isOpen then (s, if takes then [a] else [])
    else ({ s with waiting := s.waiting ++ deadline.toList.map fun t => (t, a) }, [])
  | .fetch now opens => ({ isOpen := opens, waiting := [] }, (alive now s.waiting).map Prod.snd)
  | .expire now stays => ({ isOpen := s.isOpen && stays, waiting := alive now s.waiting }, [])
  | .leave stays => ({ s with isOpen := s.isOpen && stays }, [])

/-- The box after the events, and what they have handed over. -/
def run (s : Mailbox α) (es : List (Event α)) : Mailbox α × List α := Trace.run step s es

def Event.message : Event α → Option α
  | .put a _ _ => some a
  | _ => none

/-- The clock that lets messages expire. -/
def Event.clock : Event α → Option Int
  | .expire now _ => some now
  | _ => none

def Event.isFetch : Event α → Bool
  | .fetch _ _ => true
  | _ => false

/-- Nothing waits in an open box. -/
def Settled (s : Mailbox α) : Prop := s.isOpen = true → s.waiting = []

variable {s : Mailbox α} {e : Event α} {es : List (Event α)}

theorem run_cons : s.run (e :: es) = (((s.step e).1.run es).1, (s.step e).2 ++ ((s.step e).1.run es).2) := rfl

theorem alive_sublist (now : Int) (l : List (Int × α)) : (alive now l).Sublist l := List.filter_sublist

theorem Settled.step (h : Settled s) : Settled (s.step e).1 := by
  cases e with
  | put a deadline takes =>
    cases hopen : s.isOpen with
    | true => simpa [Mailbox.step, hopen] using h
    | false => simp [Mailbox.step, Settled, hopen]
  | fetch now opens => exact fun _ => rfl
  | expire now stays =>
    intro hopen
    simp only [Mailbox.step, Bool.and_eq_true] at hopen
    simp [Mailbox.step, h hopen.1, alive]
  | leave stays =>
    intro hopen
    simp only [Mailbox.step, Bool.and_eq_true] at hopen
    exact h hopen.1

/-- What is handed over and what waits afterwards is, in this order, a part of what waited and what has come. -/
theorem step_sublist (h : Settled s) : ((s.step e).2 ++ (s.step e).1.waiting.map Prod.snd).Sublist
    (s.waiting.map Prod.snd ++ e.message.toList) := by
  cases e with
  | put a deadline takes =>
    cases hopen : s.isOpen with
    | true => cases takes <;> simp [step, hopen, h hopen, Event.message]
    | false => cases deadline <;> simp [step, hopen, Event.message]
  | fetch now opens => simpa [step, Event.message] using (alive_sublist now s.waiting).map Prod.snd
  | expire now stays => simpa [step, Event.message] using (alive_sublist now s.waiting).map Prod.snd
  | leave stays => simp [step, Event.message]

theorem run_sublist (es : List (Event α)) (h : Settled s) : (s.run es).2.Sublist (s.waiting.map Prod.snd ++ es.filterMap Event.message) := by
  induction es generalizing s with
  | nil => exact List.nil_sublist _
  | cons e es ih =>
    have hrest := ih (h.step (e := e))
    have hstep := step_sublist (e := e) h
    have hmessages : (e :: es).filterMap Event.message = e.message.toList ++ es.filterMap Event.message := by
      cases hm : e.message <;> simp [hm]
    rw [run_cons, hmessages, ← List.append_assoc]
    exact (hrest.append_left _).trans (by
      rw [← List.append_assoc]
      exact hstep.append_right _)

/-- Without a fetch, what waited still waits unless it has expired, in front of what has come since. -/
theorem run_waiting (h : ∀ e ∈ es, e.isFetch = false) : ∃ new : List (Int × α),
    (s.run es).1.waiting = (s.waiting.filter fun m => (es.filterMap Event.clock).all fun now => decide (now ≤ m.1)) ++ new ∧
      (new.map Prod.snd).Sublist (es.filterMap Event.message) := by
  induction es generalizing s with
  | nil => exact ⟨[], by simp [run, Trace.run], by simp⟩
  | cons e es ih =>
    obtain ⟨new, hnew, hsub⟩ := ih (s := (s.step e).1) fun e he => h e (List.mem_cons_of_mem _ he)
    rw [run_cons, hnew]
    cases e with
    | put a deadline takes =>
      cases hopen : s.isOpen with
      | true => exact ⟨new, by simp [step, hopen, Event.clock], by simpa [Event.message] using hsub.trans (List.sublist_cons_self _ _)⟩
      | false =>
        refine ⟨((deadline.toList.map fun t => (t, a)).filter fun m =>
          (es.filterMap Event.clock).all fun now => decide (now ≤ m.1)) ++ new, by simp [step, hopen, Event.clock], ?_⟩
        have hfirst : (((deadline.toList.map fun t => (t, a)).filter fun m =>
            (es.filterMap Event.clock).all fun now => decide (now ≤ m.1)).map Prod.snd).Sublist [a] := by
          refine (List.filter_sublist.map Prod.snd).trans ?_
          cases deadline <;> simp
        rw [List.map_append]
        exact hfirst.append hsub
    | fetch now opens =>
      have hfetch := h _ List.mem_cons_self
      cases hfetch
    | expire now stays =>
      refine ⟨new, ?_, hsub⟩
      simp [step, alive, Event.clock, List.filter_filter, Bool.and_comm]
    | leave stays => exact ⟨new, by simp [step, Event.clock], hsub⟩

/-- What waited is handed over by the next fetch unless it has expired, in front of what has come since. -/
theorem fetch_after_run (h : ∀ e ∈ es, e.isFetch = false) (now : Int) (opens : Bool) : ∃ new : List α,
    ((s.run es).1.step (.fetch now opens)).2 =
      (s.waiting.filter fun m => (es.filterMap Event.clock ++ [now]).all fun now => decide (now ≤ m.1)).map Prod.snd ++ new ∧
      new.Sublist (es.filterMap Event.message) := by
  obtain ⟨new, hnew, hsub⟩ := run_waiting (s := s) h
  refine ⟨(alive now new).map Prod.snd, ?_, ((alive_sublist now new).map Prod.snd).trans hsub⟩
  simp [step, alive, hnew, List.filter_filter, Bool.and_comm]

end Mailbox
