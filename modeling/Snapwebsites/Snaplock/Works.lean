import Snapwebsites.Lib.Loops
import Snapwebsites.Snaplock.Bakery

/-! # What the work on tickets consists of

The methods of tickets call each other, with one leader from `entering()` to the LOCKED of whichever ticket comes first. All
they do are a few kinds of steps (`Works`): what these keep, the methods keep. -/

namespace Snapwebsites
open QString

/-- A message to the client of a ticket. -/
def LockCommand.isReply : LockCommand → Bool
  | .locked .. | .unlocked .. | .lockFailed .. => true
  | _ => false

/-- What the way of a ticket through the bakery does not change. -/
structure SnaplockTicket.Onward (t t' : SnaplockTicket) : Prop where
  tag : t'.tag = t.tag
  serial : t'.serial = t.serial
  locked : t'.locked = t.locked
  lockFailed : t'.lockFailed = t.lockFailed

namespace Snaplock

/-- Steps that lead from one state to another. -/
inductive Works (now : Int) : Snaplock → Snaplock → Prop
  | refl (s : Snaplock) : Works now s s
  | trans {s t u : Snaplock} : Works now s t → Works now t u → Works now s u
  | leaders {s : Snaplock} (l : List (LockMessage LockCommand)) : (∀ m ∈ l, m.payload.isReply = false) →
      Works now s { s with sent := s.sent ++ l }
  | tables {s : Snaplock} (enteringTickets tickets : SortedMap QString (SortedMap QString Nat)) :
      Works now s { s with enteringTickets, tickets }
  | ticket {s : Snaplock} {p : Nat} {t : SnaplockTicket} : (s.ticket p).Onward t → Works now s (s.setTicket p t)
  | lockFailed {s : Snaplock} (p : Nat) : Works now s (s.lockFailed p)
  | lockActivated {s : Snaplock} (p : Nat) : Works now s (s.lockActivated now p)
  | cache {s : Snaplock} : Works now s (s.cleanupCache now)

section Works
variable {now : Int} {s s' : Snaplock} {p : Nat} {objectName key : QString}

theorem works_foldlM {α : Type} {f : Snaplock → α → Option Snaplock} (hf : ∀ s a t, f s a = some t → Works now s t) {l : List α}
    (h : l.foldlM f s = some s') : Works now s s' :=
  foldlM_keeps (Works now) .refl .trans hf h

theorem works_foldl {α : Type} {f : Snaplock → α → Snaplock} (hf : ∀ s a, Works now s (f s a)) {l : List α} : Works now s (l.foldl f s) :=
  foldl_keeps (Works now) .refl .trans hf

/-! ### Sending -/

theorem sendMessageToLeaders_sent {tag : Nat} {payload : LockCommand} {wait : Bool}
    (h : s.sendMessageToLeaders tag payload = some (s', wait)) :
    ∃ l, (∀ m ∈ l, m.payload = payload) ∧ s' = { s with sent := s.sent ++ l } := by
  unfold sendMessageToLeaders at h
  obtain ⟨a, ha, h⟩ := Option.bind_eq_some_iff.mp h
  cases a with
  | none =>
    cases h
    exact ⟨[], fun m hm => absurd hm List.not_mem_nil, by rw [List.append_nil]⟩
  | some a =>
    obtain ⟨b, hb, h⟩ := Option.bind_eq_some_iff.mp h
    cases b with
    | none =>
      cases h
      refine ⟨_, fun m hm => ?_, rfl⟩
      rw [List.mem_singleton.mp hm]
    | some b =>
      cases h
      refine ⟨_, fun m hm => ?_, congrArg (fun l => { s with sent := l }) (List.append_assoc ..)⟩
      rcases List.mem_cons.mp hm with rfl | hm
      · rfl
      · rw [List.mem_singleton.mp hm]

theorem works_sendMessageToLeaders {tag : Nat} {payload : LockCommand} {wait : Bool} (hpayload : payload.isReply = false)
    (h : s.sendMessageToLeaders tag payload = some (s', wait)) : Works now s s' := by
  obtain ⟨l, hl, rfl⟩ := sendMessageToLeaders_sent h
  exact .leaders l fun m hm => by rw [hl m hm, hpayload]

theorem works_putTickets (table : SortedMap QString Nat) : Works now s (s.putTickets objectName table) := .tables _ _

theorem works_putEntering (table : SortedMap QString Nat) : Works now s (s.putEntering objectName table) := .tables _ _

/-! ### Timeouts and the activation -/

theorem works_sweep : ∀ {l : List (QString × Nat)} {s : Snaplock} {table : SortedMap QString Nat}, Works now s (sweep now l (s, table)).1
  | [], s, _ => .refl s
  | e :: l, s, table => by
    unfold sweep
    split
    · dsimp only
      split <;> exact .trans (.lockFailed e.2) works_sweep
    · exact works_sweep

theorem works_activateLock (h : s.activateLock now p = some s') : Works now s s' := by
  unfold activateLock at h
  dsimp only at h
  split at h
  · obtain ⟨⟨u, wait⟩, hu, h⟩ := Option.bind_eq_some_iff.mp h
    have hsu : Works now s u := works_sendMessageToLeaders rfl hu
    dsimp only at h
    split at h
    · cases h
      exact hsu
    · cases h
      exact hsu.trans (.lockActivated p)
  · cases h
    exact .refl s

theorem works_findFirstLock : Works now s (s.findFirstLock now objectName).1 := by
  unfold findFirstLock
  split
  · exact .refl s
  · exact works_sweep.trans (works_putTickets _)

theorem works_activateFirstLock (h : s.activateFirstLock now objectName = some s') : Works now s s' := by
  have hfind := @works_findFirstLock now s objectName
  unfold activateFirstLock at h
  split at h <;> rename_i hr <;> rw [hr] at hfind
  · exact hfind.trans (works_activateLock h)
  · cases h
    exact hfind

theorem works_cleanupTickets (h : s.cleanupTickets now objectName = some s') : Works now s s' := by
  unfold cleanupTickets at h
  dsimp only at h
  split at h
  · exact (works_sweep.trans (works_putTickets _)).trans (works_activateFirstLock h)
  · cases h
    exact works_sweep.trans (works_putTickets _)

theorem works_cleanupEntering : Works now s (s.cleanupEntering now objectName) := works_sweep.trans (works_putEntering _)

theorem works_cleanup (h : s.cleanup now = some s') : Works now s s' := by
  obtain ⟨t, ht, h⟩ := Option.bind_eq_some_iff.mp h
  cases h
  exact .trans .cache ((works_foldlM (fun _ _ _ h => works_cleanupTickets h) ht).trans (works_foldl fun _ _ => works_cleanupEntering))

/-! ### The way of a ticket -/

theorem works_removeEntering (h : s.removeEntering now p key = some s') : Works now s s' := by
  unfold removeEntering at h
  dsimp only at h
  split at h
  · split at h
    · obtain ⟨⟨u, wait⟩, hu, h⟩ := Option.bind_eq_some_iff.mp h
      cases h
      refine .trans ?_ (works_sendMessageToLeaders rfl hu)
      exact .ticket ⟨rfl, rfl, rfl, rfl⟩
    · cases h
      exact .ticket ⟨rfl, rfl, rfl, rfl⟩
  · cases h
    exact .refl s

theorem works_exit {m : KeyParameters} (h : s.exit now m = some s') : Works now s s' := by
  unfold exit at h
  dsimp only at h
  obtain ⟨t, ht, h⟩ := Option.bind_eq_some_iff.mp h
  obtain ⟨u, hu, h⟩ := Option.bind_eq_some_iff.mp h
  cases h
  have hst := works_foldlM (fun _ _ _ h => works_removeEntering h) ht
  have htu : Works now t u := by
    split at hu
    · cases hu
      exact .refl t
    · exact works_activateFirstLock hu
  exact .trans (.tables _ _) ((hst.trans htu).trans (works_putEntering _))

theorem works_msgLockExiting {m : KeyParameters} (h : s.msgLockExiting now m = some s') : Works now s s' := by
  unfold msgLockExiting at h
  split at h
  · cases h
  · obtain ⟨t, ht, h⟩ := Option.bind_eq_some_iff.mp h
    have hst : Works now s t := by
      split at ht
      · exact works_exit ht
      · cases ht
        exact .refl s
    exact hst.trans (works_cleanup h)

theorem works_ticketAdded {stillEntering : SortedMap QString Nat} (h : s.ticketAdded now p stillEntering = some s') : Works now s s' := by
  unfold ticketAdded at h
  dsimp only at h
  split at h
  · cases h
    exact .refl s
  · obtain ⟨⟨u, wait⟩, hu, h⟩ := Option.bind_eq_some_iff.mp h
    refine .trans ?_ ((works_sendMessageToLeaders rfl hu).trans (works_msgLockExiting h))
    exact .ticket ⟨rfl, rfl, rfl, rfl⟩

theorem works_addTicket {ourTicket : UInt32} (h : s.addTicket now p ourTicket = some s') : Works now s s' := by
  unfold addTicket at h
  dsimp only at h
  obtain ⟨⟨u, wait⟩, hu, h⟩ := Option.bind_eq_some_iff.mp h
  have hset : Works now s (s.setTicket p ((s.ticket p).setTicketNumber ourTicket)) := .ticket ⟨rfl, rfl, rfl, rfl⟩
  have hsu : Works now s u := hset.trans (.trans (.tables _ _) (works_sendMessageToLeaders rfl hu))
  dsimp only at h
  split at h
  · cases h
    exact hsu
  · exact hsu.trans (works_ticketAdded h)

theorem works_maxTicket {newMaxTicket : Int} (h : s.maxTicket now p newMaxTicket = some s') : Works now s s' := by
  unfold maxTicket at h
  split at h
  · cases h
    exact .refl s
  · exact works_addTicket h

theorem works_entered (h : s.entered now p = some s') : Works now s s' := by
  unfold entered at h
  dsimp only at h
  split at h
  · cases h
    exact .refl s
  · obtain ⟨⟨u, wait⟩, hu, h⟩ := Option.bind_eq_some_iff.mp h
    have hsu : Works now s u := by
      refine .trans ?_ (works_sendMessageToLeaders rfl hu)
      exact .ticket ⟨rfl, rfl, rfl, rfl⟩
    dsimp only at h
    split at h
    · cases h
      exact hsu
    · exact hsu.trans (works_maxTicket h)

theorem works_entering (h : s.entering now p = some s') : Works now s s' := by
  unfold entering at h
  obtain ⟨⟨u, wait⟩, hu, h⟩ := Option.bind_eq_some_iff.mp h
  have hsu : Works now s u := works_sendMessageToLeaders rfl hu
  dsimp only at h
  split at h
  · cases h
    exact hsu
  · exact hsu.trans (works_entered h)

end Works

end Snaplock
end Snapwebsites
