import Mathlib.Data.List.Pairwise
import Snapwebsites.Snaplock.Cache

/-! # The replies to the client of a ticket

LOCKED, LOCKFAILED and UNLOCKED. The flags of a ticket are only ever set, also by `unserialize()`, and they say which of the
replies may still go out (`Replies`). Replies are told apart by the tags of their tickets, which no code reads. -/

namespace Snapwebsites
open QString

/-! ### What is shown -/

namespace LockCommand

def isLocked : LockCommand → Bool
  | .locked .. => true
  | _ => false

def isLockFailed : LockCommand → Bool
  | .lockFailed .. => true
  | _ => false

/-- A reply that ends the lock. -/
def isEnd : LockCommand → Bool
  | .lockFailed .. | .unlocked .. => true
  | _ => false

end LockCommand

/-- What the client of one ticket may hear. -/
structure Disciplined (r : List LockCommand) : Prop where
  locked : r.countP LockCommand.isLocked ≤ 1
  ended : r.countP LockCommand.isEnd ≤ 1
  notLocked : r.Pairwise fun a b => a.isEnd = true → b.isLocked = false
  notFailed : r.Pairwise fun a b => a.isLocked = true → b.isLockFailed = false

/-- A call of a method of a ticket. -/
inductive TicketCall
  | entered
  | maxTicket (newMaxTicket : Int)
  | ticketAdded (stillEntering : SortedMap QString Nat)
  | removeEntering (key : QString)
  | setReady
  | activateLock
  | lockActivated
  | lockFailed
  | dropTicket
  | unserialize (data : QString)

namespace Snaplock

/-- The call at the ticket `p`. -/
def call (now : Int) (s : Snaplock) (p : Nat) : TicketCall → Option Snaplock
  | .entered => s.entered now p
  | .maxTicket newMaxTicket => s.maxTicket now p newMaxTicket
  | .ticketAdded stillEntering => s.ticketAdded now p stillEntering
  | .removeEntering key => s.removeEntering now p key
  | .setReady => some (s.setTicket p { s.ticket p with ticketReady := true })
  | .activateLock => s.activateLock now p
  | .lockActivated => some (s.lockActivated now p)
  | .lockFailed => some (s.lockFailed p)
  | .dropTicket => s.dropTicket p
  | .unserialize data => some (s.setTicket p ((s.ticket p).unserialize data))

/-- The replies among the messages that are about the ticket with the tag. -/
def repliesTo (tag : Nat) (l : List (LockMessage LockCommand)) : List LockCommand :=
  (l.filter fun m => decide (m.tag = tag) && m.payload.isReply).map LockMessage.payload

/-- No other ticket and no request in the cache has the tag of the ticket. -/
structure OwnTag (s : Snaplock) (p : Nat) : Prop where
  ticket : ∀ q ≠ p, (s.ticket q).tag ≠ (s.ticket p).tag
  messageCache : ∀ c ∈ s.messageCache, c.message.tag ≠ (s.ticket p).tag

/-- What the daemon does between two calls of methods of the ticket: anything that leaves the ticket alone. -/
structure Elsewhere (p : Nat) (s s' : Snaplock) : Prop where
  ticket : s'.ticket p = s.ticket p
  sent : ∃ l, s'.sent = s.sent ++ l ∧ repliesTo (s.ticket p).tag l = []
  ownTag : s'.OwnTag p

/-- Calls of the methods of a ticket, at any times. -/
inductive TicketCalls (p : Nat) (s : Snaplock) : Snaplock → Prop
  | start : TicketCalls p s s
  | call {t u : Snaplock} (now : Int) (c : TicketCall) : TicketCalls p s t → t.call now p c = some u → TicketCalls p s u
  | elsewhere {t u : Snaplock} : TicketCalls p s t → Elsewhere p t u → TicketCalls p s u

end Snaplock

/-! ### The flags and the replies -/

/-- From the flags `locked` and `failed` to others, with the replies in between. -/
inductive Replies : Bool → Bool → List LockCommand → Bool → Bool → Prop
  | silent {locked failed locked' failed' : Bool} : (locked = true → locked' = true) → (failed = true → failed' = true) →
      Replies locked failed [] locked' failed'
  | locked (objectName : QString) (timeoutDate : Int) : Replies false false [.locked objectName timeoutDate] true false
  | lockFailed (objectName : QString) (key : Option QString) (error : QString) :
      Replies false false [.lockFailed objectName key error] false true
  | unlocked {locked : Bool} (objectName : QString) (error : Option QString) : Replies locked false [.unlocked objectName error] locked true
  | trans {l f l' f' l'' f'' : Bool} {r r' : List LockCommand} : Replies l f r l' f' → Replies l' f' r' l'' f'' →
      Replies l f (r ++ r') l'' f''

section Replies
variable {l f l' f' : Bool} {r : List LockCommand}

theorem Replies.refl : Replies l f [] l f := .silent id id

/-- The flags stay set. -/
theorem Replies.mono (h : Replies l f r l' f') : (l = true → l' = true) ∧ (f = true → f' = true) := by
  induction h with
  | silent hl hf => exact ⟨hl, hf⟩
  | locked => exact ⟨fun _ => rfl, id⟩
  | lockFailed => exact ⟨id, fun _ => rfl⟩
  | unlocked => exact ⟨id, fun _ => rfl⟩
  | trans _ _ ih ih' => exact ⟨ih'.1 ∘ ih.1, ih'.2 ∘ ih.2⟩

/-- LOCKED sets the one flag, the end of the lock the other. -/
theorem Replies.sets (h : Replies l f r l' f') :
    ((∃ m ∈ r, m.isLocked = true) → l' = true) ∧ ((∃ m ∈ r, m.isEnd = true) → f' = true) := by
  induction h with
  | silent => simp
  | locked => exact ⟨fun _ => rfl, by simp [LockCommand.isEnd]⟩
  | lockFailed => exact ⟨by simp [LockCommand.isLocked], fun _ => rfl⟩
  | unlocked => exact ⟨by simp [LockCommand.isLocked], fun _ => rfl⟩
  | trans _ h' ih ih' =>
    constructor
    · rintro ⟨m, hm, hlocked⟩
      rcases List.mem_append.mp hm with hm | hm
      · exact h'.mono.1 (ih.1 ⟨m, hm, hlocked⟩)
      · exact ih'.1 ⟨m, hm, hlocked⟩
    · rintro ⟨m, hm, hend⟩
      rcases List.mem_append.mp hm with hm | hm
      · exact h'.mono.2 (ih.2 ⟨m, hm, hend⟩)
      · exact ih'.2 ⟨m, hm, hend⟩

/-- A ticket that failed is silent. -/
theorem Replies.failed (h : Replies l f r l' f') : f = true → r = [] := by
  induction h with
  | silent => exact fun _ => rfl
  | locked => exact nofun
  | lockFailed => exact nofun
  | unlocked => exact nofun
  | trans h _ ih ih' => exact fun hf => by rw [ih hf, ih' (h.mono.2 hf), List.append_nil]

/-- Nor does a ticket that is locked say so again, or that it failed. -/
theorem Replies.wasLocked (h : Replies l f r l' f') : l = true → ∀ m ∈ r, m.isLocked = false ∧ m.isLockFailed = false := by
  induction h with
  | silent => exact fun _ m hm => absurd hm List.not_mem_nil
  | locked => exact nofun
  | lockFailed => exact nofun
  | unlocked => exact fun _ m hm => by rw [List.mem_singleton.mp hm]; exact ⟨rfl, rfl⟩
  | trans h _ ih ih' =>
    intro hl m hm
    rcases List.mem_append.mp hm with hm | hm
    · exact ih hl m hm
    · exact ih' (h.mono.1 hl) m hm

theorem Disciplined.one (m : LockCommand) : Disciplined [m] :=
  ⟨List.countP_le_length, List.countP_le_length, List.pairwise_singleton _ _, List.pairwise_singleton _ _⟩

theorem Replies.disciplined (h : Replies l f r l' f') : Disciplined r := by
  induction h with
  | silent => exact ⟨Nat.zero_le 1, Nat.zero_le 1, .nil, .nil⟩
  | locked => exact .one _
  | lockFailed => exact .one _
  | unlocked => exact .one _
  | @trans l f l' f' l'' f'' r r' h h' ih ih' =>
    by_cases hend : ∃ m ∈ r, m.isEnd = true
    · rw [h'.failed (h.sets.2 hend), List.append_nil]
      exact ih
    · have hnone : ∀ m ∈ r, m.isEnd = false := fun m hm => Bool.eq_false_iff.mpr fun hm' => hend ⟨m, hm, hm'⟩
      have hcount : r.countP LockCommand.isEnd = 0 := List.countP_eq_zero.mpr fun m hm => by simp [hnone m hm]
      refine ⟨?_, ?_, ?_, ?_⟩
      · rw [List.countP_append]
        by_cases hlocked : ∃ m ∈ r, m.isLocked = true
        · have hcount' : r'.countP LockCommand.isLocked = 0 :=
            List.countP_eq_zero.mpr fun m hm => by simp [(h'.wasLocked (h.sets.1 hlocked) m hm).1]
          rw [hcount']
          exact ih.locked
        · have hcount' : r.countP LockCommand.isLocked = 0 := List.countP_eq_zero.mpr fun m hm hm' => hlocked ⟨m, hm, hm'⟩
          rw [hcount', Nat.zero_add]
          exact ih'.locked
      · rw [List.countP_append, hcount, Nat.zero_add]
        exact ih'.ended
      · refine List.pairwise_append.mpr ⟨ih.notLocked, ih'.notLocked, fun a ha b _ hend => ?_⟩
        rw [hnone a ha] at hend
        cases hend
      · refine List.pairwise_append.mpr ⟨ih.notFailed, ih'.notFailed, fun a ha b hb hlocked => ?_⟩
        exact (h'.wasLocked (h.sets.1 ⟨a, ha, hlocked⟩) b hb).2

end Replies

namespace SnaplockTicket

/-! ### The flags of a ticket -/

section SetsFlags
variable {t t' t'' : SnaplockTicket}

/-- The flags are only ever set. -/
structure SetsFlags (t t' : SnaplockTicket) : Prop where
  tag : t'.tag = t.tag
  locked : t.locked = true → t'.locked = true
  lockFailed : t.lockFailed = true → t'.lockFailed = true

theorem SetsFlags.refl (t : SnaplockTicket) : t.SetsFlags t := ⟨rfl, id, id⟩

theorem SetsFlags.trans (h : t.SetsFlags t') (h' : t'.SetsFlags t'') : t.SetsFlags t'' :=
  ⟨h'.tag.trans h.tag, h'.locked ∘ h.locked, h'.lockFailed ∘ h.lockFailed⟩

theorem setsFlags_fail (t : SnaplockTicket) : t.SetsFlags t.fail := by
  unfold fail
  split
  · exact .refl t
  · exact ⟨rfl, id, fun _ => rfl⟩

theorem setsFlags_activate (now : Int) (t : SnaplockTicket) : t.SetsFlags (t.activate now) := by
  unfold activate
  split
  · exact ⟨rfl, fun _ => rfl, id⟩
  · exact .refl t

theorem setsFlags_setField (t : SnaplockTicket) (name value : QString) : t.SetsFlags (t.setField name value) := by
  unfold setField
  dsimp only
  repeat' refine iteInduction (motive := SetsFlags t) (fun _ => ?_) fun _ => ?_
  all_goals first
    | exact ⟨rfl, id, id⟩
    | exact ⟨rfl, fun h => by rw [h, Bool.true_or], id⟩
    | exact ⟨rfl, id, fun h => by rw [h, Bool.true_or]⟩

theorem setsFlags_unserialize (t : SnaplockTicket) (data : QString) : t.SetsFlags (t.unserialize data) :=
  foldl_keeps SetsFlags .refl .trans fun t _ => t.setsFlags_setField _ _

end SetsFlags

end SnaplockTicket

namespace Snaplock

/-! ### What the calls send -/

section Calls
variable {now : Int} {s s' t : Snaplock} {p : Nat}

theorem repliesTo_append (tag : Nat) (l l' : List (LockMessage LockCommand)) :
    repliesTo tag (l ++ l') = repliesTo tag l ++ repliesTo tag l' := by
  simp [repliesTo]

theorem repliesTo_eq_nil {tag : Nat} {l : List (LockMessage LockCommand)} (h : ∀ m ∈ l, m.payload.isReply = true → m.tag ≠ tag) :
    repliesTo tag l = [] := by
  rw [repliesTo, List.map_eq_nil_iff, List.filter_eq_nil_iff]
  intro m hm hreply
  rw [Bool.and_eq_true, decide_eq_true_eq] at hreply
  exact h m hm hreply.2 hreply.1

theorem repliesTo_single {m : LockMessage LockCommand} (h : m.payload.isReply = true) : repliesTo m.tag [m] = [m.payload] := by
  simp [repliesTo, h]

/-- Steps of the daemon, with the replies to the client of the ticket and the flags of the ticket. -/
structure Follows (p : Nat) (s s' : Snaplock) : Prop where
  tag : (s'.ticket p).tag = (s.ticket p).tag
  ownTag : s'.OwnTag p
  replies : ∃ l, s'.sent = s.sent ++ l ∧ Replies (s.ticket p).locked (s.ticket p).lockFailed (repliesTo (s.ticket p).tag l)
    (s'.ticket p).locked (s'.ticket p).lockFailed

theorem Follows.refl (h : s.OwnTag p) : Follows p s s := ⟨rfl, h, [], by rw [List.append_nil], .refl⟩

theorem Follows.trans (h : Follows p s t) (h' : Follows p t s') : Follows p s s' := by
  obtain ⟨l, hl, hr⟩ := h.replies
  obtain ⟨l', hl', hr'⟩ := h'.replies
  refine ⟨h'.tag.trans h.tag, h'.ownTag, l ++ l', by rw [hl', hl, List.append_assoc], ?_⟩
  rw [repliesTo_append]
  rw [h.tag] at hr'
  exact hr.trans hr'

/-- The cache, the tickets and the messages of the daemon change, and of the ticket only the flags. -/
theorem Follows.of_silent {l : List (LockMessage LockCommand)} (hown : s.OwnTag p) (hticket : ∀ q, (s'.ticket q).tag = (s.ticket q).tag)
    (hcache : ∀ c ∈ s'.messageCache, c ∈ s.messageCache) (hsent : s'.sent = s.sent ++ l)
    (hnone : ∀ m ∈ l, m.payload.isReply = true → m.tag ≠ (s.ticket p).tag)
    (hlocked : (s.ticket p).locked = true → (s'.ticket p).locked = true)
    (hfailed : (s.ticket p).lockFailed = true → (s'.ticket p).lockFailed = true) : Follows p s s' := by
  refine ⟨hticket p, ⟨fun q hq => ?_, fun c hc => ?_⟩, l, hsent, ?_⟩
  · rw [hticket, hticket]
    exact hown.ticket q hq
  · rw [hticket]
    exact hown.messageCache c (hcache c hc)
  · rw [repliesTo_eq_nil hnone]
    exact .silent hlocked hfailed

/-- A method may change the ticket and send one reply. -/
theorem Follows.of_reply {x : SnaplockTicket} {q : Nat} {m : LockMessage LockCommand} (hown : s.OwnTag p)
    (htag : x.tag = (s.ticket q).tag) (hm : m.tag = (s.ticket q).tag) (hreply : m.payload.isReply = true)
    (hr : Replies (s.ticket q).locked (s.ticket q).lockFailed [m.payload] x.locked x.lockFailed) :
    Follows p s ((s.setTicket q x).send m) := by
  have htags : ∀ r, (((s.setTicket q x).send m).ticket r).tag = (s.ticket r).tag := fun r => by
    by_cases h : r = q
    · subst h
      simpa [setTicket, send] using htag
    · simp [setTicket, send, h]
  by_cases h : q = p
  · subst h
    refine ⟨htags q, ⟨fun r hr => ?_, fun c hc => ?_⟩, [m], rfl, ?_⟩
    · rw [htags, htags]
      exact hown.ticket r hr
    · rw [htags]
      exact hown.messageCache c hc
    · rw [← hm, repliesTo_single hreply]
      simpa [setTicket, send] using hr
  · refine .of_silent (l := [m]) hown htags (fun c hc => hc) rfl (fun a ha _ => ?_) ?_ ?_
    · rw [List.mem_singleton.mp ha, hm]
      exact hown.ticket q h
    all_goals
      intro hset
      simpa [setTicket, send, Ne.symm h] using hset

/-- A method may set flags of the ticket and send nothing. -/
theorem Follows.of_setTicket {x : SnaplockTicket} {q : Nat} (hown : s.OwnTag p) (h : (s.ticket q).SetsFlags x) :
    Follows p s (s.setTicket q x) := by
  obtain ⟨htag, hlocked, hfailed⟩ := h
  refine .of_silent (l := []) hown (fun r => ?_) (fun c hc => hc) (by rw [List.append_nil]; rfl) (fun m hm => absurd hm List.not_mem_nil) ?_ ?_
  · by_cases h : r = q
    · subst h
      simpa [setTicket] using htag
    · simp [setTicket, h]
  all_goals
    by_cases h : p = q
    · subst h
      simpa [setTicket]
    · simp [setTicket, h]

theorem follows_lockFailed (q : Nat) (hown : s.OwnTag p) : Follows p s (s.lockFailed q) := by
  unfold lockFailed
  dsimp only
  split
  · rename_i hsends
    have hfailed : (s.ticket q).lockFailed = false := by
      rw [Bool.and_eq_true, Bool.not_eq_true'] at hsends
      exact hsends.1
    cases hlocked : (s.ticket q).locked
    · refine .of_reply hown ?_ rfl (by simp [LockCommand.isReply]) ?_
      · simp [SnaplockTicket.fail, hfailed]
      · simpa [SnaplockTicket.fail, hfailed, hlocked] using Replies.lockFailed _ _ _
    · refine .of_reply hown ?_ rfl (by simp [LockCommand.isReply]) ?_
      · simp [SnaplockTicket.fail, hfailed]
      · simpa [SnaplockTicket.fail, hfailed, hlocked] using Replies.unlocked _ _
  · exact .of_setTicket hown (SnaplockTicket.setsFlags_fail _)

theorem follows_lockActivated (q : Nat) (hown : s.OwnTag p) : Follows p s (s.lockActivated now q) := by
  unfold lockActivated
  dsimp only
  split
  · rename_i hsends
    have hactivatable : (s.ticket q).activatable = true := by
      rw [Bool.and_eq_true] at hsends
      exact hsends.1
    have hflags : (s.ticket q).locked = false ∧ (s.ticket q).lockFailed = false := by
      unfold SnaplockTicket.activatable at hactivatable
      simp only [Bool.and_eq_true, Bool.not_eq_true'] at hactivatable
      exact ⟨hactivatable.1.2, hactivatable.2⟩
    refine .of_reply hown ?_ rfl rfl ?_
    · simp [SnaplockTicket.activate, hactivatable]
    · simpa [SnaplockTicket.activate, hactivatable, hflags] using Replies.locked _ _
  · exact .of_setTicket hown (SnaplockTicket.setsFlags_activate now _)

theorem Works.follows (h : Works now s s') : s.OwnTag p → Follows p s s' := by
  induction h with
  | refl s => exact .refl
  | trans _ _ ih ih' => exact fun hown => (ih hown).trans (ih' (ih hown).ownTag)
  | leaders l hl =>
    exact fun hown => .of_silent hown (fun _ => rfl) (fun c hc => hc) rfl
      (fun m hm hreply => by rw [hl m hm] at hreply; cases hreply) id id
  | tables enteringTickets tickets =>
    exact fun hown => .of_silent (l := []) hown (fun _ => rfl) (fun c hc => hc) (List.append_nil _).symm
      (fun m hm => absurd hm List.not_mem_nil) id id
  | ticket h =>
    exact fun hown => .of_setTicket hown ⟨h.tag, fun hlocked => by rw [h.locked, hlocked], fun hfailed => by rw [h.lockFailed, hfailed]⟩
  | lockFailed q => exact follows_lockFailed q
  | lockActivated q => exact follows_lockActivated q
  | cache =>
    refine fun hown => .of_silent hown (fun _ => rfl) (fun c hc => List.mem_of_mem_filter hc) rfl (fun m hm _ => ?_) id id
    obtain ⟨c, hc, rfl⟩ := List.mem_map.mp hm
    exact hown.messageCache c (List.mem_of_mem_filter hc)

theorem follows_dropTicket (hown : s.OwnTag p) (h : s.dropTicket p = some s') : Follows p s s' := by
  unfold dropTicket at h
  obtain ⟨⟨u, wait⟩, hu, h⟩ := Option.bind_eq_some_iff.mp h
  have hticket : u.ticket = s.ticket := by
    obtain ⟨l, -, rfl⟩ := sendMessageToLeaders_sent hu
    rfl
  have hworks : Works 0 s u := works_sendMessageToLeaders rfl hu
  have hsu := hworks.follows hown
  dsimp only at h
  split at h
  · cases h
    exact hsu
  · rename_i hfailed
    cases h
    rw [← hticket] at hfailed ⊢
    refine hsu.trans (.of_reply hsu.ownTag rfl rfl rfl ?_)
    rw [Bool.eq_false_iff.mpr hfailed]
    exact .unlocked _ _

theorem follows_call {c : TicketCall} (hown : s.OwnTag p) (h : s.call now p c = some s') : Follows p s s' := by
  cases c with
  | entered => exact (works_entered h).follows hown
  | maxTicket newMaxTicket => exact (works_maxTicket h).follows hown
  | ticketAdded stillEntering => exact (works_ticketAdded h).follows hown
  | removeEntering key => exact (works_removeEntering h).follows hown
  | setReady =>
    cases h
    exact .of_setTicket hown ⟨rfl, id, id⟩
  | activateLock => exact (works_activateLock h).follows hown
  | lockActivated =>
    cases h
    exact follows_lockActivated p hown
  | lockFailed =>
    cases h
    exact follows_lockFailed p hown
  | dropTicket => exact follows_dropTicket hown h
  | unserialize data =>
    cases h
    exact .of_setTicket hown ((s.ticket p).setsFlags_unserialize data)

theorem TicketCalls.follows (hown : s.OwnTag p) (h : TicketCalls p s s') : Follows p s s' := by
  induction h with
  | start => exact .refl hown
  | call now c _ hc ih => exact ih.trans (follows_call ih.ownTag hc)
  | @elsewhere t u _ he ih =>
    obtain ⟨l, hl, hnone⟩ := he.sent
    refine ih.trans ⟨by rw [he.ticket], he.ownTag, l, hl, ?_⟩
    rw [hnone, he.ticket]
    exact .refl

/-- Whatever is called, and when, the replies to the client of a ticket are in order. -/
theorem replies_disciplined (hown : s.OwnTag p) (h : TicketCalls p s s') :
    ∃ l, s'.sent = s.sent ++ l ∧ Disciplined (repliesTo (s.ticket p).tag l) := by
  obtain ⟨l, hl, hr⟩ := (h.follows hown).replies
  exact ⟨l, hl, hr.disciplined⟩

end Calls

/-! ### A ticket that times out -/

/-- A daemon with the ticket of one request. -/
def oneTicket : Snaplock := alpha.newEntering "o".toList "alpha/5".toList
  (SnaplockTicket.make "o".toList "alpha/5".toList 100 10 "alpha".toList "client".toList "alpha".toList 7)

theorem ownTag_oneTicket : oneTicket.OwnTag 0 := by
  refine ⟨fun q hq => ?_, fun c hc => absurd hc List.not_mem_nil⟩
  have hother : oneTicket.ticket q = {} := Function.update_of_ne hq _ _
  rw [hother]
  decide

theorem replies_disciplined_oneTicket : ∃ l, (oneTicket.lockFailed 0).sent = oneTicket.sent ++ l ∧ Disciplined (repliesTo 7 l) :=
  replies_disciplined ownTag_oneTicket (.call 0 .lockFailed .start rfl)

end Snaplock
end Snapwebsites
