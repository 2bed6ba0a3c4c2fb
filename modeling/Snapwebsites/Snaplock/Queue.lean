import Snapwebsites.Snaplock.Relock

/-! # The queue for a lock

The tickets of an object are kept by keys that begin with their numbers, and a new ticket gets a number above all of them. Whatever
the clients ask for and whenever the timer goes off, the ticket that is locked is the first one of its table, and no other one is. -/

namespace Snapwebsites
open QString

namespace Snaplock

/-! ### What is shown -/

/-- What clients ask for, and what the cluster says about its computers. The other messages come from other leaders. -/
def aboutService : LockCommand → Bool
  | .lock _ | .unlock _ | .absolutely _ | .clusterUp _ | .clusterDown | .lockStarted _ | .serverGone _ => true
  | .locked .. | .unlocked .. | .alive .. | .status _ => true
  | _ => false

/-- A message comes in at the time `date`, or the timer goes off. -/
inductive ServiceStep : Snaplock → Snaplock → Prop
  | receive {s s' : Snaplock} (date : Int) (random : Nat) (m : LockMessage LockCommand) : aboutService m.payload = true →
      s.processMessage date random m = some s' → ServiceStep s s'
  | timer {s s' : Snaplock} (date : Int) : s.processTimeout date = some s' → ServiceStep s s'

/-- Of the tickets with a number for an object, a locked one has the smallest number, and it alone is locked. -/
def OneLock (s : Snaplock) : Prop :=
  ∀ objectName, ∀ e ∈ (s.ticketsOf objectName).entries, (s.ticket e.2).locked = true →
    ∀ e' ∈ (s.ticketsOf objectName).entries, e' ≠ e →
      (s.ticket e.2).ourTicket < (s.ticket e'.2).ourTicket ∧ (s.ticket e'.2).locked = false

/-- The tables have the tickets in the order of their numbers, and each ticket in one place, under its object and its key. -/
structure InPlace (s : Snaplock) : Prop where
  entry : ∀ objectName, ∀ e ∈ (s.ticketsOf objectName).entries, (s.ticket e.2).objectName = objectName ∧
    e.1 = ticketKey (s.ticket e.2).ourTicket (s.ticket e.2).enteringKey
  numbers : ∀ objectName, (s.ticketsOf objectName).entries.Pairwise fun e e' => (s.ticket e.2).ourTicket < (s.ticket e'.2).ourTicket
  once : ∀ o o', ∀ e ∈ (s.ticketsOf o).entries, ∀ e' ∈ (s.ticketsOf o').entries, e.2 = e'.2 → o = o' ∧ e = e'

/-! ### The order of the keys -/

/-- The digits of a number, with zeroes in front up to a width. -/
def padded (width n : Nat) : QString := List.replicate (width - (Nat.toDigits 16 n).length) '0' ++ Nat.toDigits 16 n

section Keys
variable {width n m : Nat}

theorem padded_one (h : n < 16) : padded 1 n = [n.digitChar] := by
  rw [padded, Nat.toDigits_of_lt_base h]
  rfl

theorem padded_succ (hwidth : 0 < width) (n : Nat) : padded (width + 1) n = padded width (n / 16) ++ [(n % 16).digitChar] := by
  unfold padded
  rcases lt_or_ge n 16 with h | h
  · obtain ⟨w, rfl⟩ := Nat.exists_eq_succ_of_ne_zero hwidth.ne'
    rw [Nat.toDigits_of_lt_base h, Nat.div_eq_of_lt h, Nat.toDigits_zero, Nat.mod_eq_of_lt h]
    simp [List.replicate_succ']
  · rw [Nat.toDigits_of_base_le (by omega) h]
    simp

theorem digitChar_lt : ∀ a < 16, ∀ b < 16, a < b → a.digitChar < b.digitChar := by decide

/-- The greater of two numbers has the greater digit where they differ first. -/
theorem padded_lt (hwidth : 1 ≤ width) : ∀ {n m : Nat}, m < 16 ^ width → n < m →
    ∃ front a t b u, padded width n = front ++ a :: t ∧ padded width m = front ++ b :: u ∧ a < b := by
  induction width, hwidth using Nat.le_induction with
  | base =>
    intro n m hm h
    rw [padded_one (by omega), padded_one (by omega)]
    exact ⟨[], _, [], _, [], rfl, rfl, digitChar_lt n (by omega) m (by omega) h⟩
  | succ width hwidth ih =>
    intro n m hm h
    rw [padded_succ hwidth, padded_succ hwidth]
    rcases lt_or_ge (n / 16) (m / 16) with hlt | hge
    · obtain ⟨front, a, t, b, u, hn, hm, hab⟩ := ih (by rw [pow_succ] at hm; omega) hlt
      refine ⟨front, a, t ++ [(n % 16).digitChar], b, u ++ [(m % 16).digitChar], ?_, ?_, hab⟩
      · rw [hn, List.append_assoc, List.cons_append]
      · rw [hm, List.append_assoc, List.cons_append]
    · have heq : n / 16 = m / 16 := by omega
      rw [heq]
      exact ⟨_, _, [], _, [], rfl, rfl, digitChar_lt _ (by omega) _ (by omega) (by omega)⟩

theorem percent_notMem_padded (hwidth : 1 ≤ width) : ∀ n, n < 16 ^ width → '%' ∉ padded width n := by
  have hdigit : ∀ a < 16, '%' ≠ a.digitChar := by decide
  induction width, hwidth using Nat.le_induction with
  | base =>
    intro n h
    rw [padded_one h, List.mem_singleton]
    exact hdigit n h
  | succ width hwidth ih =>
    intro n h
    rw [padded_succ hwidth, List.mem_append, List.mem_singleton, not_or]
    exact ⟨ih _ (by rw [pow_succ] at h; omega), hdigit _ (by omega)⟩

theorem ticketKey_eq (number : UInt32) (key : QString) : ticketKey number key = padded 8 number.toNat ++ '/' :: key := by
  have hplain : '%' ∉ hex8 number := percent_notMem_padded (by decide) _ number.toNat_lt
  rw [ticketKey, arg_first, arg_above (HttpStrings.above_of_notMem hplain)]
  rfl

/-- A ticket with a greater number comes behind. -/
theorem ticketKey_lt {n m : UInt32} (h : n < m) (key key' : QString) : ticketKey n key < ticketKey m key' := by
  obtain ⟨front, a, t, b, u, hn, hm, hab⟩ := padded_lt (by decide : 1 ≤ 8) m.toNat_lt (UInt32.lt_iff_toNat_lt.mp h)
  rw [ticketKey_eq, ticketKey_eq, hn, hm, List.append_assoc, List.append_assoc]
  exact List.append_left_lt (List.Lex.rel hab)

end Keys

/-! ### The invariant -/

end Snaplock

namespace SnaplockTicket

/-- How far a ticket has come. -/
structure Staged (t : SnaplockTicket) : Prop where
  locked : t.locked = true → t.ticketReady = true
  ready : t.ticketReady = true → t.addedTicketQuorum = true
  quorum : t.addedTicketQuorum = true → t.addedTicket = true
  added : t.addedTicket = true → t.getMaxTicket = true

/-- What the place of a ticket depends on. -/
def place (t : SnaplockTicket) : Bool × QString × QString × UInt32 := (t.addedTicket, t.objectName, t.enteringKey, t.ourTicket)

/-- The ticket stays where it is. -/
structure Rests (t t' : SnaplockTicket) : Prop where
  staged : t.Staged → t'.Staged
  added : t'.addedTicket = t.addedTicket
  locked : t'.locked = t.locked
  place : t.addedTicket = true → t'.place = t.place

section
variable {now : Int} {t t' u : SnaplockTicket}

theorem Rests.refl (t : SnaplockTicket) : t.Rests t := ⟨id, rfl, rfl, fun _ => rfl⟩

theorem Rests.trans (h : t.Rests t') (h' : t'.Rests u) : t.Rests u :=
  ⟨h'.staged ∘ h.staged, h'.added.trans h.added, h'.locked.trans h.locked,
    fun ht => (h'.place (h.added.trans ht)).trans (h.place ht)⟩

theorem rests_fail (t : SnaplockTicket) : t.Rests t.fail := by
  unfold fail
  split
  · exact .refl t
  · exact ⟨fun h => ⟨h.1, h.2, h.3, h.4⟩, rfl, rfl, fun _ => rfl⟩

theorem rests_setAliveTimeout (t : SnaplockTicket) (timeout : Int) : t.Rests (t.setAliveTimeout timeout) :=
  ⟨fun h => ⟨h.1, h.2, h.3, h.4⟩, rfl, rfl, fun _ => rfl⟩

/-- A ticket is activated when it is ready. -/
theorem Staged.activate (h : t.Staged) : (t.activate now).Staged ∧ (t.activate now).place = t.place := by
  unfold SnaplockTicket.activate
  split
  · rename_i hactivatable
    simp only [activatable, Bool.and_eq_true] at hactivatable
    exact ⟨⟨fun _ => hactivatable.1.1, h.2, h.3, h.4⟩, rfl⟩
  · exact ⟨h, rfl⟩

end
end SnaplockTicket

namespace Snaplock

/-- The tickets of the tables are as before, though some of them may be gone. -/
structure Rests (s s' : Snaplock) : Prop where
  nextTicket : s'.nextTicket = s.nextTicket
  messageCache : s'.messageCache.length ≤ s.messageCache.length
  entering : ∀ objectName key p, (s'.enteringOf objectName).find? key = some p → (s.enteringOf objectName).find? key = some p
  tickets : ∀ objectName, (s'.ticketsOf objectName).entries.Sublist (s.ticketsOf objectName).entries
  ticket : ∀ p, (s.ticket p).Rests (s'.ticket p)

/-- The entry of a table is that of its ticket; with the requests that wait, its number is `b` at most. -/
structure Listed (b : Nat) (s : Snaplock) (objectName : QString) (e : QString × Nat) : Prop where
  made : e.2 < s.nextTicket
  place : (s.ticket e.2).place = (true, objectName, (s.ticket e.2).enteringKey, (s.ticket e.2).ourTicket)
  key : e.1 = ticketKey (s.ticket e.2).ourTicket (s.ticket e.2).enteringKey
  number : (s.ticket e.2).ourTicket.toNat + s.messageCache.length ≤ b

/-- The tables are queues: the numbers go up, and only the first ticket may be locked. -/
structure Queued (b : Nat) (s : Snaplock) : Prop where
  messageCache : s.messageCache.length ≤ b
  staged : ∀ p, (s.ticket p).Staged
  entering : ∀ objectName key p, (s.enteringOf objectName).find? key = some p → p < s.nextTicket
  listed : ∀ objectName, ∀ e ∈ (s.ticketsOf objectName).entries, Listed b s objectName e
  numbers : ∀ objectName, (s.ticketsOf objectName).entries.Pairwise fun e e' => (s.ticket e.2).ourTicket < (s.ticket e'.2).ourTicket
  first : ∀ objectName, ∀ e ∈ (s.ticketsOf objectName).entries, (s.ticket e.2).locked = true → (s.ticketsOf objectName).first? = some e

section Queue
variable {now date : Int} {s s' t : Snaplock} {p b : Nat} {objectName key : QString} {e : QString × Nat}

theorem Rests.refl (s : Snaplock) : Rests s s := ⟨rfl, le_rfl, fun _ _ _ => id, fun _ => .refl _, fun _ => .refl _⟩

theorem Rests.trans (h : Rests s t) (h' : Rests t s') : Rests s s' :=
  ⟨h'.nextTicket.trans h.nextTicket, h'.messageCache.trans h.messageCache, fun o k p hp => h.entering o k p (h'.entering o k p hp),
    fun o => (h'.tickets o).trans (h.tickets o), fun p => (h.ticket p).trans (h'.ticket p)⟩

/-- Only what the queues do not depend on is changed. -/
theorem Rests.of_eq (hticket : s'.ticket = s.ticket) (hnext : s'.nextTicket = s.nextTicket) (hcache : s'.messageCache = s.messageCache)
    (hentering : s'.enteringTickets = s.enteringTickets) (htickets : s'.tickets = s.tickets) : Rests s s' := by
  refine ⟨hnext, by rw [hcache], fun o k p hp => ?_, fun o => ?_, fun p => ?_⟩
  · rwa [enteringOf, hentering] at hp
  · rw [ticketsOf, htickets]
    exact .refl _
  · rw [hticket]
    exact .refl _

theorem Queued.oneLock (h : Queued b s) : s.OneLock := by
  intro o e he hlocked e' he' hne
  have hfirst := h.first o e he hlocked
  obtain ⟨rest, hrest⟩ := List.head?_eq_some_iff.mp hfirst
  have hnumbers := h.numbers o
  rw [hrest] at hnumbers he'
  have hlt := (List.pairwise_cons.mp hnumbers).1 e' ((List.mem_cons.mp he').resolve_left hne)
  refine ⟨hlt, Bool.eq_false_iff.mpr fun hlocked' => hne ?_⟩
  rw [← hrest] at he'
  exact Option.some.inj ((h.first o e' he' hlocked').symm.trans hfirst)

/-- A request that waits counts like a number. -/
theorem Queued.setCache (h : Queued b s) {l : List MessageCache} {c : Nat} (hc : b + l.length ≤ c + s.messageCache.length) :
    Queued c { s with messageCache := l } := by
  have hcache := h.messageCache
  refine ⟨show l.length ≤ c by omega, h.staged, h.entering, fun o e he => ?_, h.numbers, h.first⟩
  have hlisted := h.listed o e he
  have hnumber := hlisted.number
  exact ⟨hlisted.made, hlisted.place, hlisted.key, show (s.ticket e.2).ourTicket.toNat + l.length ≤ c by omega⟩

theorem Queued.mono (h : Queued b s) {c : Nat} (hbc : b ≤ c) : Queued c s := h.setCache (Nat.add_le_add_right hbc _)

theorem Listed.added (h : Listed b s objectName e) : (s.ticket e.2).addedTicket = true := congrArg Prod.fst h.place

theorem Listed.object (h : Listed b s objectName e) : (s.ticket e.2).objectName = objectName := congrArg (fun x => x.2.1) h.place

/-- A ticket has one place. -/
theorem Listed.unique {o o' : QString} {e e' : QString × Nat} (h : Listed b s o e) (h' : Listed b s o' e') (he : e.2 = e'.2) :
    o = o' ∧ e = e' :=
  ⟨by rw [← h.object, he, h'.object], Prod.ext (by rw [h.key, h'.key, he]) he⟩

theorem Listed.congr (h : Listed b s objectName e) (hnext : s.nextTicket ≤ s'.nextTicket)
    (hcache : s'.messageCache.length ≤ s.messageCache.length) (hplace : (s'.ticket e.2).place = (s.ticket e.2).place) :
    Listed b s' objectName e ∧ (s'.ticket e.2).ourTicket = (s.ticket e.2).ourTicket := by
  have hkey : (s'.ticket e.2).enteringKey = (s.ticket e.2).enteringKey := congrArg (fun x => x.2.2.1) hplace
  have hnumber : (s'.ticket e.2).ourTicket = (s.ticket e.2).ourTicket := congrArg (fun x => x.2.2.2) hplace
  refine ⟨⟨h.made.trans_le hnext, ?_, ?_, ?_⟩, hnumber⟩
  · rw [hplace, hkey, hnumber, h.place]
  · rw [hkey, hnumber, h.key]
  · rw [hnumber]
    exact (Nat.add_le_add_left hcache _).trans h.number

/-- The tables may lose tickets. The other ones keep their places, and only the first one may have become the lock. -/
theorem Queued.of_tables (h : Queued b s) (hnext : s.nextTicket ≤ s'.nextTicket)
    (hcache : s'.messageCache.length ≤ s.messageCache.length) (hstaged : ∀ p, (s'.ticket p).Staged)
    (hentering : ∀ o k p, (s'.enteringOf o).find? k = some p → p < s'.nextTicket)
    (htables : ∀ o, (s'.ticketsOf o).entries.Sublist (s.ticketsOf o).entries)
    (hplace : ∀ o, ∀ e ∈ (s.ticketsOf o).entries, (s'.ticket e.2).place = (s.ticket e.2).place)
    (hlocked : ∀ o, ∀ e ∈ (s'.ticketsOf o).entries, (s'.ticket e.2).locked = true →
      (s.ticket e.2).locked = true ∨ (s'.ticketsOf o).first? = some e) : Queued b s' := by
  have hlisted : ∀ o, ∀ e ∈ (s'.ticketsOf o).entries, _ := fun o e he =>
    (h.listed o e ((htables o).subset he)).congr hnext hcache (hplace o e ((htables o).subset he))
  refine ⟨hcache.trans h.messageCache, hstaged, hentering, fun o e he => (hlisted o e he).1, fun o => ?_, fun o e he hl => ?_⟩
  · refine ((h.numbers o).sublist (htables o)).imp_of_mem fun {x y} hx hy hlt => ?_
    rw [(hlisted o x hx).2, (hlisted o y hy).2]
    exact hlt
  · rcases hlocked o e he hl with hl | hfirst
    · -- what is first stays first as long as it stays
      obtain ⟨rest, hrest⟩ := List.head?_eq_some_iff.mp (h.first o e ((htables o).subset he) hl)
      have hsub := htables o
      have hsorted := (s.ticketsOf o).sorted
      rw [hrest] at hsub hsorted
      unfold SortedMap.first?
      generalize (s'.ticketsOf o).entries = l at he hsub
      rcases List.sublist_cons_iff.mp hsub with hsub | ⟨l', rfl, -⟩
      · exact absurd ((List.pairwise_cons.mp hsorted).1 e (hsub.subset he)) (lt_irrefl _)
      · rfl
    · exact hfirst

theorem Queued.rests (h : Queued b s) (hr : Rests s s') : Queued b s' := by
  refine h.of_tables hr.nextTicket.ge hr.messageCache (fun p => (hr.ticket p).staged (h.staged p)) (fun o k p hp => ?_) hr.tickets
    (fun o e he => (hr.ticket e.2).place (h.listed o e he).added) (fun o e he hl => .inl ?_)
  · rw [hr.nextTicket]
    exact h.entering o k p (hr.entering o k p hp)
  · rw [← (hr.ticket e.2).locked, hl]

/-- Only the first ticket becomes the lock. -/
theorem Queued.lockActivated (h : Queued b s) (hfirst : (s.ticketsOf objectName).first? = some e) : Queued b (s.lockActivated now e.2) := by
  obtain ⟨hstaged, hplace⟩ : ((s.ticket e.2).activate now).Staged ∧ _ := (h.staged e.2).activate
  have hset : Queued b (s.setTicket e.2 ((s.ticket e.2).activate now)) := by
    refine h.of_tables le_rfl le_rfl (fun q => ?_) h.entering (fun _ => .refl _) (fun o x _ => ?_) (fun o x hx hl => ?_)
    · by_cases hq : q = e.2
      · subst hq
        simpa [setTicket] using hstaged
      · simpa [setTicket, hq] using h.staged q
    · by_cases hq : x.2 = e.2
      · simpa [setTicket, hq] using hplace
      · simp [setTicket, hq]
    · by_cases hq : x.2 = e.2
      · obtain ⟨rfl, rfl⟩ := (h.listed o x hx).unique (h.listed objectName e (List.mem_of_mem_head? hfirst)) hq
        exact .inr hfirst
      · exact .inl (by simpa [setTicket, hq] using hl)
  unfold Snaplock.lockActivated
  dsimp only
  split
  · exact hset.rests (.of_eq rfl rfl rfl rfl rfl)
  · exact hset

/-! ### What leaves the queues alone -/

theorem rests_send (m : LockMessage LockCommand) : Rests s (s.send m) := .of_eq rfl rfl rfl rfl rfl

theorem rests_setTicket {x : SnaplockTicket} (h : (s.ticket p).Rests x) : Rests s (s.setTicket p x) := by
  refine ⟨rfl, le_rfl, fun _ _ _ => id, fun _ => .refl _, fun q => ?_⟩
  by_cases hq : q = p
  · subst hq
    simpa [setTicket] using h
  · simpa [setTicket, hq] using SnaplockTicket.Rests.refl _

theorem getD_putTable (m : SortedMap QString (SortedMap QString Nat)) (objectName o : QString) (table : SortedMap QString Nat) :
    ((putTable m objectName table).find? o).getD ∅ = if o = objectName then table else (m.find? o).getD ∅ := by
  unfold putTable
  split
  · rename_i hempty
    rw [SortedMap.find?_erase, SortedMap.isEmpty_iff.mp hempty]
    split <;> rfl
  · rw [SortedMap.find?_insert]
    split <;> rfl

theorem rests_putTickets {table : SortedMap QString Nat} (h : table.entries.Sublist (s.ticketsOf objectName).entries) :
    Rests s (s.putTickets objectName table) := by
  refine ⟨rfl, le_rfl, fun _ _ _ => id, fun o => ?_, fun _ => .refl _⟩
  unfold putTickets ticketsOf
  rw [getD_putTable]
  split
  · rename_i ho
    rw [ho]
    exact h
  · exact .refl _

/-- A table of entering tickets may be put back, too. -/
theorem Queued.putEntering (h : Queued b s) {table : SortedMap QString Nat} (htable : ∀ k p, table.find? k = some p → p < s.nextTicket) :
    Queued b (s.putEntering objectName table) := by
  refine h.of_tables le_rfl le_rfl h.staged (fun o k p hp => ?_) (fun _ => .refl _) (fun _ _ _ => rfl) (fun _ _ _ => .inl)
  unfold Snaplock.putEntering enteringOf at hp
  rw [getD_putTable] at hp
  split at hp
  · exact htable k p hp
  · exact h.entering o k p hp

theorem rests_insertEntering {table : SortedMap QString Nat}
    (h : ∀ k p, table.find? k = some p → (s.enteringOf objectName).find? k = some p) :
    Rests s { s with enteringTickets := s.enteringTickets.insert objectName table } := by
  refine ⟨rfl, le_rfl, fun o k p hp => ?_, fun _ => .refl _, fun _ => .refl _⟩
  unfold enteringOf at hp
  dsimp only at hp
  rw [SortedMap.find?_insert] at hp
  split at hp
  · rename_i ho
    rw [ho]
    exact h k p hp
  · exact hp

theorem rests_sendMessageToLeaders {tag : Nat} {payload : LockCommand} {wait : Bool}
    (h : s.sendMessageToLeaders tag payload = some (s', wait)) : Rests s s' := by
  obtain ⟨l, -, rfl⟩ := sendMessageToLeaders_sent h
  exact .of_eq rfl rfl rfl rfl rfl

theorem rests_checkLeaders : Rests s (s.checkLeaders now) := by
  unfold checkLeaders
  split
  · exact .refl s
  · split
    · exact .refl s
    · split
      · exact .of_eq rfl rfl rfl rfl rfl
      · exact .refl s

theorem rests_lockFailed (p : Nat) : Rests s (s.lockFailed p) := by
  unfold lockFailed
  dsimp only
  split
  · exact (rests_setTicket (SnaplockTicket.rests_fail _)).trans (rests_send _)
  · exact rests_setTicket (SnaplockTicket.rests_fail _)

theorem rests_sweep : ∀ {l : List (QString × Nat)} {s : Snaplock} {table : SortedMap QString Nat},
    Rests s (sweep now l (s, table)).1 ∧ (sweep now l (s, table)).2.entries.Sublist table.entries
  | [], s, table => ⟨.refl s, .refl _⟩
  | e :: l, s, table => by
    unfold sweep
    split
    · dsimp only
      split
      · exact ⟨(rests_lockFailed e.2).trans rests_sweep.1, rests_sweep.2.trans List.filter_sublist⟩
      · exact ⟨(rests_lockFailed e.2).trans rests_sweep.1, rests_sweep.2⟩
    · exact rests_sweep

/-- What is left of a table was in it. -/
theorem rests_swept : Rests s ((sweep now (s.ticketsOf objectName).entries (s, s.ticketsOf objectName)).1.putTickets objectName
    (sweep now (s.ticketsOf objectName).entries (s, s.ticketsOf objectName)).2) := by
  obtain ⟨hsweep, hsub⟩ := @rests_sweep now (s.ticketsOf objectName).entries s (s.ticketsOf objectName)
  refine ⟨hsweep.nextTicket, hsweep.messageCache, hsweep.entering, fun o => ?_, hsweep.ticket⟩
  simp only [putTickets, ticketsOf]
  rw [getD_putTable]
  split
  · rename_i ho
    rw [ho]
    exact hsub
  · exact hsweep.tickets o

theorem ticketsOf_swept : ((sweep now (s.ticketsOf objectName).entries (s, s.ticketsOf objectName)).1.putTickets objectName
    (sweep now (s.ticketsOf objectName).entries (s, s.ticketsOf objectName)).2).ticketsOf objectName =
      (sweep now (s.ticketsOf objectName).entries (s, s.ticketsOf objectName)).2 := by
  simp only [putTickets, ticketsOf]
  rw [getD_putTable, if_pos rfl]

theorem find?_of_sublist {table table' : SortedMap QString Nat} (h : table'.entries.Sublist table.entries) (k : QString) (p : Nat)
    (hp : table'.find? k = some p) : table.find? k = some p :=
  SortedMap.find?_eq_some.mpr (h.subset (SortedMap.find?_eq_some.mp hp))

theorem rests_dropTicket (h : s.dropTicket p = some s') : Rests s s' := by
  unfold dropTicket at h
  obtain ⟨⟨u, wait⟩, hu, h⟩ := Option.bind_eq_some_iff.mp h
  have hsu := rests_sendMessageToLeaders hu
  have hticket : u.ticket = s.ticket := by
    obtain ⟨l, -, rfl⟩ := sendMessageToLeaders_sent hu
    rfl
  dsimp only at h
  split at h
  · cases h
    exact hsu
  · cases h
    refine hsu.trans ((rests_setTicket ?_).trans (rests_send _))
    rw [hticket]
    exact ⟨fun ht => ⟨ht.1, ht.2, ht.3, ht.4⟩, rfl, rfl, fun _ => rfl⟩

theorem rests_removeEntering (h : s.removeEntering now p key = some s') : Rests s s' := by
  unfold removeEntering at h
  dsimp only at h
  split at h
  · rename_i hquorum
    simp only [Bool.and_eq_true] at hquorum
    have hset : ∀ stillEntering ready, (s.ticket p).Rests { s.ticket p with stillEntering, ticketReady := ready || (s.ticket p).ticketReady } :=
      fun stillEntering ready => ⟨fun ht => ⟨fun hl => by simp [ht.locked hl], fun _ => hquorum.1.1, ht.quorum, ht.added⟩, rfl, rfl,
        fun _ => rfl⟩
    have hunready : (s.ticket p).ticketReady = false := by simpa using hquorum.1.2
    simp only [hunready, Bool.or_false] at hset
    split at h
    · obtain ⟨⟨u, wait⟩, hu, h⟩ := Option.bind_eq_some_iff.mp h
      cases h
      exact (rests_setTicket (hset _ _)).trans (rests_sendMessageToLeaders hu)
    · cases h
      exact rests_setTicket (hset _ _)
  · cases h
    exact .refl s

/-! ### The activation of the first ticket -/

theorem Queued.activateLock (h : Queued b s) (hfirst : (s.ticketsOf objectName).first? = some e)
    (heq : s.activateLock now e.2 = some s') : Queued b s' := by
  unfold Snaplock.activateLock at heq
  dsimp only at heq
  split at heq
  · obtain ⟨⟨u, wait⟩, hu, heq⟩ := Option.bind_eq_some_iff.mp heq
    have hqu := h.rests (rests_sendMessageToLeaders hu)
    obtain ⟨l, -, rfl⟩ := sendMessageToLeaders_sent hu
    dsimp only at heq
    split at heq
    · cases heq
      exact hqu
    · cases heq
      exact hqu.lockActivated hfirst
  · cases heq
    exact h

theorem Queued.activateFirstLock (h : Queued b s) (heq : s.activateFirstLock now objectName = some s') : Queued b s' := by
  unfold Snaplock.activateFirstLock findFirstLock at heq
  cases hfind : s.tickets.find? objectName with
  | none =>
    simp only [hfind] at heq
    cases heq
    exact h
  | some table =>
    have htable : s.ticketsOf objectName = table := by rw [ticketsOf, hfind, Option.getD_some]
    subst htable
    have hput := h.rests (@rests_swept now s objectName)
    have hfirst := @ticketsOf_swept now s objectName
    simp only [hfind] at heq
    cases hhead : (sweep now (s.ticketsOf objectName).entries (s, s.ticketsOf objectName)).2.first? with
    | none =>
      simp only [hhead, Option.map_none] at heq
      cases heq
      exact hput
    | some e =>
      simp only [hhead, Option.map_some] at heq
      exact hput.activateLock (by rw [hfirst, hhead]) heq

theorem Queued.cleanupTickets (h : Queued b s) (heq : s.cleanupTickets now objectName = some s') : Queued b s' := by
  have hput := h.rests (@rests_swept now s objectName)
  unfold Snaplock.cleanupTickets at heq
  dsimp only at heq
  split at heq
  · exact hput.activateFirstLock heq
  · cases heq
    exact hput

theorem Queued.cleanupEntering (h : Queued b s) : Queued b (s.cleanupEntering now objectName) := by
  obtain ⟨hsweep, hsub⟩ := @rests_sweep now (s.enteringOf objectName).entries s (s.enteringOf objectName)
  refine (h.rests hsweep).putEntering fun k p hp => ?_
  rw [hsweep.nextTicket]
  exact h.entering objectName k p (find?_of_sublist hsub k p hp)

theorem Queued.cleanup (h : Queued b s) (heq : s.cleanup now = some s') : Queued b s' := by
  obtain ⟨t, ht, heq⟩ := Option.bind_eq_some_iff.mp heq
  cases heq
  have hcache : Queued b (s.cleanupCache now) :=
    h.rests ⟨rfl, List.length_filter_le _ _, fun _ _ _ => id, fun _ => .refl _, fun _ => .refl _⟩
  have hqueued : Queued b t := foldlM_invariant (fun o _ _ _ hu heq => hu.cleanupTickets heq) hcache ht
  exact List.foldlRecOn (motive := Queued b) _ _ hqueued fun _ hu _ _ => hu.cleanupEntering

/-! ### A ticket that leaves the entering ones -/

theorem Queued.exit {m : KeyParameters} (h : Queued b s) (heq : s.exit now m = some s') : Queued b s' := by
  have hworks := (works_exit heq).sameSerials.nextTicket
  unfold Snaplock.exit at heq
  dsimp only at heq
  obtain ⟨t, ht, heq⟩ := Option.bind_eq_some_iff.mp heq
  obtain ⟨u, hu, heq⟩ := Option.bind_eq_some_iff.mp heq
  cases heq
  have hsub : ((s.enteringOf m.objectName).erase m.key).entries.Sublist (s.enteringOf m.objectName).entries := List.filter_sublist
  have hst : Queued b t := h.rests ((rests_insertEntering (find?_of_sublist hsub)).trans
    (foldlM_keeps Rests .refl .trans (fun _ _ _ h => rests_removeEntering h) ht))
  have htu : Queued b u := by
    split at hu
    · cases hu
      exact hst
    · exact hst.activateFirstLock hu
  refine htu.putEntering fun k p hp => ?_
  have hnext : u.nextTicket = s.nextTicket := hworks
  rw [hnext]
  exact h.entering _ k p (find?_of_sublist hsub k p hp)

theorem Queued.msgLockExiting {m : KeyParameters} (h : Queued b s) (heq : s.msgLockExiting now m = some s') : Queued b s' := by
  unfold Snaplock.msgLockExiting at heq
  split at heq
  · cases heq
  · obtain ⟨t, ht, heq⟩ := Option.bind_eq_some_iff.mp heq
    refine Queued.cleanup ?_ heq
    split at ht
    · exact h.exit ht
    · cases ht
      exact h

theorem Queued.ticketAdded {stillEntering : SortedMap QString Nat} (h : Queued b s) (hp : (s.ticket p).addedTicket = true)
    (heq : s.ticketAdded now p stillEntering = some s') : Queued b s' := by
  unfold Snaplock.ticketAdded at heq
  dsimp only at heq
  split at heq
  · cases heq
    exact h
  · obtain ⟨⟨u, wait⟩, hu, heq⟩ := Option.bind_eq_some_iff.mp heq
    refine (h.rests ((rests_setTicket ?_).trans (rests_sendMessageToLeaders hu))).msgLockExiting heq
    exact ⟨fun ht => ⟨ht.locked, fun _ => rfl, fun _ => hp, ht.added⟩, rfl, rfl, fun _ => rfl⟩

/-! ### A new number -/

/-- A ticket that gets a number above those of its table comes last. -/
theorem Queued.add {number : UInt32} (h : Queued b s) (hp : p < s.nextTicket) (hnot : (s.ticket p).addedTicket = false)
    (hmax : (s.ticket p).getMaxTicket = true) (hnumber : number.toNat + s.messageCache.length ≤ b + 1)
    (habove : ∀ e ∈ (s.ticketsOf (s.ticket p).objectName).entries, (s.ticket e.2).ourTicket < number) :
    Queued (b + 1) ((s.setTicket p ((s.ticket p).setTicketNumber number)).setTicketIn (s.ticket p).objectName
      ((s.ticket p).setTicketNumber number).ticketKey p) := by
  have hkey : ∀ e ∈ (s.ticketsOf (s.ticket p).objectName).entries, e.1 < ((s.ticket p).setTicketNumber number).ticketKey := fun e he => by
    rw [(h.listed _ e he).key]
    exact ticketKey_lt (habove e he) _ _
  have hquorum : (s.ticket p).addedTicketQuorum = false := Bool.eq_false_iff.mpr fun hq => by simp [(h.staged p).quorum hq] at hnot
  have hready : (s.ticket p).ticketReady = false := Bool.eq_false_iff.mpr fun hr => by simp [(h.staged p).ready hr] at hquorum
  have hlocked : (s.ticket p).locked = false := Bool.eq_false_iff.mpr fun hl => by simp [(h.staged p).locked hl] at hready
  generalize hu : (s.setTicket p ((s.ticket p).setTicketNumber number)).setTicketIn (s.ticket p).objectName
    ((s.ticket p).setTicketNumber number).ticketKey p = u
  have hnew : u.ticket p = (s.ticket p).setTicketNumber number := by
    subst hu
    exact Function.update_self ..
  have hold : ∀ {q}, q ≠ p → u.ticket q = s.ticket q := fun {q} hq => by
    subst hu
    exact Function.update_of_ne hq ..
  have htable : ∀ o, (u.ticketsOf o).entries = (s.ticketsOf o).entries ++
      if o = (s.ticket p).objectName then [(((s.ticket p).setTicketNumber number).ticketKey, p)] else [] := fun o => by
    subst hu
    simp only [ticketsOf, setTicketIn, setTicket, SortedMap.find?_insert]
    split
    · rename_i ho
      subst ho
      exact SortedMap.entries_insert_of_lt hkey
    · rw [List.append_nil]
  have hmem : ∀ {o e}, e ∈ (u.ticketsOf o).entries → e ∈ (s.ticketsOf o).entries ∨
      o = (s.ticket p).objectName ∧ e = (((s.ticket p).setTicketNumber number).ticketKey, p) := fun {o e} he => by
    rw [htable, List.mem_append] at he
    refine he.imp_right fun he => ?_
    split at he
    · exact ⟨‹_›, List.mem_singleton.mp he⟩
    · cases he
  -- the tickets that are in a table already are other ones
  have hother : ∀ {o e}, e ∈ (s.ticketsOf o).entries → u.ticket e.2 = s.ticket e.2 := fun {o e} he =>
    hold fun heq => by simp [← heq, (h.listed o e he).added] at hnot
  have hrest : u.nextTicket = s.nextTicket ∧ u.messageCache = s.messageCache ∧ u.enteringTickets = s.enteringTickets := by
    subst hu
    exact ⟨rfl, rfl, rfl⟩
  obtain ⟨hnext, hcache, hentering⟩ := hrest
  refine ⟨by rw [hcache]; exact h.messageCache.trans (Nat.le_succ b), fun q => ?_, fun o k q hq => ?_, fun o e he => ?_, fun o => ?_,
    fun o e he hl => ?_⟩
  · by_cases hq : q = p
    · rw [hq, hnew]
      exact ⟨(h.staged p).locked, (h.staged p).ready, fun _ => rfl, fun _ => hmax⟩
    · rw [hold hq]
      exact h.staged q
  · rw [hnext]
    rw [enteringOf, hentering] at hq
    exact h.entering o k q hq
  · rcases hmem he with he | ⟨rfl, rfl⟩
    · exact (((h.mono (Nat.le_succ b)).listed o e he).congr hnext.ge (by rw [hcache]) (by rw [hother he])).1
    · exact ⟨by rw [hnext]; exact hp, by rw [hnew]; rfl, by rw [hnew]; rfl, by rw [hnew, hcache]; exact hnumber⟩
  · rw [htable, List.pairwise_append]
    refine ⟨(h.numbers o).imp_of_mem fun {e e'} he he' hlt => by rw [hother he, hother he']; exact hlt, ?_, fun e he e' he' => ?_⟩
    · split
      · exact List.pairwise_singleton _ _
      · exact List.Pairwise.nil
    · split at he'
      · rename_i ho
        subst ho
        rw [List.mem_singleton.mp he', hnew, hother he]
        exact habove e he
      · cases he'
  · rcases hmem he with he | ⟨rfl, rfl⟩
    · rw [hother he] at hl
      obtain ⟨rest, hrest⟩ := List.head?_eq_some_iff.mp (h.first o e he hl)
      rw [SortedMap.first?, htable, hrest]
      rfl
    · rw [hnew, SnaplockTicket.setTicketNumber, hlocked] at hl
      cases hl

theorem foldl_max {f : Nat → UInt32} : ∀ (l : List (QString × Nat)) (a : UInt32),
    a ≤ l.foldl (fun last e => if f e.2 > last then f e.2 else last) a ∧
      (∀ e ∈ l, f e.2 ≤ l.foldl (fun last e => if f e.2 > last then f e.2 else last) a) ∧
        (l.foldl (fun last e => if f e.2 > last then f e.2 else last) a = a ∨
          ∃ e ∈ l, l.foldl (fun last e => if f e.2 > last then f e.2 else last) a = f e.2)
  | [], a => ⟨UInt32.le_refl a, nofun, .inl rfl⟩
  | e :: l, a => by
    obtain ⟨hle, hall, hor⟩ := foldl_max l (if f e.2 > a then f e.2 else a)
    have hstep : a ≤ (if f e.2 > a then f e.2 else a) ∧ f e.2 ≤ (if f e.2 > a then f e.2 else a) := by
      split
      · exact ⟨UInt32.le_of_lt ‹_›, UInt32.le_refl _⟩
      · exact ⟨UInt32.le_refl _, UInt32.not_lt.mp ‹_›⟩
    rw [List.foldl_cons]
    refine ⟨UInt32.le_trans hstep.1 hle, fun e' he' => ?_, ?_⟩
    · rcases List.mem_cons.mp he' with rfl | he'
      · exact UInt32.le_trans hstep.2 hle
      · exact hall e' he'
    · rcases hor with hor | ⟨e', he', hor⟩
      · by_cases hlt : f e.2 > a
        · exact .inr ⟨e, List.mem_cons_self, by rw [hor, if_pos hlt]⟩
        · exact .inl (by rw [hor, if_neg hlt])
      · exact .inr ⟨e', List.mem_cons_of_mem _ he', hor⟩

theorem Queued.getLastTicket (h : Queued b s) (objectName : QString) :
    (s.getLastTicket objectName).toNat + s.messageCache.length ≤ b ∧
      ∀ e ∈ (s.ticketsOf objectName).entries, (s.ticket e.2).ourTicket ≤ s.getLastTicket objectName := by
  obtain ⟨-, hall, hor⟩ := foldl_max (f := fun p => (s.ticket p).ourTicket) (s.ticketsOf objectName).entries 0
  refine ⟨?_, hall⟩
  unfold Snaplock.getLastTicket
  rcases hor with hor | ⟨e, he, hor⟩
  · rw [hor]
    simpa using h.messageCache
  · rw [hor]
    exact (h.listed _ e he).number

theorem Queued.addTicket {number : UInt32} (h : Queued b s) (hp : p < s.nextTicket) (hnot : (s.ticket p).addedTicket = false)
    (hmax : (s.ticket p).getMaxTicket = true) (hnumber : number.toNat + s.messageCache.length ≤ b + 1)
    (habove : ∀ e ∈ (s.ticketsOf (s.ticket p).objectName).entries, (s.ticket e.2).ourTicket < number)
    (heq : s.addTicket now p number = some s') : Queued (b + 1) s' := by
  unfold Snaplock.addTicket at heq
  dsimp only at heq
  obtain ⟨⟨u, wait⟩, hu, heq⟩ := Option.bind_eq_some_iff.mp heq
  have hqu := (h.add hp hnot hmax hnumber habove).rests (rests_sendMessageToLeaders hu)
  obtain ⟨l, -, rfl⟩ := sendMessageToLeaders_sent hu
  dsimp only at heq
  split at heq
  · cases heq
    exact hqu
  · exact hqu.ticketAdded (by simp [setTicket, setTicketIn, SnaplockTicket.setTicketNumber]) heq

/-- The next number is above those of the table when the one before it was the largest. -/
theorem Queued.maxTicket {last : UInt32} (h : Queued b s) (hb : b + 1 < 2 ^ 32) (hp : p < s.nextTicket)
    (hmax : (s.ticket p).getMaxTicket = true) (hour : (s.ticket p).ourTicket = last) (hlast : last.toNat + s.messageCache.length ≤ b)
    (habove : ∀ e ∈ (s.ticketsOf (s.ticket p).objectName).entries, (s.ticket e.2).ourTicket ≤ last)
    (heq : s.maxTicket now p last.toNat = some s') : Queued (b + 1) s' := by
  unfold Snaplock.maxTicket at heq
  split at heq
  · cases heq
    exact h.mono (Nat.le_succ b)
  rename_i hnot
  have hnext : (s.ticket p).nextNumber last.toNat = last + 1 := by simp [SnaplockTicket.nextNumber, hour]
  have hsucc : (last + 1).toNat = last.toNat + 1 := by
    rw [UInt32.toNat_add]
    exact Nat.mod_eq_of_lt (show last.toNat + 1 < 2 ^ 32 by omega)
  rw [hnext] at heq
  refine h.addTicket hp (by simpa using hnot) hmax (by omega) (fun e he => ?_) heq
  rw [UInt32.lt_iff_toNat_lt, hsucc]
  exact Nat.lt_succ_of_le (UInt32.le_iff_toNat_le.mp (habove e he))

/-- `entered()`, and with one leader all that comes then. -/
theorem Queued.entered (h : Queued b s) (hb : b + 1 < 2 ^ 32) (hp : p < s.nextTicket) (heq : s.entered now p = some s') :
    Queued (b + 1) s' := by
  unfold Snaplock.entered at heq
  dsimp only at heq
  split at heq
  · cases heq
    exact h.mono (Nat.le_succ b)
  rename_i hmax
  have hnot : (s.ticket p).addedTicket = false := by
    by_contra hadded
    exact hmax ((h.staged p).added (by simpa using hadded))
  obtain ⟨hlast, habove⟩ := h.getLastTicket (s.ticket p).objectName
  generalize s.getLastTicket (s.ticket p).objectName = last at heq hlast habove
  obtain ⟨⟨u, wait⟩, hu, heq⟩ := Option.bind_eq_some_iff.mp heq
  have hset : Rests s (s.setTicket p { s.ticket p with getMaxTicket := true, ourTicket := last }) :=
    rests_setTicket ⟨fun ht => ⟨ht.locked, ht.ready, ht.quorum, fun _ => rfl⟩, rfl, rfl,
      fun hadded => by rw [hnot] at hadded; cases hadded⟩
  have hqu := h.rests (hset.trans (rests_sendMessageToLeaders hu))
  obtain ⟨l, -, rfl⟩ := sendMessageToLeaders_sent hu
  dsimp only at heq
  split at heq
  · cases heq
    exact hqu.mono (Nat.le_succ b)
  have hnow : Function.update s.ticket p { s.ticket p with getMaxTicket := true, ourTicket := last } p =
      { s.ticket p with getMaxTicket := true, ourTicket := last } := Function.update_self ..
  refine hqu.maxTicket hb hp ?_ ?_ hlast (fun e he => ?_) heq
  · show (Function.update s.ticket p _ p).getMaxTicket = true
    rw [hnow]
  · show (Function.update s.ticket p _ p).ourTicket = last
    rw [hnow]
  · -- the tickets of the table are other ones
    have he : e ∈ (s.ticketsOf (Function.update s.ticket p { s.ticket p with getMaxTicket := true, ourTicket := last } p).objectName).entries :=
      he
    rw [hnow] at he
    have hne : e.2 ≠ p := fun heq => by
      have hadded := (h.listed _ e he).added
      rw [heq, hnot] at hadded
      cases hadded
    show (Function.update s.ticket p _ e.2).ourTicket ≤ last
    rw [Function.update_of_ne hne]
    exact habove e he

theorem Queued.enter (h : Queued b s) (hb : b + 1 < 2 ^ 32) (hp : p < s.nextTicket) (heq : s.entering now p = some s') :
    Queued (b + 1) s' := by
  unfold Snaplock.entering at heq
  obtain ⟨⟨u, wait⟩, hu, heq⟩ := Option.bind_eq_some_iff.mp heq
  have hrests := rests_sendMessageToLeaders hu
  dsimp only at heq
  split at heq
  · cases heq
    exact (h.rests hrests).mono (Nat.le_succ b)
  · exact (h.rests hrests).entered hb (by rw [hrests.nextTicket]; exact hp) heq

/-! ### The requests of clients -/

theorem rests_forward {γ : Type} (message : LockMessage γ) (payload : LockCommand) : Rests s (s.forwardMessageToLeader message payload) :=
  .of_eq rfl rfl rfl rfl rfl

theorem Queued.newEntering (h : Queued b s) {x : SnaplockTicket} (hx : x.Staged) : Queued b (s.newEntering objectName key x) := by
  have hold : ∀ {o e}, e ∈ (s.ticketsOf o).entries → (s.newEntering objectName key x).ticket e.2 = s.ticket e.2 := fun {o e} he =>
    Function.update_of_ne (h.listed o e he).made.ne ..
  refine h.of_tables (Nat.le_succ _) le_rfl (fun q => ?_) (fun o k q hq => ?_) (fun _ => .refl _)
    (fun o e he => congrArg _ (hold he)) (fun o e he hl => .inl (by rwa [hold he] at hl))
  · by_cases hq : q = s.nextTicket
    · rw [hq]
      simpa [Snaplock.newEntering] using hx
    · simpa [Snaplock.newEntering, hq] using h.staged q
  · refine Nat.lt_succ_of_le ?_
    unfold Snaplock.newEntering enteringOf at hq
    dsimp only at hq
    rw [SortedMap.find?_insert] at hq
    split at hq
    · rw [Option.getD_some, SortedMap.find?_insert] at hq
      split at hq
      · exact (Option.some.inj hq).ge
      · exact (h.entering _ _ _ hq).le
    · exact (h.entering o k q hq).le

theorem Queued.makeTicket {message : LockMessage LockParameters} (h : Queued b s) (hb : b + 1 < 2 ^ 32)
    (heq : s.makeTicket now message = some s') : Queued (b + 1) s' := by
  unfold Snaplock.makeTicket at heq
  dsimp only at heq
  obtain ⟨t, ht, heq⟩ := Option.bind_eq_some_iff.mp heq
  refine Queued.cleanup ?_ heq
  have hserial : Queued b { s with ticketSerial := s.nextSerial } :=
    h.rests (.of_eq rfl rfl rfl rfl rfl)
  have hstaged : (s.lockTicket now message).Staged := ⟨nofun, nofun, nofun, nofun⟩
  have hnew : Queued b (Snaplock.newEntering _ message.payload.objectName (s.lockTicket now message).enteringKey _) :=
    hserial.newEntering hstaged
  split at ht
  · cases ht
    refine (hnew.rests (Rests.trans (rests_setTicket ?_) (rests_send _))).mono (Nat.le_succ b)
    have hticket : ({ s with ticketSerial := s.nextSerial }.newEntering message.payload.objectName (s.lockTicket now message).enteringKey
        (s.lockTicket now message)).ticket s.nextTicket = s.lockTicket now message := Function.update_self ..
    rw [hticket]
    exact SnaplockTicket.rests_setAliveTimeout _ _
  · exact hnew.enter hb (Nat.lt_succ_self _) ht

theorem Queued.msgLock {message : LockMessage LockParameters} (h : Queued b s) (hb : b + 1 < 2 ^ 32)
    (heq : s.msgLock now message = some s') : Queued (b + 1) s' := by
  unfold Snaplock.msgLock at heq
  dsimp only at heq
  split at heq
  · cases heq
  obtain ⟨t, ht, heq⟩ := Option.bind_eq_some_iff.mp heq
  have hst := h.cleanup ht
  have keep : ∀ {u}, Rests t u → some u = some s' → Queued (b + 1) s' := fun hu heq => by
    cases heq
    exact (hst.rests hu).mono (Nat.le_succ b)
  split at heq
  · exact keep (rests_send _) heq
  split at heq
  · exact keep (rests_send _) heq
  split at heq
  · exact keep (rests_send _) heq
  split at heq
  · -- the request waits in the cache, with a number kept for it
    have hcheck := hst.rests (@rests_checkLeaders now t)
    cases heq
    refine hcheck.setCache ?_
    rw [List.length_append, List.length_singleton]
    omega
  split at heq
  · exact keep (rests_forward _ _) heq
  split at heq
  · split at heq
    · exact keep (.refl t) heq
    · exact keep (rests_send _) heq
  · split at heq
    · exact keep (rests_send _) heq
    · exact hst.makeTicket hb heq

theorem Queued.foldlM_msgLock {c : Nat} : ∀ {l : List MessageCache} {b : Nat} {s : Snaplock}, Queued b s → b + l.length ≤ c → c < 2 ^ 32 →
    l.foldlM (fun s m => s.msgLock now m.message) s = some s' → Queued c s'
  | [], b, s, h, hc, _, heq => by
    cases heq
    exact h.mono hc
  | m :: l, b, s, h, hc, hlt, heq => by
    rw [List.length_cons] at hc
    rw [List.foldlM_cons] at heq
    obtain ⟨t, ht, heq⟩ := Option.bind_eq_some_iff.mp heq
    exact (h.msgLock (by omega) ht).foldlM_msgLock (by omega) hlt heq

theorem Queued.msgUnlock {message : LockMessage UnlockParameters} (h : Queued b s) (heq : s.msgUnlock now message = some s') :
    Queued b s' := by
  unfold Snaplock.msgUnlock at heq
  dsimp only at heq
  split at heq
  · cases heq
    exact h.rests rests_checkLeaders
  split at heq
  · cases heq
    exact h.rests (rests_forward _ _)
  split at heq
  · cases heq
  obtain ⟨t, ht, heq⟩ := Option.bind_eq_some_iff.mp heq
  refine Queued.cleanup ?_ heq
  unfold unlockTicket at ht
  split at ht
  · obtain ⟨u, hu, ht⟩ := Option.bind_eq_some_iff.mp ht
    cases ht
    exact h.rests ((rests_dropTicket hu).trans (rests_putTickets List.filter_sublist))
  · cases ht
    exact h

theorem Queued.msgAbsolutely {message : LockMessage QString} (h : Queued b s) (hb : b + 1 < 2 ^ 32)
    (heq : s.msgAbsolutely now message = some s') : Queued (b + 1) s' := by
  have hkeep := h.mono (Nat.le_succ b)
  unfold Snaplock.msgAbsolutely at heq
  split at heq
  · split at heq
    · split at heq
      · rename_i p hfind
        exact (h.rests (rests_setTicket (SnaplockTicket.rests_setAliveTimeout _ 0))).enter hb (h.entering _ _ _ hfind) heq
      · cases heq
        exact hkeep
    · cases heq
      exact hkeep
  · split at heq
    · cases heq
      exact hkeep.rests (rests_send _)
    · cases heq
      exact hkeep
  · cases heq
    exact hkeep

/-! ### The cluster -/

/-- What the daemon knows of the cluster is no matter. -/
theorem rests_cluster (c : Cluster) : Rests s { s with toCluster := c } :=
  .of_eq rfl rfl rfl rfl rfl

theorem rests_addLeader (lockid : QString) : Rests s (s.addLeader lockid) := by
  unfold addLeader
  split
  · exact .refl s
  · split <;> exact rests_cluster _

/-- The requests that waited are taken up, and their numbers were kept for them. -/
theorem Queued.checkLockStatus (h : Queued b s) (hb : b < 2 ^ 32) (heq : s.checkLockStatus now = some s') : Queued b s' := by
  unfold Snaplock.checkLockStatus at heq
  dsimp only at heq
  obtain ⟨t, ht, heq⟩ := Option.bind_eq_some_iff.mp heq
  cases heq
  have hcheck := h.rests (@rests_checkLeaders now s)
  generalize s.checkLeaders now = u at ht hcheck
  suffices hqueued : Queued b t from hqueued.rests (.of_eq rfl rfl rfl rfl rfl)
  split at ht
  · unfold changeStatus at ht
    dsimp only at ht
    split at ht
    · have hle := hcheck.messageCache
      have hsent : Queued b ({ u with lockStatus := statusText s.ready }.send { service := ['.'], payload := .status (statusText s.ready) }) :=
        hcheck.rests (.of_eq rfl rfl rfl rfl rfl)
      have hfree := hsent.setCache (l := []) (c := b - u.messageCache.length) (by simp only [send, List.length_nil]; omega)
      exact hfree.foldlM_msgLock (c := b) (by simp only [send]; omega) hb ht
    · cases ht
      exact hcheck.rests (.of_eq rfl rfl rfl rfl rfl)
  · cases ht
    exact hcheck

theorem Queued.electionStatus (h : Queued b s) (hb : b < 2 ^ 32) (heq : s.electionStatus date = some s') : Queued b s' := by
  unfold Snaplock.electionStatus at heq
  dsimp only at heq
  split at heq
  · exact h.checkLockStatus hb heq
  split at heq
  · cases heq
    exact h
  · exact (h.rests ((rests_cluster _).trans (rests_send _))).checkLockStatus hb heq

theorem Queued.msgLockStarted {message : LockMessage LockStartedParameters} (h : Queued b s) (hb : b < 2 ^ 32)
    (heq : s.msgLockStarted date message = some s') : Queued b s' := by
  unfold Snaplock.msgLockStarted at heq
  dsimp only at heq
  split at heq
  · cases heq
  split at heq
  · cases heq
    exact h
  split at heq
  · cases heq
    exact h
  rename_i t newComputer hmeet
  obtain ⟨u, hu, heq⟩ := Option.bind_eq_some_iff.mp heq
  have hmet : Rests s t := by
    unfold meetComputer at hmeet
    split at hmeet
    · obtain ⟨c, -, hc⟩ := Option.map_eq_some_iff.mp hmeet
      cases hc
      exact rests_cluster _
    · cases hmeet
      exact rests_cluster _
  have hnewest : Rests t (t.keepNewest message.payload.electionDate) := by
    unfold keepNewest
    split
    · split
      · exact rests_cluster _
      · exact .refl t
    · exact .refl t
  have hleaders : ∀ u : Snaplock, Rests u (u.setMyLeaders message.payload.leaders) := fun u => by
    unfold setMyLeaders
    split
    · exact foldl_keeps Rests .refl .trans fun _ lockid => rests_addLeader lockid
    · exact .refl u
  have hqu := (h.rests ((hmet.trans hnewest).trans (hleaders _))).electionStatus hb hu
  cases heq
  split
  · exact hqu.rests (rests_send _)
  · exact hqu

theorem Queued.msgServerGone {serverName : QString} (h : Queued b s) (hb : b < 2 ^ 32)
    (heq : s.msgServerGone date serverName = some s') : Queued b s' := by
  unfold Snaplock.msgServerGone at heq
  split at heq
  · cases heq
    exact h
  split at heq
  · cases heq
    exact h
  dsimp only at heq
  split at heq
  · obtain ⟨t, ht, heq⟩ := Option.bind_eq_some_iff.mp heq
    exact ((h.rests (rests_cluster _)).electionStatus hb ht).checkLockStatus hb heq
  · cases heq
    exact h.rests (rests_cluster _)

/-! ### Runs -/

theorem Queued.step (h : Queued b s) (hb : b + 1 < 2 ^ 32) (hstep : ServiceStep s s') : Queued (b + 1) s' := by
  have hmono : ∀ {u}, Queued b u → Queued (b + 1) u := fun hu => hu.mono (Nat.le_succ b)
  rcases hstep with ⟨date, random, m, habout, heq⟩ | ⟨date, heq⟩
  · unfold processMessage at heq
    cases hpayload : m.payload <;> simp only [hpayload] at heq habout
    case lock => exact h.msgLock hb heq
    case unlock => exact hmono (h.msgUnlock heq)
    case absolutely => exact h.msgAbsolutely hb heq
    case clusterUp =>
      obtain ⟨t, ht, heq⟩ := Option.bind_eq_some_iff.mp heq
      cases heq
      exact hmono (((h.rests (rests_cluster _)).electionStatus (by omega) ht).rests (rests_send _))
    case clusterDown => exact hmono ((h.rests (rests_cluster _)).checkLockStatus (by omega) heq)
    case lockStarted => exact hmono (h.msgLockStarted (by omega) heq)
    case serverGone => exact hmono (h.msgServerGone (by omega) heq)
    all_goals
      first
        | cases heq
          exact hmono h
        | cases habout
  · exact hmono (h.cleanup heq)

theorem queued_of_run {name ipAddress : QString} {priority randomId pid startTime pidMax : Int} {n : Nat} (hn : n < 2 ^ 32)
    (h : Run ServiceStep (start name ipAddress priority randomId pid startTime pidMax) n s) : Queued n s := by
  induction h with
  | start =>
    refine ⟨le_rfl, fun _ => ⟨nofun, nofun, nofun, nofun⟩, ?_, ?_, ?_, ?_⟩
    · rintro o k p hp
      cases hp
    · rintro o e he
      cases he
    · intro o
      exact .nil
    · rintro o e he
      cases he
  | step _ hstep ih => exact (ih (by omega)).step (by omega) hstep

/-- From its start on, as long as the numbers suffice, a daemon that no other leader takes part in has one ticket of an object
locked at most: the one with the smallest number. -/
theorem oneLock_of_run {name ipAddress : QString} {priority randomId pid startTime pidMax : Int} {n : Nat} (hn : n < 2 ^ 32)
    (h : Run ServiceStep (start name ipAddress priority randomId pid startTime pidMax) n s) : s.OneLock :=
  (queued_of_run hn h).oneLock

/-- Its tables are in order. -/
theorem inPlace_of_run {name ipAddress : QString} {priority randomId pid startTime pidMax : Int} {n : Nat} (hn : n < 2 ^ 32)
    (h : Run ServiceStep (start name ipAddress priority randomId pid startTime pidMax) n s) : s.InPlace := by
  have hqueued := queued_of_run hn h
  exact ⟨fun o e he => ⟨(hqueued.listed o e he).object, (hqueued.listed o e he).key⟩, hqueued.numbers,
    fun o o' e he e' he' => (hqueued.listed o e he).unique (hqueued.listed o' e' he')⟩

end Queue

/-- Two clients ask for one lock, and the first one gets it. -/
theorem run_alpha : ∃ s, Run ServiceStep alpha 3 s ∧
    (s.ticketsOf "o".toList).entries.map (fun e => ((s.ticket e.2).ourTicket, (s.ticket e.2).locked)) = [(1, true), (2, false)] := by
  have hrun : ((alpha.processMessage 0 0 (clusterUpMessage 1)).bind fun s₁ => (s₁.processMessage 0 0 (lockMessage 5)).bind fun s₂ =>
      (s₂.processMessage 0 0 (lockMessage 6)).map fun s₃ =>
        (s₃.ticketsOf "o".toList).entries.map (fun e => ((s₃.ticket e.2).ourTicket, (s₃.ticket e.2).locked))) =
      some [(1, true), (2, false)] := by decide +kernel
  obtain ⟨s₁, h₁, hrun⟩ := Option.bind_eq_some_iff.mp hrun
  obtain ⟨s₂, h₂, hrun⟩ := Option.bind_eq_some_iff.mp hrun
  obtain ⟨s₃, h₃, hentries⟩ := Option.map_eq_some_iff.mp hrun
  exact ⟨s₃, .step (.step (.step .start (.receive 0 0 _ rfl h₁)) (.receive 0 0 _ rfl h₂)) (.receive 0 0 _ rfl h₃), hentries⟩

theorem oneLock_of_run_alpha : ∃ s, Run ServiceStep alpha 3 s ∧ s.OneLock ∧
    (s.ticketsOf "o".toList).entries.map (fun e => ((s.ticket e.2).ourTicket, (s.ticket e.2).locked)) = [(1, true), (2, false)] := by
  obtain ⟨s, hrun, hentries⟩ := run_alpha
  exact ⟨s, hrun, oneLock_of_run (by decide) hrun, hentries⟩

theorem inPlace_of_run_alpha : ∃ s, Run ServiceStep alpha 3 s ∧ s.InPlace := by
  obtain ⟨s, hrun, -⟩ := run_alpha
  exact ⟨s, hrun, inPlace_of_run (by decide) hrun⟩

end Snaplock
end Snapwebsites
