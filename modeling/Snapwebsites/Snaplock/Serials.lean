import Snapwebsites.Snaplock.Cache

/-! # Serial numbers

A leader counts its tickets in 24 bits and puts its place among the leaders in front. The place of the second of two leaders is
not told from that of the first, so the serial numbers of two leaders are apart as long as their counters are. -/

namespace Snapwebsites
open QString

namespace Snaplock

/-! ### What is shown -/

def leaderIds (s : Snaplock) : List QString := s.leaders.map fun l => (s.computer l).id

/-- The serial number of the ticket that has been made since `s`, if one has. -/
def newSerials (s s' : Snaplock) : List Int := if s'.nextTicket = s.nextTicket then [] else [(s'.ticket s.nextTicket).serial]

/-- The leaders, the place of the daemon among them and its counter are as before. -/
structure SamePlace (s s' : Snaplock) : Prop where
  leaderIds : s'.leaderIds = s.leaderIds
  myId : s'.myId = s.myId
  ticketSerial : s'.ticketSerial = s.ticketSerial

/-- From `s` on, a leader makes tickets with the serial numbers for the LOCK requests that it gets. Whatever else it does, the list
of leaders stays the same. -/
inductive Generates (s : Snaplock) : Snaplock → List Int → Prop
  | start : Generates s s []
  | lock {t u : Snaplock} {serials : List Int} (now : Int) (message : LockMessage LockParameters) : Generates s t serials →
      t.msgLock now message = some u → Generates s u (serials ++ newSerials t u)
  | other {t u : Snaplock} {serials : List Int} : Generates s t serials → SamePlace t u → Generates s u serials

/-- Two leaders of the same list of one to three leaders. -/
structure TwoLeaders (a b : Snaplock) : Prop where
  same : b.leaderIds = a.leaderIds
  nodup : a.leaderIds.Nodup
  length : 1 ≤ a.leaderIds.length ∧ a.leaderIds.length ≤ 3
  mem : a.myId ∈ a.leaderIds ∧ b.myId ∈ a.leaderIds
  ne : a.myId ≠ b.myId

/-- Two counters of 24 bits that go on from `c` and `d`, by `m` and `n` numbers, have no number in common. -/
def CountersApart (c d m n : Nat) : Prop :=
  m = 0 ∨ n = 0 ∨ (m ≤ (d % 0x1000000 + 0x1000000 - c % 0x1000000) % 0x1000000 ∧ n ≤ (c % 0x1000000 + 0x1000000 - d % 0x1000000) % 0x1000000)

/-! ### Counters -/

theorem countersApart_iff {c d m n : Nat} :
    (∀ i < m, ∀ j < n, (c + i + 1) % 0x1000000 ≠ (d + j + 1) % 0x1000000) ↔ CountersApart c d m n := by
  unfold CountersApart
  constructor
  · intro h
    by_contra hapart
    rw [not_or, not_or, not_and_or, not_le, not_le] at hapart
    obtain ⟨hm, hn, hover | hover⟩ := hapart
    · refine h _ hover 0 (by omega) ?_
      omega
    · refine h 0 (by omega) _ hover ?_
      omega
  · rintro (rfl | rfl | ⟨hm, hn⟩) i hi j hj
    · omega
    · omega
    · omega

/-! ### What makes a number -/

section Serials
variable {now : Int} {s s' t : Snaplock} {m : LockMessage LockParameters} {serials : List Int}

/-- The work on tickets makes none, and gives none another serial number. -/
structure SameSerials (s s' : Snaplock) : Prop where
  ticketSerial : s'.ticketSerial = s.ticketSerial
  nextTicket : s'.nextTicket = s.nextTicket
  serial : ∀ p, (s'.ticket p).serial = (s.ticket p).serial

theorem SameSerials.refl (s : Snaplock) : SameSerials s s := ⟨rfl, rfl, fun _ => rfl⟩

theorem SameSerials.trans (h : SameSerials s t) (h' : SameSerials t s') : SameSerials s s' :=
  ⟨h'.ticketSerial.trans h.ticketSerial, h'.nextTicket.trans h.nextTicket, fun p => (h'.serial p).trans (h.serial p)⟩

theorem sameSerials_setTicket {p : Nat} {x : SnaplockTicket} (h : x.serial = (s.ticket p).serial) : SameSerials s (s.setTicket p x) := by
  refine ⟨rfl, rfl, fun q => ?_⟩
  by_cases hq : q = p
  · subst hq
    simpa [setTicket] using h
  · simp [setTicket, hq]

theorem serial_fail (x : SnaplockTicket) : x.fail.serial = x.serial := by
  unfold SnaplockTicket.fail
  split <;> rfl

theorem serial_activate (x : SnaplockTicket) : (x.activate now).serial = x.serial := by
  unfold SnaplockTicket.activate
  split <;> rfl

theorem Works.sameSerials (h : Works now s s') : SameSerials s s' := by
  induction h with
  | refl s => exact .refl s
  | trans _ _ ih ih' => exact ih.trans ih'
  | leaders l _ => exact ⟨rfl, rfl, fun _ => rfl⟩
  | tables enteringTickets tickets => exact ⟨rfl, rfl, fun _ => rfl⟩
  | ticket h => exact sameSerials_setTicket h.serial
  | @lockFailed s p =>
    have hset : SameSerials s (s.setTicket p (s.ticket p).fail) := sameSerials_setTicket (serial_fail _)
    unfold Snaplock.lockFailed
    dsimp only
    split
    · exact hset.trans ⟨rfl, rfl, fun _ => rfl⟩
    · exact hset
  | @lockActivated s p =>
    have hset : SameSerials s (s.setTicket p ((s.ticket p).activate now)) := sameSerials_setTicket (serial_activate _)
    unfold Snaplock.lockActivated
    dsimp only
    split
    · exact hset.trans ⟨rfl, rfl, fun _ => rfl⟩
    · exact hset
  | cache => exact ⟨rfl, rfl, fun _ => rfl⟩

theorem sameSerials_checkLeaders : SameSerials s (s.checkLeaders now) := by
  unfold checkLeaders
  split
  · exact .refl s
  · split
    · exact .refl s
    · split
      · exact ⟨rfl, rfl, fun _ => rfl⟩
      · exact .refl s

/-- A ticket that a leader makes has the next serial number. -/
theorem makeTicket_serial (h : s.makeTicket now m = some s') :
    s'.ticketSerial = s.nextSerial ∧ s'.nextTicket = s.nextTicket + 1 ∧ (s'.ticket s.nextTicket).serial = s.nextSerial := by
  unfold makeTicket at h
  dsimp only at h
  obtain ⟨t, ht, h⟩ := Option.bind_eq_some_iff.mp h
  have hts := (works_cleanup h).sameSerials
  have hnew : ∀ u : Snaplock, u = { s with ticketSerial := s.nextSerial }.newEntering m.payload.objectName
      (s.lockTicket now m).enteringKey (s.lockTicket now m) →
      u.ticketSerial = s.nextSerial ∧ u.nextTicket = s.nextTicket + 1 ∧ (u.ticket s.nextTicket).serial = s.nextSerial := by
    rintro u rfl
    refine ⟨rfl, rfl, ?_⟩
    simp [newEntering, lockTicket, SnaplockTicket.setSerial]
  obtain ⟨hserial, hnext, hticket⟩ := hnew _ rfl
  have hmade : SameSerials ({ s with ticketSerial := s.nextSerial }.newEntering m.payload.objectName
      (s.lockTicket now m).enteringKey (s.lockTicket now m)) t := by
    split at ht
    · cases ht
      refine (sameSerials_setTicket ?_).trans ⟨rfl, rfl, fun _ => rfl⟩
      simp [newEntering, SnaplockTicket.setAliveTimeout]
    · exact (works_entering ht).sameSerials
  have hall := hmade.trans hts
  exact ⟨hall.ticketSerial.trans hserial, hall.nextTicket.trans hnext, (hall.serial _).trans hticket⟩

/-- A request makes a ticket with the next serial number, or none. -/
theorem msgLock_serial (h : s.msgLock now m = some s') :
    (s'.nextTicket = s.nextTicket ∧ s'.ticketSerial = s.ticketSerial) ∨
      (s'.nextTicket = s.nextTicket + 1 ∧ s'.ticketSerial = s.nextSerial ∧ (s'.ticket s.nextTicket).serial = s.nextSerial) := by
  unfold msgLock at h
  dsimp only at h
  split at h
  · cases h
  · obtain ⟨t, ht, h⟩ := Option.bind_eq_some_iff.mp h
    have hst := (works_cleanup ht).sameSerials
    have hcluster := (works_cleanup ht).sameCluster.cluster
    have keep : ∀ {u}, some u = some s' → SameSerials t u → (s'.nextTicket = s.nextTicket ∧ s'.ticketSerial = s.ticketSerial) ∨
        (s'.nextTicket = s.nextTicket + 1 ∧ s'.ticketSerial = s.nextSerial ∧ (s'.ticket s.nextTicket).serial = s.nextSerial) :=
      fun heq hu => by
        cases heq
        exact Or.inl ⟨(hst.trans hu).nextTicket, (hst.trans hu).ticketSerial⟩
    split at h
    · exact keep h ⟨rfl, rfl, fun _ => rfl⟩
    split at h
    · exact keep h ⟨rfl, rfl, fun _ => rfl⟩
    split at h
    · exact keep h ⟨rfl, rfl, fun _ => rfl⟩
    split at h
    · exact keep h (sameSerials_checkLeaders.trans ⟨rfl, rfl, fun _ => rfl⟩)
    split at h
    · exact keep h ⟨rfl, rfl, fun _ => rfl⟩
    split at h
    · split at h
      · exact keep h (.refl t)
      · exact keep h ⟨rfl, rfl, fun _ => rfl⟩
    · split at h
      · exact keep h ⟨rfl, rfl, fun _ => rfl⟩
      · obtain ⟨hserial, hnext, hticket⟩ := makeTicket_serial h
        have hsame : t.nextSerial = s.nextSerial := by
          unfold nextSerial
          rw [hcluster, hst.ticketSerial]
        rw [hst.nextTicket, hsame] at hticket
        rw [hsame] at hserial
        rw [hst.nextTicket] at hnext
        exact Or.inr ⟨hnext, hserial, hticket⟩

/-! ### The place of a leader -/

/-- The bits in front of the counter. -/
def placeBits (ids : List QString) (myId : QString) : Nat :=
  if (ids[0]?.map fun id => decide (id = myId)).getD true then 0
  else if (ids[1]?.map fun id => !decide (id = myId)).getD false then 0x1000000
  else if (ids[2]?.map fun id => !decide (id = myId)).getD false then 0x2000000
  else 0

theorem or_bits (c k : Nat) : (c &&& 0x00FFFFFF) ||| (k <<< 24) = c % 0x1000000 + k * 0x1000000 := by
  have hlow : c &&& 0x00FFFFFF = c % 2 ^ 24 := Nat.and_two_pow_sub_one_eq_mod c 24
  rw [hlow, Nat.or_comm, ← Nat.shiftLeft_add_eq_or_of_lt (Nat.mod_lt c (by decide)) k, Nat.shiftLeft_eq, Nat.add_comm]

theorem nextSerial_eq (s : Snaplock) : s.nextSerial = (s.ticketSerial + 1) % 0x1000000 + placeBits s.leaderIds s.myId := by
  have hone := or_bits (s.ticketSerial + 1) 1
  have htwo := or_bits (s.ticketSerial + 1) 2
  have hlow : (s.ticketSerial + 1) &&& 0x00FFFFFF = (s.ticketSerial + 1) % 2 ^ 24 := Nat.and_two_pow_sub_one_eq_mod _ 24
  unfold nextSerial placeBits leaderIds
  simp only [List.getElem?_map, Option.map_map, Function.comp_def, hone, htwo]
  split_ifs
  · exact hlow
  · rfl
  · rfl
  · exact hlow

theorem placeBits_mod (ids : List QString) (myId : QString) : placeBits ids myId % 0x1000000 = 0 := by
  unfold placeBits
  split_ifs <;> rfl

/-- Two leaders have the same bits just when they are two alone. -/
theorem placeBits_eq_iff {a b : Snaplock} (h : TwoLeaders a b) :
    placeBits a.leaderIds a.myId = placeBits b.leaderIds b.myId ↔ a.leaderIds.length = 2 := by
  obtain ⟨hsame, hnodup, hlength, ⟨hamem, hbmem⟩, hne⟩ := h
  rw [hsame]
  generalize a.leaderIds = ids at *
  rcases ids with _ | ⟨x, _ | ⟨y, _ | ⟨z, _ | ⟨w, ids⟩⟩⟩⟩
  · cases hamem
  · rw [List.mem_singleton] at hamem hbmem
    exact absurd (hamem.trans hbmem.symm) hne
  · simp only [List.nodup_cons, List.mem_cons, List.not_mem_nil, or_false, List.nodup_nil, and_true, not_false_eq_true] at hnodup hamem hbmem
    rcases hamem with ha | ha <;> rcases hbmem with hb | hb <;> simp_all [placeBits]
  · simp only [List.nodup_cons, List.mem_cons, List.not_mem_nil, or_false, List.nodup_nil, and_true, not_false_eq_true, not_or] at hnodup hamem hbmem
    have hzy := Ne.symm hnodup.2
    rcases hamem with ha | ha | ha <;> rcases hbmem with hb | hb | hb <;> simp_all [placeBits]
  · simp only [List.length_cons] at hlength
    omega

/-! ### Runs -/

theorem Generates.numbers (h : Generates s s' serials) : s'.leaderIds = s.leaderIds ∧ s'.myId = s.myId ∧
    s'.ticketSerial % 0x1000000 = (s.ticketSerial + serials.length) % 0x1000000 ∧
    serials = (List.range serials.length).map fun i => (((s.ticketSerial + i + 1) % 0x1000000 + placeBits s.leaderIds s.myId : Nat) : Int) := by
  induction h with
  | start => exact ⟨rfl, rfl, rfl, rfl⟩
  | @lock t u serials now message _ hlock ih =>
    obtain ⟨hids, hid, hcounter, hserials⟩ := ih
    obtain ⟨hcluster, -, -⟩ := msgLock_cases hlock
    have hids' : u.leaderIds = t.leaderIds := by
      unfold leaderIds
      rw [hcluster]
    have hid' : u.myId = t.myId := by rw [hcluster]
    refine ⟨hids'.trans hids, hid'.trans hid, ?_⟩
    rcases msgLock_serial hlock with ⟨hnext, hserial⟩ | ⟨hnext, hserial, hticket⟩
    · rw [newSerials, if_pos hnext, List.append_nil, hserial]
      exact ⟨hcounter, hserials⟩
    · rw [nextSerial_eq, hids, hid] at hserial hticket
      have hone : newSerials t u = [(((s.ticketSerial + serials.length + 1) % 0x1000000 + placeBits s.leaderIds s.myId : Nat) : Int)] := by
        rw [newSerials, if_neg (by omega), hticket]
        congr 3
        omega
      rw [hone, List.length_append, List.length_singleton, List.range_succ, List.map_append, ← hserials]
      refine ⟨?_, rfl⟩
      have := placeBits_mod s.leaderIds s.myId
      omega
  | other _ hplace ih =>
    obtain ⟨hids, hid, hcounter, hserials⟩ := ih
    exact ⟨hplace.leaderIds.trans hids, hplace.myId.trans hid, by rw [hplace.ticketSerial, hcounter], hserials⟩

end Serials

/-! ### Two leaders -/

def beta : Snaplock := start "beta".toList "10.0.0.2".toList 14 8 100 0 32768

/-- The daemon knows of one other computer, and these are the leaders. -/
def withLeader (s other : Snaplock) (leaders : List Nat) : Snaplock :=
  { s with
    computer := fun p => if p = 0 then s.computer 0 else { other.computer 0 with self := false }
    nextComputer := 2
    computers := s.computers.insert other.serverName 1
    leaders
    neighborsCount := 2
    neighborsQuorum := 2 }

def firstLeader : Snaplock := alpha.withLeader beta [0, 1]

def secondLeader : Snaplock := beta.withLeader alpha [1, 0]

theorem twoLeaders : TwoLeaders firstLeader secondLeader := ⟨by decide, by decide, by decide, by decide, by decide⟩

def requestOf (pid : Int) : LockMessage LockParameters :=
  { sentFromServer := "alpha".toList, sentFromService := "client".toList
    payload := { objectName := "o".toList, pid, timeout := some 100, duration := 10 } }

theorem generates_one {s : Snaplock} (h : (s.msgLock 0 (requestOf 5)).map (newSerials s) = some [1]) : ∃ s', Generates s s' [1] := by
  obtain ⟨s', hs, hnew⟩ := Option.map_eq_some_iff.mp h
  have hrun := Generates.lock 0 (requestOf 5) .start hs
  rw [hnew] at hrun
  exact ⟨s', hrun⟩

end Snaplock
end Snapwebsites
