import Snapwebsites.Snaplock.Frame

/-! # Requests for orphaned tickets

A leader other than leader #0 sends it a LOCK for each ticket whose owner is no leader any more. The
loops move the iterator on before they read the serial number, so each request carries the serial
number of the ticket that comes next in the table. -/

namespace Snapwebsites
open QString

namespace Snaplock

/-! ### What is shown -/

/-- The entering tickets and the unlocked tickets whose owner is no leader, in the order of the tables. -/
def orphans (s : Snaplock) : List Nat :=
  (s.enteringTickets.entries.flatMap fun e => (e.2.entries.map Prod.snd).filter s.orphan) ++
  s.tickets.entries.flatMap fun e => (e.2.entries.map Prod.snd).filter fun p => !(s.ticket p).locked && s.orphan p

/-- The message asks leader #0 for the ticket. -/
structure RequestFor (s : Snaplock) (p : Nat) (m : LockMessage LockParameters) : Prop where
  server : m.server = s.leader0Name ∧ m.service = "snaplock".toList
  client : m.sentFromServer = (s.ticket p).serverName ∧ m.sentFromService = (s.ticket p).serviceName
  objectName : m.payload.objectName = (s.ticket p).objectName
  pid : (s.ticket p).getClientPid = some m.payload.pid
  timeout : m.payload.timeout = some (s.ticket p).obtentionTimeout
  durations : m.payload.duration = (s.ticket p).lockDuration ∧ m.payload.unlockDuration = some (s.ticket p).unlockDuration
  serial : m.payload.serial = some (s.ticket p).serial

/-- The LOCK messages that were sent between two states. -/
def locksBetween (s s' : Snaplock) : List (LockMessage LockParameters) :=
  (s'.sent.drop s.sent.length).filterMap fun m => match m.payload with
    | .lock p => some (m.withPayload p)
    | _ => none

/-- Each orphan is requested from leader #0 exactly once, with its own data. -/
def RequestsOrphans (now : Int) (s : Snaplock) : Prop :=
  ∃ s', s.synchronizeLeaders now = some s' ∧ s.orphans.Nodup ∧ List.Forall₂ s.RequestFor s.orphans (s.locksBetween s')

/-- The tickets of a table that satisfy `q`, each with the ticket that comes next in the table. -/
def withNext (q : Nat → Bool) : List (QString × Nat) → List (Nat × Option Nat)
  | [] => []
  | e :: l => if q e.2 then (e.2, l.head?.map Prod.snd) :: withNext q l else withNext q l

def orphansWithNext (s : Snaplock) : List (Nat × Option Nat) :=
  (s.enteringTickets.entries.flatMap fun e => withNext s.orphan e.2.entries) ++
  s.tickets.entries.flatMap fun e => withNext (fun p => !(s.ticket p).locked && s.orphan p) e.2.entries

/-- The client of each orphan can be read, and the orphan is followed by a ticket with the same serial
    number. -/
def OrphansFollowed (s : Snaplock) : Prop :=
  ∀ d ∈ s.orphansWithNext, (s.ticket d.1).getClientPid ≠ none ∧ ∃ q, d.2 = some q ∧ (s.ticket q).serial = (s.ticket d.1).serial

/-! ### What the loops send -/

section Loops
variable {now : Int} {s : Snaplock}

theorem withNext_map (q : Nat → Bool) : ∀ l : List (QString × Nat), (withNext q l).map Prod.fst = (l.map Prod.snd).filter q
  | [] => rfl
  | e :: l => by
    unfold withNext
    rw [List.map_cons, List.filter_cons]
    split
    · rw [List.map_cons, withNext_map q l]
    · exact withNext_map q l

theorem orphansWithNext_map : s.orphansWithNext.map Prod.fst = s.orphans := by
  unfold orphansWithNext orphans
  simp only [List.map_append, List.map_flatMap, withNext_map]

/-- The request that the loop sends for an orphan. -/
def request (s : Snaplock) (d : Nat × Option Nat) : Option (LockMessage LockParameters) := do
  let m ← s.relockMessage d.1 (d.2.map fun q => (s.ticket q).serial)
  let _ ← d.2
  some m

def lockCommands (l : List (LockMessage LockParameters)) : List (LockMessage LockCommand) :=
  l.map fun m => m.withPayload (.lock m.payload)

theorem request_iff {d : Nat × Option Nat} {m : LockMessage LockParameters} (h : s.request d = some m) :
    s.RequestFor d.1 m ↔ (s.ticket d.1).getClientPid ≠ none ∧ ∃ q, d.2 = some q ∧ (s.ticket q).serial = (s.ticket d.1).serial := by
  obtain ⟨m', hm', h⟩ := Option.bind_eq_some_iff.mp h
  obtain ⟨q, hq, h⟩ := Option.bind_eq_some_iff.mp h
  cases h
  obtain ⟨pid, hpid, hm⟩ := Option.bind_eq_some_iff.mp hm'
  cases hm
  rw [hq]
  constructor
  · intro hr
    exact ⟨by rw [hpid]; exact Option.some_ne_none pid, q, rfl, Option.some.inj hr.serial⟩
  · rintro ⟨-, q', hq', hserial⟩
    cases hq'
    exact ⟨⟨rfl, rfl⟩, ⟨rfl, rfl⟩, rfl, hpid, rfl, ⟨rfl, rfl⟩, congrArg some hserial⟩

/-- What the loops keep of the state `s`: a locked ticket may get another owner. -/
structure HandedOver (s : Snaplock) (u : Snaplock) (sent : List (LockMessage LockParameters)) : Prop where
  cluster : u.toCluster = s.toCluster
  tickets : u.tickets = s.tickets
  sent : u.sent = s.sent ++ lockCommands sent
  ticket : ∀ p, u.ticket p = s.ticket p ∨ ((s.ticket p).locked = true ∧ (u.ticket p).locked = true ∧
    (u.ticket p).serial = (s.ticket p).serial)

theorem HandedOver.locked {u : Snaplock} {sent : List (LockMessage LockParameters)} (h : HandedOver s u sent) (p : Nat) :
    (u.ticket p).locked = (s.ticket p).locked := by
  rcases h.ticket p with h | ⟨h, h', -⟩
  · rw [h]
  · rw [h, h']

/-- The request for an unlocked orphan is the same as at the beginning. -/
theorem HandedOver.relock {u : Snaplock} {sent : List (LockMessage LockParameters)} (h : HandedOver s u sent) {p : Nat}
    (hp : u.ticket p = s.ticket p) (remove : Snaplock → Snaplock) (next : Option Nat) (l : List (LockMessage LockParameters)) :
    Snaplock.relock false remove p next (u, l) =
      (s.request (p, next)).map fun m => (u.send (m.withPayload (.lock m.payload)), l) := by
  have hserial : (next.map fun q => (u.ticket q).serial) = next.map fun q => (s.ticket q).serial := by
    cases next with
    | none => rfl
    | some q =>
      rcases h.ticket q with hq | ⟨-, -, hq⟩
      · exact congrArg some (congrArg SnaplockTicket.serial hq)
      · exact congrArg some hq
  have hmessage : u.relockMessage p (next.map fun q => (u.ticket q).serial) =
      s.relockMessage p (next.map fun q => (s.ticket q).serial) := by
    unfold relockMessage leader0Name
    rw [hserial, hp, h.cluster]
  unfold Snaplock.relock request
  rw [if_neg Bool.false_ne_true, hmessage]
  cases s.relockMessage p (next.map fun q => (s.ticket q).serial) with
  | none => rfl
  | some m => cases next <;> rfl

theorem HandedOver.send {u : Snaplock} {sent : List (LockMessage LockParameters)} (h : HandedOver s u sent)
    (m : LockMessage LockParameters) : HandedOver s (u.send (m.withPayload (.lock m.payload))) (sent ++ [m]) := by
  refine ⟨h.cluster, h.tickets, ?_, h.ticket⟩
  show u.sent ++ [_] = _
  rw [h.sent, List.append_assoc]
  unfold lockCommands
  rw [List.map_append]
  rfl

theorem HandedOver.setOwner {u : Snaplock} {sent : List (LockMessage LockParameters)} (h : HandedOver s u sent) {p : Nat}
    (hp : (s.ticket p).locked = true) (owner : QString) : HandedOver s (u.setTicket p { u.ticket p with owner }) sent := by
  refine ⟨h.cluster, h.tickets, h.sent, fun q => ?_⟩
  by_cases hq : q = p
  · subst hq
    have hlocked := (h.locked q).trans hp
    simp only [setTicket, Function.update_self]
    rcases h.ticket q with h | ⟨-, -, h⟩
    · exact Or.inr ⟨hp, hlocked, congrArg SnaplockTicket.serial h⟩
    · exact Or.inr ⟨hp, hlocked, h⟩
  · simp only [setTicket, Function.update_of_ne hq]
    exact h.ticket q

theorem HandedOver.orphan {u : Snaplock} {sent : List (LockMessage LockParameters)} (h : HandedOver s u sent) {p : Nat}
    (hp : u.ticket p = s.ticket p) : u.orphan p = s.orphan p := by
  unfold Snaplock.orphan
  rw [hp, h.cluster]

/-- The entering tickets of one object; none of them changes. -/
theorem syncEntering_rel (objectName : QString) : ∀ (l : List (QString × Nat)) {r : Snaplock × List (LockMessage LockParameters)}
    {sent : List (LockMessage LockParameters)}, r.2 = [] → r.1.ticket = s.ticket → HandedOver s r.1 sent →
      Option.Rel (fun r' more => r'.2 = [] ∧ r'.1.ticket = s.ticket ∧ HandedOver s r'.1 (sent ++ more))
        (syncEntering false objectName l r) ((withNext s.orphan l).mapM s.request)
  | [], r, sent, hr, ht, h => .some ⟨hr, ht, show HandedOver s r.1 (sent ++ []) by rwa [List.append_nil]⟩
  | e :: l, r, sent, hr, ht, h => by
    have he : r.1.ticket e.2 = s.ticket e.2 := by rw [ht]
    unfold syncEntering withNext
    rw [h.orphan he]
    split
    · rw [h.relock he, List.mapM_cons]
      cases s.request (e.2, l.head?.map Prod.snd) with
      | none => exact .none
      | some m =>
        have ih := syncEntering_rel objectName l (r := (r.1.send (m.withPayload (.lock m.payload)), r.2)) hr ht (h.send m)
        show Option.Rel _ (syncEntering false objectName l (r.1.send (m.withPayload (.lock m.payload)), r.2))
          (((withNext s.orphan l).mapM s.request).bind fun rest => some (m :: rest))
        generalize syncEntering false objectName l (r.1.send (m.withPayload (.lock m.payload)), r.2) = x,
          (withNext s.orphan l).mapM s.request = y at ih
        cases ih with
        | none => exact .none
        | some hx => exact .some ⟨hx.1, hx.2.1, by rw [List.append_cons]; exact hx.2.2⟩
    · exact syncEntering_rel objectName l hr ht h

/-- The tickets of one object; a locked orphan is given to leader #0. -/
theorem syncTickets_rel (objectName : QString) : ∀ (l : List (QString × Nat))
    {r : (Snaplock × List (LockMessage LockParameters)) × QString} {sent : List (LockMessage LockParameters)},
    r.1.2 = [] → HandedOver s r.1.1 sent →
      Option.Rel (fun r' more => r'.1.2 = [] ∧ HandedOver s r'.1.1 (sent ++ more)) (syncTickets false objectName l r)
        ((withNext (fun p => !(s.ticket p).locked && s.orphan p) l).mapM s.request)
  | [], r, sent, hr, h => .some ⟨hr, show HandedOver s r.1.1 (sent ++ []) by rwa [List.append_nil]⟩
  | e :: l, (r, serialized), sent, hr, h => by
    unfold syncTickets withNext
    rw [h.locked e.2]
    cases hlocked : (s.ticket e.2).locked with
    | true =>
      rw [if_pos rfl]
      refine syncTickets_rel objectName l hr ?_
      dsimp only
      split
      · exact h.setOwner hlocked _
      · exact h
    | false =>
      have he : r.1.ticket e.2 = s.ticket e.2 := (h.ticket e.2).resolve_right fun hne => by
        rw [hlocked] at hne
        exact Bool.false_ne_true hne.1
      rw [if_neg Bool.false_ne_true, h.orphan he, Bool.not_false, Bool.true_and]
      split
      · rw [h.relock he, List.mapM_cons]
        cases s.request (e.2, l.head?.map Prod.snd) with
        | none => exact .none
        | some m =>
          have ih := syncTickets_rel objectName l (r := ((r.1.send (m.withPayload (.lock m.payload)), r.2), serialized)) hr
            (h.send m)
          show Option.Rel _ (syncTickets false objectName l ((r.1.send (m.withPayload (.lock m.payload)), r.2), serialized))
            (((withNext (fun p => !(s.ticket p).locked && s.orphan p) l).mapM s.request).bind fun rest => some (m :: rest))
          generalize syncTickets false objectName l ((r.1.send (m.withPayload (.lock m.payload)), r.2), serialized) = x,
            (withNext (fun p => !(s.ticket p).locked && s.orphan p) l).mapM s.request = y at ih
          cases ih with
          | none => exact .none
          | some hx => exact .some ⟨hx.1, by rw [List.append_cons]; exact hx.2⟩
      · exact syncTickets_rel objectName l hr h

theorem filterMap_lockCommands (l : List (LockMessage LockParameters)) : ((lockCommands l).filterMap fun m =>
    match m.payload with
    | .lock p => some (m.withPayload p)
    | _ => none) = l := by
  unfold lockCommands
  rw [List.filterMap_map]
  exact List.filterMap_some

/-- What is sent after the requests is no LOCK. -/
theorem HandedOver.locksBetween {u : Snaplock} {sent : List (LockMessage LockParameters)} (h : HandedOver s u sent)
    {l : List (LockMessage LockCommand)} (hl : ∀ m ∈ l, ∀ p, m.payload ≠ .lock p) {u' : Snaplock} (hu : u'.sent = u.sent ++ l) :
    s.locksBetween u' = sent := by
  unfold Snaplock.locksBetween
  rw [hu, h.sent, List.append_assoc, List.drop_left, List.filterMap_append, filterMap_lockCommands]
  refine (congrArg (sent ++ ·) (List.filterMap_eq_nil_iff.mpr fun m hm => ?_)).trans (List.append_nil _)
  have := hl m hm
  split
  · rename_i p hp
    exact absurd hp (this p)
  · rfl

theorem HandedOver.sendLockTickets {u : Snaplock} {sent : List (LockMessage LockParameters)} (h : HandedOver s u sent)
    (hsize : s.leaders.length = 2 ∨ s.leaders.length = 3) (serialized : QString) :
    ∃ u', u.sendLockTickets serialized = some u' ∧ s.locksBetween u' = sent := by
  unfold Snaplock.sendLockTickets
  dsimp only
  split
  · exact ⟨u, rfl, h.locksBetween (l := []) (fun m hm => absurd hm List.not_mem_nil) (List.append_nil _).symm⟩
  · have hleaders : u.leaders = s.leaders := by rw [h.cluster]
    unfold Cluster.getLeaderA Cluster.getLeaderB
    rw [hleaders]
    rcases hsize with hsize | hsize
    · obtain ⟨a, b, hab⟩ := List.length_eq_two.mp hsize
      rw [hab]
      refine ⟨_, rfl, h.locksBetween (fun m hm p heq => ?_) rfl⟩
      rw [List.mem_singleton.mp hm] at heq
      cases heq
    · obtain ⟨a, b, c, habc⟩ := List.length_eq_three.mp hsize
      rw [habc]
      refine ⟨_, rfl, h.locksBetween (fun m hm p heq => ?_) (List.append_assoc ..)⟩
      rcases List.mem_cons.mp hm with rfl | hm
      · cases heq
      · rw [List.mem_singleton.mp hm] at heq
        cases heq

/-- A leader that is not leader #0 sends the requests of all orphans, unless a loop fails. -/
theorem synchronizeLeaders_rel (hsize : s.leaders.length = 2 ∨ s.leaders.length = 3) (hleader : s.isLeader = true)
    (hfirst : (s.leaders[0]?.map fun l => decide ((s.computer l).id = s.myId)) = some false) :
    Option.Rel (fun s' requests => s.locksBetween s' = requests) (s.synchronizeLeaders now) (s.orphansWithNext.mapM s.request) := by
  have hstart : HandedOver s s [] := ⟨rfl, rfl, (List.append_nil _).symm, fun _ => Or.inl rfl⟩
  have hentering := foldlM_rel (f := fun r e => syncEntering false e.1 e.2.entries r)
    (g := fun e : QString × SortedMap QString Nat => withNext s.orphan e.2.entries) (h := s.request)
    (R := fun r sent => r.2 = [] ∧ r.1.ticket = s.ticket ∧ HandedOver s r.1 sent)
    (fun r sent e hr => syncEntering_rel e.1 e.2.entries hr.1 hr.2.1 hr.2.2) (l := s.enteringTickets.entries) (s := (s, []))
    ⟨rfl, rfl, hstart⟩
  have hlong : ¬ s.leaders.length ≤ 1 := by omega
  unfold synchronizeLeaders orphansWithNext
  rw [if_neg hlong, hleader, if_neg (by decide), hfirst, List.mapM_append]
  show Option.Rel _ (((s.enteringTickets.entries.foldlM (fun r e => syncEntering false e.1 e.2.entries r) (s, []))).bind _)
    (((s.enteringTickets.entries.flatMap fun e => withNext s.orphan e.2.entries).mapM s.request).bind _)
  generalize s.enteringTickets.entries.foldlM (fun r e => syncEntering false e.1 e.2.entries r) (s, []) = x,
    (s.enteringTickets.entries.flatMap fun e => withNext s.orphan e.2.entries).mapM s.request = y at hentering
  cases hentering with
  | none => exact .none
  | @some r sent hr =>
    have htickets := foldlM_rel (f := fun r e => syncTickets false e.1 e.2.entries r)
      (g := fun e : QString × SortedMap QString Nat =>
        withNext (fun p => !(s.ticket p).locked && s.orphan p) e.2.entries) (h := s.request)
      (R := fun r sent => r.1.2 = [] ∧ HandedOver s r.1.1 sent)
      (fun r sent e hr => syncTickets_rel e.1 e.2.entries hr.1 hr.2) (l := s.tickets.entries) (s := (r, []))
      ⟨hr.1, hr.2.2⟩
    rw [← hr.2.2.tickets] at htickets
    show Option.Rel _ ((r.1.tickets.entries.foldlM (fun r e => syncTickets false e.1 e.2.entries r) (r, [])).bind _)
      (((s.tickets.entries.flatMap fun e => withNext (fun p => !(s.ticket p).locked && s.orphan p) e.2.entries).mapM s.request).bind _)
    rw [← hr.2.2.tickets]
    generalize r.1.tickets.entries.foldlM (fun r e => syncTickets false e.1 e.2.entries r) (r, []) = x,
      (r.1.tickets.entries.flatMap fun e => withNext (fun p => !(s.ticket p).locked && s.orphan p) e.2.entries).mapM s.request = y
      at htickets
    cases htickets with
    | none => exact .none
    | @some r' more hr' =>
      obtain ⟨⟨u, locks⟩, serialized⟩ := r'
      obtain ⟨rfl, hu⟩ := hr'
      obtain ⟨u', hu', hlocks⟩ := hu.sendLockTickets hsize serialized
      show Option.Rel _ (u.sendLockTickets serialized) (some ([] ++ sent ++ more))
      rw [hu']
      exact .some hlocks

/-- A leader that is not leader #0 requests each orphan once, with the data of that ticket, exactly when
    no orphan stands in the tables twice and each is followed by a ticket with its serial number. -/
theorem requestsOrphans_iff (hsize : s.leaders.length = 2 ∨ s.leaders.length = 3) (hleader : s.isLeader = true)
    (hfirst : (s.leaders[0]?.map fun l => decide ((s.computer l).id = s.myId)) = some false) :
    s.RequestsOrphans now ↔ s.orphans.Nodup ∧ s.OrphansFollowed := by
  have hrel := @synchronizeLeaders_rel now _ hsize hleader hfirst
  have hiff : ∀ {requests}, s.orphansWithNext.mapM s.request = some requests →
      (List.Forall₂ s.RequestFor s.orphans requests ↔ s.OrphansFollowed) := fun h => by
    rw [← orphansWithNext_map, List.forall₂_map_left_iff]
    exact forall₂_iff_of_mapM (R := fun d m => s.RequestFor d.1 m) (fun _ _ hm => request_iff hm) h
  constructor
  · rintro ⟨s', hs', hnodup, hrequests⟩
    rw [hs'] at hrel
    generalize hm : s.orphansWithNext.mapM s.request = x at hrel
    cases hrel with
    | some hlocks => exact ⟨hnodup, (hiff hm).mp (hlocks ▸ hrequests)⟩
  · rintro ⟨hnodup, hfollowed⟩
    obtain ⟨requests, hm⟩ := exists_mapM (f := s.request) (l := s.orphansWithNext) fun d hd => by
      obtain ⟨hpid, q, hq, -⟩ := hfollowed d hd
      obtain ⟨pid, hpid⟩ := Option.ne_none_iff_exists'.mp hpid
      unfold request relockMessage
      dsimp only
      rw [hpid, hq]
      exact ⟨_, rfl⟩
    generalize hs' : s.synchronizeLeaders now = x at hrel
    rw [hm] at hrel
    cases hrel with
    | some hlocks => exact ⟨_, hs', hnodup, hlocks ▸ (hiff hm).mpr hfollowed⟩

end Loops

/-! ### One orphan -/

/-- Leader #1 of three, with the given tickets on their way in: entering key, serial number and owner. -/
def takeover (entering : List (String × Int × String)) : Snaplock where
  serverName := "beta".toList
  myId := "14|2|10.0.0.2|100|beta".toList
  myIpAddress := "10.0.0.2".toList
  startTime := 0
  pidMax := 32768
  computer p := match p with
    | 0 => { id := "14|1|10.0.0.1|100|alpha".toList, name := "alpha".toList }
    | 1 => { id := "14|2|10.0.0.2|100|beta".toList, name := "beta".toList, self := true }
    | _ => { id := "14|3|10.0.0.3|100|gamma".toList, name := "gamma".toList }
  nextComputer := 3
  computers := ∅
  leaders := [0, 1, 2]
  ticket p := match entering[p]? with
    | some (key, serial, owner) => { objectName := "o".toList, enteringKey := key.toList, serial, owner := owner.toList }
    | none => {}
  enteringTickets := SortedMap.insert ∅ "o".toList (SortedMap.insertAll ∅ (entering.zipIdx.map fun e => (e.1.1.toList, e.2)))

/-- The orphan is followed by a ticket of leader #0 that has the same serial number. -/
theorem requestsOrphans_iff_followed : (takeover [("alpha/5", 7, "delta"), ("beta/6", 7, "alpha")]).RequestsOrphans 0 := by
  refine (requestsOrphans_iff (Or.inr rfl) (by decide) (by decide)).mpr ⟨by decide, fun d hd => ?_⟩
  have hone : (takeover [("alpha/5", 7, "delta"), ("beta/6", 7, "alpha")]).orphansWithNext = [(0, some 1)] := by decide
  rw [hone] at hd
  rw [List.mem_singleton.mp hd]
  exact ⟨by decide, 1, rfl, rfl⟩

/-- The only ticket of an object is an orphan: its serial number is read past the end of the table. -/
theorem not_requestsOrphans : ¬ ∀ (now : Int) (s : Snaplock), (s.leaders.length = 2 ∨ s.leaders.length = 3) → s.isLeader = true →
    (s.leaders[0]?.map fun l => decide ((s.computer l).id = s.myId)) = some false → s.RequestsOrphans now := by
  intro h
  obtain ⟨s', hs', -⟩ := h 0 (takeover [("alpha/5", 7, "delta")]) (Or.inr rfl) (by decide) (by decide)
  have hnone : ((takeover [("alpha/5", 7, "delta")]).synchronizeLeaders 0).isNone = true := by decide
  rw [hs'] at hnone
  exact Bool.noConfusion hnone

end Snaplock
end Snapwebsites
