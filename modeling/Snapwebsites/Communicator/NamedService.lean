import Snapwebsites.Communicator.Flood

/-! # Messages for a named service

A message for a service, with no server, is relayed by every daemon that knows nothing of the service,
with the parameters of a broadcast. A daemon that has the service hands the message to it and is done:
it does not enter the identifier, so what keeps it from a second copy is only that its address is among
the informed ones. Every daemon on the way of a copy has put its neighbors there, so the path of a copy
has no shortcut (`RelayPath`), and two copies come to a daemon only from two different relays. -/

namespace Snapwebsites
open QString SnapCommunicatorMessage Daemon

namespace Network
variable {ι : Type} (net : Network ι) (origin : ι)

/-- The service is registered with the daemon. -/
def HasService (service : QString) (a : ι) : Prop :=
  ∃ c ∈ (net.daemon a).connections, c.kind = .serviceConnection ∧ c.name = service ∧ c.serverName ≠ []

/-- The daemon sends messages for the service on: it neither has the service nor waits for it. -/
def Relay (service : QString) (a : ι) : Prop :=
  ¬ net.HasService service a ∧ service ∉ (net.daemon a).localServicesList

/-- The ways of a copy, the last daemon first: along relays, and with no link between daemons that are
    not next to each other. -/
inductive RelayPath (service : QString) : List ι → Prop
  | start : RelayPath service [origin]
  | cons {a b : ι} {p : List ι} : RelayPath service (a :: p) → net.Relay service a → net.Linked a b →
      (∀ x ∈ p, ¬ net.Linked x b) → b ∉ a :: p → RelayPath service (b :: a :: p)

/-- A client of the daemon `origin` sends a message for a service at the time `now`. -/
structure NamedMessage (now : Int) (message : SnapCommunicatorMessage) : Prop where
  named : message.service ≠ [] ∧ isBroadcastService message.service = false ∧ ' ' ∉ message.service
  noServer : message.server = []
  first : message.hasParameter "broadcast_msgid" = false
  clock : 0 ≤ now ∧ now + 10 < 0x8000000000000000
  fresh : ∀ a, (net.daemon a).receivedBroadcastMessages.find? (net.nextMsgid origin) = none
  ipv4 : ∀ a, (net.daemon a).myAddress.isIpv4 = true

/-- Each daemon with the service is reached over one relay only. -/
def OneRelay (service : QString) : Prop :=
  ∀ b, net.HasService service b → ∀ a a' p p', RelayPath net origin service (b :: a :: p) →
    RelayPath net origin service (b :: a' :: p') → a = a'

/-- The number of times that the daemon `a` has handed a message for the service to it. -/
def forwards [DecidableEq ι] (s : NetworkState ι) (service : QString) (a : ι) : Nat :=
  s.delivered.countP fun e => decide (e.1 = a) && (decide (e.2.1.name = service) && decide (e.2.2.service = service))

/-! ### What one daemon does -/

section Daemon
variable {net} {message m : SnapCommunicatorMessage}

/-- The connection is the one of the service. -/
def isService (service : QString) (c : Connection) : Bool :=
  decide (c.serverName ≠ []) && (decide (c.kind = .serviceConnection) && decide (c.name = service))

/-- The connection leads to another daemon. -/
def accepts (c : Connection) : Bool :=
  decide (c.serverName ≠ []) && (decide (c.kind = .remoteSnapCommunicator) || decide (c.connectionType = .remote))

/-- The loop over the connections ends at the service, or has all connections to other daemons. -/
theorem findService_eq (service : QString) : ∀ (l accepting : List Connection),
    findService [] service true l accepting =
      match l.find? (isService service) with
      | some c => .inl c
      | none => .inr (accepting ++ l.filter accepts)
  | [], accepting => by simp [findService]
  | c :: l, accepting => by
    unfold findService
    rw [List.find?_cons, List.filter_cons]
    by_cases hs : c.serverName = []
    · rw [if_neg (by simp [hs]), findService_eq service l]
      simp [isService, accepts, hs]
    · rw [if_pos ⟨hs, Or.inl rfl⟩]
      cases hk : c.kind with
      | serviceConnection =>
        by_cases hn : c.name = service
        · simp [isService, hs, hk, hn]
        · by_cases ht : c.connectionType = .remote
          · simp [isService, accepts, hs, hk, hn, ht, findService_eq service l]
          · simp [isService, accepts, hs, hk, hn, ht, findService_eq service l]
      | remoteSnapCommunicator => simp [isService, accepts, hs, hk, findService_eq service l]

theorem exists_isService {service : QString} {a : ι} :
    net.HasService service a ↔ ∃ c, (net.daemon a).connections.find? (isService service) = some c := by
  rw [← Option.isSome_iff_exists, List.find?_isSome]
  unfold HasService isService
  simp only [Bool.and_eq_true, decide_eq_true_eq]
  tauto

/-- The connections to other daemons are the ones the loop gathers. -/
theorem accepts_iff {a : ι} {c : Connection} (hc : c ∈ (net.daemon a).connections) :
    accepts c = true ↔ ∃ b, net.peer a c = some b := by
  cases hp : net.peer a c with
  | none =>
    obtain ⟨hk, ht, -⟩ := net.localService a c hc hp
    simp [accepts, hk, ht]
  | some b =>
    obtain ⟨hs, -, hr⟩ := net.remote a c hc b hp
    have : c.kind = .remoteSnapCommunicator ∨ c.connectionType = .remote := by
      cases hk : c.kind with
      | serviceConnection => exact Or.inr (hr hk).1
      | remoteSnapCommunicator => exact Or.inl rfl
    simp [accepts, hs, this]

/-- What goes out of a relay: copies to the daemons at the addresses `new`, one each. -/
structure Relays (net : Network ι) (b : ι) (informed new : List QString) (m' : SnapCommunicatorMessage) (sends : Sends) : Prop where
  services : net.toServices b sends = []
  routed : ∀ x ∈ net.route b sends, x.2 = m' ∧ net.Linked b x.1 ∧ (net.daemon x.1).myAddress.ip ∉ informed ∧
    (net.daemon x.1).myAddress.ip ∈ new
  everyNeighbor : ∀ a, net.Linked b a → (net.daemon a).myAddress.ip ∈ informed ++ new
  plain : ∀ address ∈ new, address ≠ [] ∧ ',' ∉ address
  once : ((net.route b sends).map Prod.fst).Nodup

/-- A daemon that gathers the connections to its neighbors broadcasts over them. -/
theorem broadcastWith_relays {b : ι} {d : Daemon} (now : Int) (bc : Broadcast)
    {informed : List QString} (hi : splitParts ',' bc.informedNeighbors = informed)
    (hne : (net.daemon b).connections.filter accepts ≠ []) :
    ∃ n new sends, d.broadcastWith now m ((net.daemon b).connections.filter accepts) bc =
        ({ d with broadcastSequence := n }, sends) ∧
      net.Relays b informed new (d.stamp now m bc (informed ++ new)) sends := by
  obtain ⟨n, cs, heq, hsub, hnodup, hnot, hall⟩ := @broadcastWith_accepting d m now bc informed hi _ hne
  have hcs : ∀ c ∈ cs, ∃ a, c ∈ (net.daemon b).connections ∧ net.peer b c = some a := fun c hc => by
    obtain ⟨hmem, hacc⟩ := List.mem_filter.mp (hsub.subset hc)
    obtain ⟨a, ha⟩ := (accepts_iff hmem).mp hacc
    exact ⟨a, hmem, ha⟩
  refine ⟨n, cs.map fun c => c.address.ip, _, heq, ?_, fun x hx => ?_, fun a ha => ?_, fun address ha => ?_, ?_⟩
  · refine toServices_eq_nil fun e he => ?_
    obtain ⟨c, hc, rfl⟩ := List.mem_map.mp he
    obtain ⟨a, -, hp⟩ := hcs c hc
    rw [hp]
    exact Option.some_ne_none a
  · obtain ⟨c, hc, hp⟩ := mem_route.mp hx
    obtain ⟨c', hc', heq'⟩ := List.mem_map.mp hc
    obtain ⟨rfl, hm'⟩ := Prod.mk.inj heq'
    obtain ⟨-, hmem, -⟩ := hcs c' hc'
    have hip := (net.peer_ip b c' hmem x.1 hp).2
    exact ⟨hm'.symm, ⟨c', hmem, hp⟩, hip ▸ hnot c' hc', hip ▸ List.mem_map_of_mem hc'⟩
  · obtain ⟨c, hc, hp⟩ := ha
    have := hall c (List.mem_filter.mpr ⟨hc, (accepts_iff hc).mpr ⟨a, hp⟩⟩)
    rwa [(net.peer_ip b c hc a hp).2] at this
  · obtain ⟨c, -, rfl⟩ := List.mem_map.mp ha
    exact ⟨c.address.ip_ne_nil, c.address.ip_plain.1⟩
  · -- two copies for one daemon would go to one address
    refine List.Nodup.of_map (fun a => (net.daemon a).myAddress.ip) ?_
    rw [List.map_map]
    have hips : ∀ l : List Connection, (∀ c ∈ l, c ∈ cs) → ∀ m' : SnapCommunicatorMessage,
        (net.route b (l.map fun c => (c, m'))).map (fun x => (net.daemon x.1).myAddress.ip) = l.map fun c => c.address.ip := by
      intro l
      induction l with
      | nil => intro _ _; rfl
      | cons c l ih =>
        intro hl m'
        obtain ⟨a, hmem, hp⟩ := hcs c (hl c List.mem_cons_self)
        have ih := ih (fun c' hc' => hl c' (List.mem_cons_of_mem c hc')) m'
        unfold route at ih ⊢
        rw [List.map_cons, List.filterMap_cons_some (b := (a, m')) (by dsimp only; rw [hp]; rfl), List.map_cons, ih,
          List.map_cons, (net.peer_ip b c hmem a hp).2]
    have hall := hips cs (fun c hc => hc) (d.stamp now m bc (informed ++ cs.map fun c => c.address.ip))
    exact (congrArg List.Nodup hall).mpr hnodup

/-- A message with which a daemon answers the one it had the message from. -/
def IsReport (m : SnapCommunicatorMessage) : Prop :=
  m.service = [] ∧ m.server = [] ∧ m.hasParameter "broadcast_msgid" = false

theorem isReport_of_mem {source : Connection} {e : Connection × SnapCommunicatorMessage}
    (h : e ∈ transmissionReport source m) : IsReport e.2 := by
  unfold transmissionReport at h
  split at h
  · rw [List.mem_singleton] at h
    subst h
    exact ⟨rfl, rfl, rfl⟩
  · cases h

/-- What a daemon does with a message for the service: it is done with it, it hands it to the service or
    it is a relay. -/
theorem dispatch_named {origin : ι} {now : Int} (h : NamedMessage net origin now message) {b : ι} {d : Daemon}
    (hd : SameConnections (net.daemon b) d) (hm : CopyOf message m) (now' : Int) (source : Connection) :
    (∃ d' sends, d.dispatch now' source m = some (d', sends) ∧ SameConnections d d' ∧
      d'.receivedBroadcastMessages = d.receivedBroadcastMessages ∧ ∀ e ∈ sends, IsReport e.2) ∨
    (∃ c ∈ (net.daemon b).connections, c.name = message.service ∧ net.peer b c = none ∧
      net.HasService message.service b ∧ d.dispatch now' source m = some (d, [(c, m)])) ∨
    (net.Relay message.service b ∧ (net.daemon b).connections.filter accepts ≠ [] ∧
      d.dispatch now' source m = d.broadcastMessage now' m ((net.daemon b).connections.filter accepts)) := by
  have hserver : m.server = [] := hm.server.trans h.noServer
  have hdispatch : d.dispatch now' source m =
      if d.isForUs [] m then some (d, []) else d.forwardToService now' source [] m := by
    unfold dispatch
    rw [hserver, hm.service, if_neg (show ([] : QString) ≠ ['.'] by decide), h.named.2.1]
    rfl
  rw [hdispatch]
  by_cases hus : d.isForUs [] m = true
  · rw [if_pos hus]
    exact Or.inl ⟨d, [], rfl, .refl d, rfl, fun e he => absurd he List.not_mem_nil⟩
  · rw [if_neg hus]
    have hfind := findService_eq message.service d.connections []
    rw [hd.connections] at hfind
    have hforward : d.forwardToService now' source [] m =
        (findService [] message.service true (net.daemon b).connections []).elim
          (fun c => some (d, if verifyCommand c m then [(c, m)] else []))
          fun accepting =>
            if d.localServicesList.contains message.service then some (d.cacheMessage now' m, transmissionReport source m)
            else if [] = d.serverName then some (d, transmissionReport source m)
            else if accepting = [] then some (d, [])
            else d.broadcastMessage now' m accepting := by
      unfold forwardToService
      rw [hm.service, hd.connections]
      generalize hall : findService [] message.service true (net.daemon b).connections [] = r
      cases r <;> simp only [decide_true, Bool.true_or, hall] <;> rfl
    rw [hforward, hfind]
    cases hc : (net.daemon b).connections.find? (isService message.service) with
    | some c =>
      have hmem := List.mem_of_find?_eq_some hc
      have hservice := List.find?_some hc
      simp only [isService, Bool.and_eq_true, decide_eq_true_eq] at hservice
      have hpeer : net.peer b c = none := by
        cases hp : net.peer b c with
        | none => rfl
        | some a =>
          have := ((net.remote b c hmem a hp).2.2 hservice.2.1).2
          rw [hservice.2.2] at this
          exact absurd this h.named.2.2
      simp only [Sum.elim_inl]
      by_cases hv : verifyCommand c m = true
      · rw [if_pos hv]
        exact Or.inr (Or.inl ⟨c, hmem, hservice.2.2, hpeer, exists_isService.mpr ⟨c, hc⟩, rfl⟩)
      · rw [if_neg hv]
        exact Or.inl ⟨d, [], rfl, .refl d, rfl, fun e he => absurd he List.not_mem_nil⟩
    | none =>
      simp only [List.nil_append, Sum.elim_inr]
      by_cases hl : d.localServicesList.contains message.service = true
      · rw [if_pos hl]
        refine Or.inl ⟨_, _, rfl, ?_, ?_, fun e he => isReport_of_mem he⟩
        · unfold cacheMessage
          dsimp only
          split <;> exact ⟨rfl, rfl, rfl, rfl⟩
        · unfold cacheMessage
          dsimp only
          split <;> rfl
      · have hname : ¬ [] = d.serverName := fun heq => net.serverName_ne_nil b (hd.serverName ▸ heq.symm)
        rw [if_neg hl, if_neg hname]
        by_cases ha : (net.daemon b).connections.filter accepts = []
        · rw [if_pos ha]
          exact Or.inl ⟨d, [], rfl, .refl d, rfl, fun e he => absurd he List.not_mem_nil⟩
        · rw [if_neg ha]
          refine Or.inr (Or.inr ⟨⟨fun hs => ?_, fun hs => hl ?_⟩, ha, rfl⟩)
          · obtain ⟨c, hc'⟩ := exists_isService.mp hs
            rw [hc] at hc'
            cases hc'
          · rw [hd.localServicesList]
            exact List.contains_iff_mem.mpr hs

end Daemon

/-! ### The invariant of the relaying -/

section Relaying
variable (now : Int) (message : SnapCommunicatorMessage) (s : NetworkState ι)

/-- A copy in flight has come along relays that have sent it once, and knows all their neighbors. -/
structure OnTheWay (x : ι × SnapCommunicatorMessage) (informed : List QString) : Prop where
  copyOf : CopyOf message x.2
  marked : Marked (net.nextMsgid origin) (now + 10) informed x.2
  path : ∃ a p, RelayPath net origin message.service (x.1 :: a :: p) ∧ (a = origin ∨ net.Received origin now s a) ∧
    ∀ y ∈ a :: p, (net.daemon y).myAddress.ip ∈ informed ∧ ∀ z, net.Linked y z → (net.daemon z).myAddress.ip ∈ informed

/-- The number of copies on the way to the daemon `b`. -/
def copies [DecidableEq ι] (l : List (ι × SnapCommunicatorMessage)) (service : QString) (b : ι) : Nat :=
  l.countP fun x => decide (x.1 = b) && decide (x.2.service = service)

/-- The copies that have come to the daemon `b`, or still come. -/
def total [DecidableEq ι] (s : NetworkState ι) (service : QString) (b : ι) : Nat :=
  copies s.inFlight service b + forwards s service b

structure Relaying [DecidableEq ι] : Prop where
  same : ∀ a, SameConnections (net.daemon a) (s.daemon a)
  timeout : ∀ a t, (s.daemon a).receivedBroadcastMessages.find? (net.nextMsgid origin) = some t → t = now + 10
  inFlight : ∀ x ∈ s.inFlight, IsReport x.2 ∨ ∃ informed, OnTheWay net origin now message s x informed
  once : ∀ b, net.HasService message.service b → total s message.service b ≤ 1
  fromRelay : ∀ b, net.HasService message.service b → 0 < total s message.service b → b = origin ∨
    ∃ a p, RelayPath net origin message.service (b :: a :: p) ∧ (a = origin ∨ net.Received origin now s a)

end Relaying

section Step
variable {net origin} {now : Int} {message m : SnapCommunicatorMessage} {s s' : NetworkState ι}

theorem RelayPath.mem_origin {service : QString} {p : List ι} (h : RelayPath net origin service p) : origin ∈ p := by
  induction h with
  | start => exact List.mem_cons_self
  | cons _ _ _ _ _ ih => exact List.mem_cons_of_mem _ ih

theorem OnTheWay.mono (hr : ∀ a, net.Received origin now s a → net.Received origin now s' a)
    {x : ι × SnapCommunicatorMessage} {informed : List QString} (h : OnTheWay net origin now message s x informed) :
    OnTheWay net origin now message s' x informed :=
  ⟨h.copyOf, h.marked, h.path.imp fun _ ⟨p, hp, ha, hall⟩ => ⟨p, hp, ha.imp_right (hr _), hall⟩⟩

variable [DecidableEq ι]

theorem copies_append (l l' : List (ι × SnapCommunicatorMessage)) (service : QString) (b : ι) :
    copies (l ++ l') service b = copies l service b + copies l' service b := List.countP_append

theorem copies_isReport {l : List (ι × SnapCommunicatorMessage)} (h : ∀ x ∈ l, IsReport x.2) {service : QString}
    (hs : service ≠ []) (b : ι) : copies l service b = 0 := by
  refine List.countP_eq_zero.mpr fun x hx => ?_
  rw [(h x hx).1]
  simp [Ne.symm hs]

theorem copies_le_once {l : List (ι × SnapCommunicatorMessage)} (h : (l.map Prod.fst).Nodup) (service : QString) (b : ι) :
    copies l service b ≤ if b ∈ l.map Prod.fst then 1 else 0 := by
  have hle : copies l service b ≤ (l.map Prod.fst).count b := by
    unfold copies List.count
    rw [List.countP_map]
    refine List.countP_mono_left fun x _ hx => ?_
    simp only [Bool.and_eq_true, decide_eq_true_eq] at hx
    simp [hx.1]
  refine hle.trans ?_
  split
  · rename_i hm
    exact (List.count_eq_one_of_mem h hm).le
  · rename_i hm
    exact (List.count_eq_zero.mpr hm).le

/-- A daemon is done with a message: the copies that have come or still come are no more than before. -/
theorem Relaying.settle (hs : Relaying net origin now message s) (hsame : ∀ a, SameConnections (net.daemon a) (s'.daemon a))
    (hreceived : ∀ a, (s'.daemon a).receivedBroadcastMessages = (s.daemon a).receivedBroadcastMessages)
    (hflight : ∀ x ∈ s'.inFlight, x ∈ s.inFlight ∨ IsReport x.2)
    (htotal : ∀ b, total s' message.service b ≤ total s message.service b) : Relaying net origin now message s' := by
  have hiff : ∀ a, net.Received origin now s' a ↔ net.Received origin now s a := fun a => by
    unfold Received
    rw [hreceived]
  refine ⟨hsame, fun a t ht => hs.timeout a t (hreceived a ▸ ht), fun x hx => ?_, fun b hb => (htotal b).trans (hs.once b hb),
    fun b hb hpos => ?_⟩
  · rcases hflight x hx with hx | hx
    · exact (hs.inFlight x hx).imp_right fun ⟨informed, h⟩ => ⟨informed, h.mono fun a => (hiff a).mpr⟩
    · exact Or.inl hx
  · exact (hs.fromRelay b hb (hpos.trans_le (htotal b))).imp_right fun ⟨a, p, hp, ha⟩ => ⟨a, p, hp, ha.imp_right (hiff a).mpr⟩

/-- A relay sends a copy on: a daemon that has the service has none from another relay. -/
theorem Relaying.relay (hone : net.OneRelay origin message.service) (hs : Relaying net origin now message s) {b : ι}
    {informed new : List QString} {m' : SnapCommunicatorMessage} {sends : Sends} {d : Daemon}
    {inFlight : List (ι × SnapCommunicatorMessage)} (hc : OnTheWay net origin now message s (b, m) informed)
    (hbr : ¬ net.Received origin now s b) (hrelay : net.Relay message.service b) (hsp : net.Relays b informed new m' sends)
    (hcopy : CopyOf message m') (hm' : Marked (net.nextMsgid origin) (now + 10) ((net.daemon b).informedWith (informed ++ new)) m')
    (hd : SameConnections (s.daemon b) d)
    (hreceived : ∀ a, net.Received origin now (net.after s b inFlight (d, sends)) a ↔ a = b ∨ net.Received origin now s a)
    (hold : ∀ x ∈ inFlight, x ∈ s.inFlight)
    (hcopies : ∀ a, copies inFlight message.service a ≤ copies s.inFlight message.service a) :
    Relaying net origin now message (net.after s b inFlight (d, sends)) := by
  obtain ⟨a, p, hpath, ha, hknown⟩ := hc.path
  have hother : ∀ a ≠ b, (net.after s b inFlight (d, sends)).daemon a = s.daemon a := fun a hab => Function.update_of_ne hab _ _
  have hself : (net.after s b inFlight (d, sends)).daemon b = d := Function.update_self ..
  have hflight : (net.after s b inFlight (d, sends)).inFlight = inFlight ++ net.route b sends := rfl
  have hdelivered : (net.after s b inFlight (d, sends)).delivered = s.delivered := by
    unfold after
    rw [hsp.services, List.append_nil]
  generalize net.after s b inFlight (d, sends) = s' at *
  have hb := (hreceived b).mpr (Or.inl rfl)
  have hmono : ∀ a, net.Received origin now s a → net.Received origin now s' a := fun a ha => (hreceived a).mpr (Or.inr ha)
  have hlinkab : net.Linked a b := by
    cases hpath
    assumption
  have hbo : b ≠ origin := by
    cases hpath with
    | cons hp _ _ _ hnot => exact fun heq => hnot (heq ▸ hp.mem_origin)
  -- the path of a new copy
  have hnext : ∀ x ∈ net.route b sends, RelayPath net origin message.service (x.1 :: b :: a :: p) := fun x hx => by
    obtain ⟨-, hlink, hnot, -⟩ := hsp.routed x hx
    refine .cons hpath hrelay hlink (fun y hy hl => hnot ((hknown y hy).2 _ hl)) fun hmem => ?_
    rcases List.mem_cons.mp hmem with heq | hmem
    · exact hnot (heq ▸ (hknown a List.mem_cons_self).2 b hlinkab)
    · exact hnot (hknown _ hmem).1
  have htotal : ∀ c, total s' message.service c ≤ total s message.service c + copies (net.route b sends) message.service c := by
    intro c
    unfold total forwards
    rw [hflight, hdelivered, copies_append]
    have := hcopies c
    omega
  have hnone : ∀ c, net.HasService message.service c → c ∈ (net.route b sends).map Prod.fst → total s message.service c = 0 := by
    intro c hcs hmem
    obtain ⟨x, hx, rfl⟩ := List.mem_map.mp hmem
    have hpx := hnext x hx
    by_contra hne
    rcases hs.fromRelay x.1 hcs (Nat.pos_of_ne_zero hne) with heq | ⟨a', p', hp', ha'⟩
    · cases hpx with
      | cons hp _ _ _ hnot => exact hnot (heq ▸ hp.mem_origin)
    · obtain rfl := hone x.1 hcs _ _ _ _ hp' hpx
      exact ha'.elim hbo hbr
  have hroute := fun c => copies_le_once hsp.once message.service c
  refine ⟨fun c => ?_, fun c t hct => ?_, fun x hx => ?_, fun c hcs => ?_, fun c hcs hpos => ?_⟩
  · by_cases hcb : c = b
    · subst hcb
      rw [hself]
      exact (hs.same c).trans hd
    · rw [hother c hcb]
      exact hs.same c
  · by_cases hcb : c = b
    · subst hcb
      have : some t = some (now + 10) := hct.symm.trans hb
      exact Option.some.inj this
    · rw [hother c hcb] at hct
      exact hs.timeout c t hct
  · rw [hflight] at hx
    rcases List.mem_append.mp hx with hx | hx
    · exact (hs.inFlight x (hold x hx)).imp_right fun ⟨informed, h⟩ => ⟨informed, h.mono hmono⟩
    · obtain ⟨hxm, -, -, -⟩ := hsp.routed x hx
      have hsub : ∀ {address}, address ∈ informed ++ new → address ∈ (net.daemon b).informedWith (informed ++ new) := fun h =>
        mem_informedWith.mpr (Or.inl h)
      refine Or.inr ⟨_, hxm ▸ hcopy, hxm ▸ hm', b, a :: p, hnext x hx, Or.inr hb, fun y hy => ?_⟩
      rcases List.mem_cons.mp hy with rfl | hy
      · exact ⟨hsub (List.mem_append_left _ ((hknown a List.mem_cons_self).2 y hlinkab)), fun z hz => hsub (hsp.everyNeighbor z hz)⟩
      · exact ⟨hsub (List.mem_append_left _ (hknown y hy).1), fun z hz => hsub (List.mem_append_left _ ((hknown y hy).2 z hz))⟩
  · have h₁ := htotal c
    have h₂ := hroute c
    have h₃ := hs.once c hcs
    split at h₂
    · rename_i hmem
      have := hnone c hcs hmem
      omega
    · omega
  · have h₁ := htotal c
    have h₂ := hroute c
    split at h₂
    · rename_i hmem
      obtain ⟨x, hx, rfl⟩ := List.mem_map.mp hmem
      exact Or.inr ⟨b, a :: p, hnext x hx, Or.inr hb⟩
    · have hpos' : 0 < total s message.service c := by omega
      exact (hs.fromRelay c hcs hpos').imp_right fun ⟨a, p, hp, ha⟩ => ⟨a, p, hp, ha.imp_right (hmono a)⟩

theorem total_after (b c : ι) (inFlight : List (ι × SnapCommunicatorMessage)) (d : Daemon) (sends : Sends) (service : QString) :
    total (net.after s b inFlight (d, sends)) service c =
      copies inFlight service c + copies (net.route b sends) service c + (forwards s service c +
        (net.toServices b sends).countP fun e =>
          decide (e.1 = c) && (decide (e.2.1.name = service) && decide (e.2.2.service = service))) := by
  unfold total forwards after
  rw [copies_append, List.countP_append]

/-- Reports are not counted. -/
theorem total_after_isReport {b : ι} {sends : Sends} (h : ∀ e ∈ sends, IsReport e.2) {service : QString} (hs : service ≠ [])
    (inFlight : List (ι × SnapCommunicatorMessage)) (d : Daemon) (c : ι) :
    total (net.after s b inFlight (d, sends)) service c = copies inFlight service c + forwards s service c := by
  have hroute : ∀ x ∈ net.route b sends, IsReport x.2 := fun x hx => by
    obtain ⟨c, hc, -⟩ := mem_route.mp hx
    exact h (c, x.2) hc
  have hservices : ((net.toServices b sends).countP fun e =>
      decide (e.1 = c) && (decide (e.2.1.name = service) && decide (e.2.2.service = service))) = 0 := by
    refine List.countP_eq_zero.mpr fun e he => ?_
    obtain ⟨e', he', heq⟩ := List.mem_filterMap.mp he
    split at heq
    · cases heq
      rw [(h e' he').1]
      simp [Ne.symm hs]
    · cases heq
  rw [total_after, copies_isReport hroute hs, hservices]
  rfl

theorem total_after_service {b : ι} {c : Connection} (hp : net.peer b c = none)
    (inFlight : List (ι × SnapCommunicatorMessage)) (d : Daemon) (service : QString) (a : ι) :
    total (net.after s b inFlight (d, [(c, m)])) service a ≤
      copies inFlight service a + forwards s service a + if a = b then 1 else 0 := by
  have hroute : net.route b [(c, m)] = [] := route_eq_nil fun e he => by
    rw [List.mem_singleton] at he
    rw [he]
    exact hp
  have hservices : net.toServices b [(c, m)] = [(b, c, m)] := toServices_eq_map fun e he => by
    rw [List.mem_singleton] at he
    rw [he]
    exact hp
  rw [total_after, hroute, hservices, List.countP_singleton]
  have hnil : copies ([] : List (ι × SnapCommunicatorMessage)) service a = 0 := rfl
  by_cases hab : a = b
  · rw [if_pos hab]
    split <;> omega
  · rw [if_neg hab, if_neg (by simp [Ne.symm hab])]
    omega

theorem sameConnections_after {d : Daemon} {b : ι} (hs : ∀ a, SameConnections (net.daemon a) (s.daemon a))
    (hd : SameConnections (s.daemon b) d) (inFlight : List (ι × SnapCommunicatorMessage)) (sends : Sends) (a : ι) :
    SameConnections (net.daemon a) ((net.after s b inFlight (d, sends)).daemon a) := by
  unfold after
  by_cases hab : a = b
  · subst hab
    simp only [Function.update_self]
    exact (hs a).trans hd
  · simp only [Function.update_of_ne hab]
    exact hs a

theorem received_after_of_eq {d : Daemon} {b : ι} (hd : d.receivedBroadcastMessages = (s.daemon b).receivedBroadcastMessages)
    (inFlight : List (ι × SnapCommunicatorMessage)) (sends : Sends) (a : ι) :
    ((net.after s b inFlight (d, sends)).daemon a).receivedBroadcastMessages = (s.daemon a).receivedBroadcastMessages := by
  unfold after
  by_cases hab : a = b
  · subst hab
    simp only [Function.update_self]
    exact hd
  · simp only [Function.update_of_ne hab]

theorem Relaying.step (h : NamedMessage net origin now message) (hone : net.OneRelay origin message.service)
    (hs : Relaying net origin now message s) (hstep : net.Step (now + 10) s s') : Relaying net origin now message s' := by
  obtain ⟨hinFlight, hnow, hr⟩ := hstep
  rename_i b m l₁ l₂ now' source r
  have hold : ∀ x ∈ l₁ ++ l₂, x ∈ s.inFlight := fun x hx => by
    rw [hinFlight]
    exact (List.mem_append.mp hx).elim (List.mem_append_left _) fun hx =>
      List.mem_append_right _ (List.mem_cons_of_mem _ hx)
  have hcopies : ∀ a, copies s.inFlight message.service a = copies (l₁ ++ l₂) message.service a +
      if (decide (b = a) && decide (m.service = message.service)) = true then 1 else 0 := fun a => by
    rw [hinFlight, copies_append, copies_append]
    unfold copies
    rw [List.countP_cons]
    dsimp only
    omega
  have hle : ∀ a, copies (l₁ ++ l₂) message.service a ≤ copies s.inFlight message.service a := fun a => by
    rw [hcopies a]
    omega
  -- a daemon that has nothing to send but reports
  have hdone : ∀ d sends, SameConnections (s.daemon b) d →
      d.receivedBroadcastMessages = (s.daemon b).receivedBroadcastMessages → (∀ e ∈ sends, IsReport e.2) →
      Relaying net origin now message (net.after s b (l₁ ++ l₂) (d, sends)) := fun d sends hd hrec hrep => by
    refine hs.settle (sameConnections_after hs.same hd _ _) (received_after_of_eq hrec _ _) (fun x hx => ?_) fun a => ?_
    · rcases List.mem_append.mp hx with hx | hx
      · exact Or.inl (hold x hx)
      · obtain ⟨c, hc, -⟩ := mem_route.mp hx
        exact Or.inr (hrep (c, x.2) hc)
    · rw [total_after_isReport hrep h.named.1]
      exact Nat.add_le_add_right (hle a) _
  have hnothing : Relaying net origin now message (net.after s b (l₁ ++ l₂) (s.daemon b, [])) :=
    hdone _ _ (.refl _) rfl fun e he => absurd he List.not_mem_nil
  rcases hs.inFlight (b, m) (hinFlight ▸ List.mem_append_right _ List.mem_cons_self) with hrep | ⟨informed, hc⟩
  · have hforUs : (s.daemon b).processMessage now' source m = some (s.daemon b, []) := by
      rw [processMessage_new _ _ hrep.2.2]
      unfold dispatch isForUs
      have hserver : m.server = [] := hrep.2.1
      have hservice : m.service = [] := hrep.1
      rw [hserver, hservice]
      rfl
    rw [hforUs] at hr
    cases hr
    exact hnothing
  · have halive : ¬ now + 10 < now' := by omega
    by_cases hbr : net.Received origin now s b
    · rw [processMessage_again hc.marked halive (by unfold SortedMap.contains; rw [hbr]; rfl)] at hr
      cases hr
      exact hnothing
    · have hnew : (s.daemon b).receivedBroadcastMessages.contains (net.nextMsgid origin) = false := by
        unfold SortedMap.contains
        cases hf : (s.daemon b).receivedBroadcastMessages.find? (net.nextMsgid origin) with
        | none => rfl
        | some t =>
          rw [hs.timeout b t hf] at hf
          exact absurd hf hbr
      rw [processMessage_marked hc.marked halive hnew] at hr
      rcases dispatch_named h (hs.same b) hc.copyOf now' source with
        ⟨d, sends, heq, hd, hrec, hrep⟩ | ⟨c, -, -, hp, -, heq⟩ | ⟨hrelay, hne, heq⟩ <;> rw [heq] at hr
      · cases hr
        exact hdone d sends hd hrec hrep
      · -- the copy goes to the service
        cases hr
        refine hs.settle (sameConnections_after hs.same (.refl _) _ _) (received_after_of_eq rfl _ _) (fun x hx => ?_) fun a => ?_
        · rcases List.mem_append.mp hx with hx | hx
          · exact Or.inl (hold x hx)
          · rw [route_eq_nil fun e he => by rw [List.mem_singleton.mp he]; exact hp] at hx
            cases hx
        · refine (total_after_service hp _ _ _ _).trans ?_
          have hservice : m.service = message.service := hc.copyOf.service
          unfold total
          rw [hcopies a, hservice]
          by_cases hab : a = b
          · subst hab
            simp only [if_true, decide_true, Bool.and_self]
            omega
          · rw [if_neg hab]
            omega
      · -- the daemon is a relay
        rw [broadcastMessage_marked hc.marked halive hnew] at hr
        obtain ⟨hops, -, hr⟩ := Option.map_eq_some_iff.mp hr
        have hsame := (hs.same b).trans (sameConnections_receive (s.daemon b) now' (net.nextMsgid origin) (now + 10))
        obtain ⟨n, new, sends, heq, hsp⟩ := @broadcastWith_relays ι net m b
          ((s.daemon b).receive now' (net.nextMsgid origin) (now + 10)) now'
          { msgid := net.nextMsgid origin, timeout := now + 10, informedNeighbors := join ',' informed, hops } informed
          hc.marked.splitParts hne
        rw [heq] at hr
        subst hr
        have hclock := h.clock
        have htimeout : now + 10 ≠ 0 := by omega
        have hmarked := @marked_stamp ((s.daemon b).receive now' (net.nextMsgid origin) (now + 10)) m now'
          { msgid := net.nextMsgid origin, timeout := now + 10, informedNeighbors := join ',' informed, hops }
          (informed ++ new) (net.nextMsgid origin) (now + 10) (if_neg nextMsgid_ne_nil) (if_neg htimeout) (by omega)
          fun address ha => (List.mem_append.mp ha).elim (hc.marked.plain address) (hsp.plain address)
        have hwith : ((s.daemon b).receive now' (net.nextMsgid origin) (now + 10)).informedWith (informed ++ new) =
            (net.daemon b).informedWith (informed ++ new) := by
          unfold informedWith
          rw [hsame.myAddress]
        rw [hwith] at hmarked
        exact hs.relay hone hc hbr hrelay hsp (hc.copyOf.trans (copyOf_stamp ..)) hmarked ⟨rfl, rfl, rfl, rfl⟩
          (fun a => received_after hnow (hs.timeout b) _ n sends) hold hle

theorem Relaying.begin (h : NamedMessage net origin now message) {source : Connection}
    (hs : net.begin origin now source message = some s) : Relaying net origin now message s := by
  -- before the message there is nothing on the way
  have hstart : Relaying net origin now message { daemon := net.daemon, inFlight := [] } := by
    refine ⟨fun a => .refl _, fun a t ht => ?_, fun x hx => absurd hx List.not_mem_nil, fun b _ => Nat.zero_le _,
      fun b _ hpos => absurd hpos (Nat.lt_irrefl 0)⟩
    have ht : (net.daemon a).receivedBroadcastMessages.find? (net.nextMsgid origin) = some t := ht
    rw [h.fresh a] at ht
    cases ht
  unfold Network.begin at hs
  rw [processMessage_new _ _ h.first] at hs
  rcases dispatch_named h (.refl (net.daemon origin)) (CopyOf.refl message) now source with
    ⟨d, sends, heq, hd, hrec, hrep⟩ | ⟨c, -, -, hp, -, heq⟩ | ⟨hrelay, hne, heq⟩ <;> rw [heq] at hs
  · cases hs
    refine hstart.settle (sameConnections_after hstart.same hd _ _) (received_after_of_eq hrec _ _) (fun x hx => ?_) fun a => ?_
    · obtain ⟨c, hc, -⟩ := mem_route.mp hx
      exact Or.inr (hrep (c, x.2) hc)
    · rw [total_after_isReport hrep h.named.1]
      exact Nat.le_refl _
  · cases hs
    have htotal : ∀ a, total (net.after { daemon := net.daemon, inFlight := [] } origin [] (net.daemon origin, [(c, message)]))
        message.service a ≤ if a = origin then 1 else 0 := fun a => by
      refine (total_after_service hp _ _ _ _).trans ?_
      have hnil : copies ([] : List (ι × SnapCommunicatorMessage)) message.service a +
          forwards { daemon := net.daemon, inFlight := [] } message.service a = 0 := rfl
      omega
    refine ⟨sameConnections_after hstart.same (.refl _) _ _, fun a t ht => ?_, fun x hx => ?_, fun b _ => ?_,
      fun b _ hpos => Or.inl ?_⟩
    · rw [received_after_of_eq rfl] at ht
      exact hstart.timeout a t ht
    · have hx : x ∈ net.route origin [(c, message)] := hx
      rw [route_eq_nil fun e he => by rw [List.mem_singleton.mp he]; exact hp] at hx
      cases hx
    · exact (htotal b).trans (by split <;> omega)
    · by_contra hbo
      have := htotal b
      rw [if_neg hbo] at this
      omega
  · rw [broadcastMessage_new _ _ h.first] at hs
    obtain ⟨n, new, sends, heq, hsp⟩ := @broadcastWith_relays ι net message origin (net.daemon origin) now
      { msgid := [], timeout := 0, informedNeighbors := [], hops := 0 } [] rfl hne
    rw [heq] at hs
    cases hs
    have hclock := h.clock
    have hmarked := @marked_stamp (net.daemon origin) message now { msgid := [], timeout := 0, informedNeighbors := [], hops := 0 }
      new (net.nextMsgid origin) (now + 10) (if_pos rfl) (if_pos rfl) (by omega) hsp.plain
    have hnotReceived : ∀ a, (net.daemon a).receivedBroadcastMessages.find? (net.nextMsgid origin) = none := h.fresh
    have hsame : ∀ a, SameConnections (net.daemon a) ((net.after { daemon := net.daemon, inFlight := [] } origin []
        ({ net.daemon origin with broadcastSequence := n }, sends)).daemon a) :=
      @sameConnections_after ι net { daemon := net.daemon, inFlight := [] } _
        { net.daemon origin with broadcastSequence := n } origin hstart.same ⟨rfl, rfl, rfl, rfl⟩ [] sends
    have hreceived : ∀ a, ((net.after { daemon := net.daemon, inFlight := [] } origin []
        ({ net.daemon origin with broadcastSequence := n }, sends)).daemon a).receivedBroadcastMessages =
        (net.daemon a).receivedBroadcastMessages :=
      @received_after_of_eq ι net { daemon := net.daemon, inFlight := [] } _
        { net.daemon origin with broadcastSequence := n } origin rfl [] sends
    have htotal : ∀ c, total (net.after { daemon := net.daemon, inFlight := [] } origin []
        ({ net.daemon origin with broadcastSequence := n }, sends)) message.service c =
        copies (net.route origin sends) message.service c := fun c => by
      rw [total_after, hsp.services]
      exact Nat.zero_add _
    have hflight : (net.after { daemon := net.daemon, inFlight := [] } origin []
        ({ net.daemon origin with broadcastSequence := n }, sends)).inFlight = net.route origin sends := rfl
    generalize net.after { daemon := net.daemon, inFlight := [] } origin []
      ({ net.daemon origin with broadcastSequence := n }, sends) = s at *
    have hpath : ∀ x ∈ net.route origin sends, RelayPath net origin message.service [x.1, origin] := fun x hx => by
      obtain ⟨-, hlink, -, -⟩ := hsp.routed x hx
      refine .cons .start hrelay hlink (fun y hy => absurd hy List.not_mem_nil) fun hmem => ?_
      obtain ⟨c, hc, hpeer⟩ := hlink
      exact (net.peer_ip origin c hc x.1 hpeer).1 (List.mem_singleton.mp hmem)
    refine ⟨hsame, fun a t ht => ?_, fun x hx => ?_, fun b _ => ?_, fun b _ hpos => ?_⟩
    · rw [hreceived a] at ht
      exact hstart.timeout a t ht
    · rw [hflight] at hx
      obtain ⟨hxm, -, -, -⟩ := hsp.routed x hx
      have hsub : ∀ {address}, address ∈ new → address ∈ (net.daemon origin).informedWith new := fun h =>
        mem_informedWith.mpr (Or.inl h)
      refine Or.inr ⟨_, hxm ▸ copyOf_stamp .., hxm ▸ hmarked, origin, [], hpath x hx, Or.inl rfl, fun y hy => ?_⟩
      rw [List.mem_singleton.mp hy]
      refine ⟨mem_informedWith.mpr (Or.inr ?_), fun z hz => hsub (hsp.everyNeighbor z hz)⟩
      exact (if_pos (h.ipv4 origin)).symm
    · rw [htotal b]
      exact (copies_le_once hsp.once _ _).trans (by split <;> omega)
    · rw [htotal b] at hpos
      have hle := copies_le_once hsp.once message.service b
      split at hle
      · rename_i hmem
        obtain ⟨x, hx, rfl⟩ := List.mem_map.mp hmem
        exact Or.inr ⟨origin, [], hpath x hx, Or.inl rfl⟩
      · omega

/-- When each daemon with the service is reached over one relay only, it hands the message to the service
    once at most, whatever the order of the deliveries. -/
theorem forwards_le_one_of_oneRelay (h : NamedMessage net origin now message) (hone : net.OneRelay origin message.service)
    {source : Connection} {s₀ : NetworkState ι} (hs : net.begin origin now source message = some s₀) {n : Nat}
    (hrun : Run (net.Step (now + 10)) s₀ n s) {a : ι} (ha : net.HasService message.service a) :
    forwards s message.service a ≤ 1 := by
  have hrelaying := Run.invariant (I := fun s => Relaying net origin now message s) (Relaying.begin h hs)
    (fun _ _ ht hstep => ht.step h hone hstep) hrun
  have := hrelaying.once a ha
  unfold total at this
  omega

end Step

/-! ### Two relays -/

def diamondIp (a : Fin 4) : Address :=
  match a with
  | 0 => { ip := "192.168.0.1".toList, isIpv4 := true, networkType := .privateNetwork }
  | 1 => { ip := "192.168.0.2".toList, isIpv4 := true, networkType := .privateNetwork }
  | 2 => { ip := "192.168.0.3".toList, isIpv4 := true, networkType := .privateNetwork }
  | 3 => { ip := "192.168.0.4".toList, isIpv4 := true, networkType := .privateNetwork }

/-- The daemons next to each other: 0 with 1 and 2, and 3 with 1 and, in the diamond, with 2. -/
def diamondNeighbors (closed : Bool) (a : Fin 4) : List (Fin 4) :=
  match a with
  | 0 => [1, 2]
  | 1 => [0, 3]
  | 2 => if closed then [0, 3] else [0]
  | 3 => if closed then [1, 2] else [1]

def diamondLink (a b : Fin 4) : Connection :=
  { pointer := b + 1, kind := if a < b then .remoteSnapCommunicator else .serviceConnection
    name := "remote connection".toList, serverName := "there".toList, connectionType := .remote, address := diamondIp b }

/-- The service of the daemon 3. -/
def imagesService : Connection :=
  { pointer := 0, kind := .serviceConnection, name := "images".toList, serverName := "here".toList
    connectionType := .localService, address := { ip := "127.0.0.2".toList, isIpv4 := true, networkType := .loopback } }

/-- Four daemons in a diamond or, when it is not closed, in a line. -/
def diamond (closed : Bool) : Network (Fin 4) where
  daemon a := { serverName := 'd' :: number (a.val : Int), myAddress := diamondIp a
                connections := (if a = 3 then [imagesService] else []) ++ (diamondNeighbors closed a).map (diamondLink a) }
  peer _ c := if c.pointer = 0 then none else some (Fin.ofNat 4 (c.pointer - 1))
  ip_injective := by cases closed <;> decide
  serverName_ne_nil := by cases closed <;> decide
  nodup := by cases closed <;> decide
  peer_ip := by cases closed <;> decide
  symmetric := by cases closed <;> decide
  localService := by cases closed <;> decide
  remote := by cases closed <;> decide

def imagesMessage : SnapCommunicatorMessage := { service := "images".toList, command := "IMAGE".toList }

theorem diamond_namedMessage (closed : Bool) : NamedMessage (diamond closed) 0 0 imagesMessage where
  named := by decide
  noServer := by decide
  first := by decide
  clock := by decide
  fresh := by cases closed <;> decide
  ipv4 := by cases closed <;> decide

theorem line_oneRelay : (diamond false).OneRelay 0 imagesMessage.service := by
  have hlink : ∀ a b, (∃ c ∈ ((diamond false).daemon b).connections,
      c.kind = .serviceConnection ∧ c.name = imagesMessage.service ∧ c.serverName ≠ []) →
      (∃ c ∈ ((diamond false).daemon a).connections, (diamond false).peer a c = some b) → a = 1 := by decide
  intro b hb a a' p p' hp hp'
  cases hp with | cons _ _ hlinked _ _ =>
  cases hp' with | cons _ _ hlinked' _ _ =>
  rw [hlink a b hb hlinked, hlink a' b hb hlinked']

theorem forwards_le_one_of_oneRelay_line :
    ∃ s₀ s, (diamond false).begin 0 0 imagesService imagesMessage = some s₀ ∧ Run ((diamond false).Step (0 + 10)) s₀ 3 s ∧
      s.inFlight = [] ∧ forwards s imagesMessage.service 3 ≤ 1 := by
  have hquiet : (((diamond false).begin 0 0 imagesService imagesMessage).bind
      ((diamond false).deliverFirsts 0 imagesService 3)).map (fun s => s.inFlight) = some [] := by decide
  obtain ⟨s, hs, hflight⟩ := Option.map_eq_some_iff.mp hquiet
  obtain ⟨s₀, hs₀, hrun⟩ := Option.bind_eq_some_iff.mp hs
  have hrun := run_deliverFirsts (show (0 : Int) ≤ 0 + 10 by decide) hrun
  exact ⟨s₀, s, hs₀, hrun, hflight, forwards_le_one_of_oneRelay (diamond_namedMessage false) line_oneRelay hs₀ hrun
    ⟨imagesService, by decide, rfl, rfl, by decide⟩⟩

/-- In the diamond the copies of both relays come to the daemon with the service, which forwards both. -/
theorem not_forwards_le_one :
    ¬ ∀ (net : Network (Fin 4)) (origin : Fin 4) (now : Int) (message : SnapCommunicatorMessage) (source : Connection)
      (s₀ : NetworkState (Fin 4)), NamedMessage net origin now message →
      net.begin origin now source message = some s₀ → ∀ n s, Run (net.Step (now + 10)) s₀ n s →
        ∀ a, net.HasService message.service a → forwards s message.service a ≤ 1 := by
  intro h
  have hforwards : (((diamond true).begin 0 0 imagesService imagesMessage).bind
      ((diamond true).deliverFirsts 0 imagesService 4)).map (fun s => forwards s imagesMessage.service 3) = some 2 := by decide
  obtain ⟨s, hs, hcount⟩ := Option.map_eq_some_iff.mp hforwards
  obtain ⟨s₀, hs₀, hrun⟩ := Option.bind_eq_some_iff.mp hs
  have := h (diamond true) 0 0 imagesMessage imagesService s₀ (diamond_namedMessage true) hs₀ 4 s
    (run_deliverFirsts (by decide) hrun) 3 ⟨imagesService, by decide, rfl, rfl, by decide⟩
  omega

end Network
end Snapwebsites
