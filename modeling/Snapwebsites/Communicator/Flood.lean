import Mathlib.Algebra.BigOperators.Fin
import Mathlib.Algebra.Order.BigOperators.Group.Finset
import Mathlib.Logic.Relation
import Snapwebsites.Communicator.Network

/-! # Broadcasts to the cluster

A message for the services of the whole cluster floods the network. A copy carries the addresses of
the daemons that are known to get one as well, so a daemon leaves these out; what makes this safe is
that each of them has its own copy by then, or one on the way (`Copy.knowing`). Within five links a copy
is handed on, so every daemon in touch with the originator gets one, and it enters the identifier at the
first (`Flooding`). The originator does not enter its own identifier: it relies on its address being
among the informed ones, where it stands with brackets. -/

namespace Snapwebsites
open QString SnapCommunicatorMessage Daemon

namespace Network
variable {ι : Type} (net : Network ι) (origin : ι)

/-! ### A broadcast -/

/-- The paths from the originator that visit no daemon twice, the last daemon first. -/
inductive SimplePath : List ι → Prop
  | start : SimplePath [origin]
  | cons {a b : ι} {p : List ι} : SimplePath (a :: p) → net.Linked a b → b ∉ a :: p → SimplePath (b :: a :: p)

/-- A client of the daemon `origin` sends a message to the cluster at the time `now`. -/
structure ClusterBroadcast (now : Int) (message : SnapCommunicatorMessage) : Prop where
  clusterWide : ClusterWide message
  first : message.hasParameter "broadcast_msgid" = false
  clock : 0 ≤ now ∧ now + 10 < 0x8000000000000000
  fresh : ∀ a, (net.daemon a).receivedBroadcastMessages.find? (net.nextMsgid origin) = none
  privateNetwork : ∀ a, ∀ c ∈ (net.daemon a).connections, net.peer a c ≠ none → c.address.networkType = .privateNetwork
  fiveLinks : ∀ p, SimplePath net origin p → p.length ≤ 6

/-- The address of the originator prints the same with brackets and without, or the echo of the message
    does not matter. -/
def NoEcho (message : SnapCommunicatorMessage) : Prop :=
  (net.daemon origin).myAddress.toIpv4or6String .brackets = (net.daemon origin).myAddress.toIpv4or6String .only ∨
  (∀ a, ¬ net.Linked origin a) ∨ ∀ c ∈ (net.daemon origin).connections, takes message c = false

/-- The number of times that the daemon `a` has sent to the connection `c` of a service. -/
def deliveries [DecidableEq ι] (s : NetworkState ι) (a : ι) (c : Connection) : Nat :=
  s.delivered.countP fun e => decide (e.1 = a) && decide (e.2.1 = c)

/-! ### What one daemon does to the network -/

/-- What goes out of the daemon `b`, as the network sees it, when the daemons at the addresses
    `informed` are left out: copies `m'` to the daemons at the addresses `new`. -/
structure Spreads (b : ι) (hops : Int) (informed new : List QString) (message m m' : SnapCommunicatorMessage) (sends : Sends) :
    Prop where
  services : net.toServices b sends = ((net.daemon b).connections.filter (takes message)).map fun c => (b, c, m)
  routed : ∀ x ∈ net.route b sends, x.2 = m' ∧ net.Linked b x.1 ∧ (net.daemon x.1).myAddress.ip ∉ informed ∧
    (net.daemon x.1).myAddress.ip ∈ new ∧ hops < 5
  new_routed : ∀ address ∈ new, ∃ a, address = (net.daemon a).myAddress.ip ∧ (a, m') ∈ net.route b sends
  everyNeighbor : hops < 5 → ∀ a, net.Linked b a → (net.daemon a).myAddress.ip ∈ informed ++ new
  length : (net.route b sends).length ≤ (net.daemon b).connections.length

section Effect
variable {net} {message m : SnapCommunicatorMessage}

theorem peer_eq_none_of_takes {b : ι} {c : Connection} (hc : c ∈ (net.daemon b).connections) (ht : takes message c = true) :
    net.peer b c = none := by
  by_contra hne
  obtain ⟨a, ha⟩ := Option.ne_none_iff_exists'.mp hne
  simp only [takes, Bool.and_eq_true, decide_eq_true_eq] at ht
  exact (net.remote b c hc a ha).2.1 ht.1.2

theorem broadcastWith_spreads {origin : ι} {now : Int} (h : ClusterBroadcast net origin now message) (now' : Int) {b : ι}
    {d : Daemon} (hd : SameConnections (net.daemon b) d) (hm : CopyOf message m) (bc : Broadcast) {informed : List QString}
    (hi : splitParts ',' bc.informedNeighbors = informed) :
    ∃ n new sends, d.broadcastWith now' m [] bc = ({ d with broadcastSequence := n }, sends) ∧
      net.Spreads b bc.hops informed new message m (d.stamp now' m bc (informed ++ new)) sends := by
  have hpublic : ∀ c ∈ d.connections, c.address.networkType ≠ .publicNetwork := fun c hc hp => by
    rw [hd.connections] at hc
    by_cases hpeer : net.peer b c = none
    · rw [(net.localService b c hc hpeer).2.2] at hp
      cases hp
    · rw [h.privateNetwork b c hc hpeer] at hp
      cases hp
  obtain ⟨n, cs, heq, hsub, -, hreach, hall⟩ := broadcastWith_clusterWide (h.clusterWide.copy hm) now' bc hi hpublic
  have hservices : d.connections.filter (takes m) = (net.daemon b).connections.filter (takes message) := by
    rw [hd.connections, funext (takes_copy hm)]
  rw [hd.connections] at hsub hall
  rw [hservices] at heq
  -- a private address is not a service's
  have hpeer : ∀ c ∈ cs, ∃ a, net.peer b c = some a := fun c hc => by
    by_contra hne
    have hnone : net.peer b c = none := by
      cases hp : net.peer b c with
      | none => rfl
      | some a => exact absurd ⟨a, hp⟩ hne
    have hloop := (net.localService b c (hsub.subset hc) hnone).2.2
    rw [(hreach c hc).1] at hloop
    cases hloop
  have hlocal : ∀ e ∈ ((net.daemon b).connections.filter (takes message)).map (fun c => (c, m)), net.peer b e.1 = none :=
    fun e he => by
      obtain ⟨c, hc, rfl⟩ := List.mem_map.mp he
      exact peer_eq_none_of_takes (List.mem_filter.mp hc).1 (List.mem_filter.mp hc).2
  refine ⟨n, cs.map fun c => c.address.ip, _, heq, ?_, fun x hx => ?_, fun address ha => ?_, fun hh a ha => ?_, ?_⟩
  · rw [toServices_append, toServices_eq_map hlocal, toServices_eq_nil, List.append_nil, List.map_map]
    · rfl
    · intro e he
      obtain ⟨c, hc, rfl⟩ := List.mem_map.mp he
      obtain ⟨a, ha⟩ := hpeer c hc
      rw [ha]
      exact Option.some_ne_none a
  · rw [route_append, route_eq_nil hlocal, List.nil_append] at hx
    obtain ⟨c, hc, hp⟩ := mem_route.mp hx
    obtain ⟨c', hc', heq'⟩ := List.mem_map.mp hc
    obtain ⟨rfl, hm'⟩ := Prod.mk.inj heq'
    have hip := (net.peer_ip b c' (hsub.subset hc') x.1 hp).2
    obtain ⟨-, hnot, hh⟩ := hreach c' hc'
    exact ⟨hm'.symm, ⟨c', hsub.subset hc', hp⟩, hip ▸ hnot, hip ▸ List.mem_map_of_mem hc', hh⟩
  · obtain ⟨c, hc, rfl⟩ := List.mem_map.mp ha
    obtain ⟨a, hp⟩ := hpeer c hc
    refine ⟨a, (net.peer_ip b c (hsub.subset hc) a hp).2, ?_⟩
    rw [route_append, route_eq_nil hlocal, List.nil_append]
    exact mem_route.mpr ⟨c, List.mem_map_of_mem hc, hp⟩
  · obtain ⟨c, hc, hp⟩ := ha
    have := hall hh c hc (h.privateNetwork b c hc (by rw [hp]; exact Option.some_ne_none a))
    rwa [(net.peer_ip b c hc a hp).2] at this
  · rw [route_append, route_eq_nil hlocal, List.nil_append]
    refine length_route_le.trans ?_
    rw [List.length_map]
    exact hsub.length_le

end Effect

/-! ### The invariant of the flood -/

section Flooding
variable (now : Int) (message : SnapCommunicatorMessage) (s : NetworkState ι)

/-- The daemon has entered the identifier of the broadcast. -/
def Received (a : ι) : Prop := (s.daemon a).receivedBroadcastMessages.find? (net.nextMsgid origin) = some (now + 10)

/-- The daemon has the message, or gets it still. -/
def Reached (a : ι) : Prop := a = origin ∨ net.Received origin now s a ∨ ∃ m, (a, m) ∈ s.inFlight

/-- A message in flight is a copy. The addresses in it are those of daemons that are reached; unless it
    goes back to the originator it has come on a simple path, along which all daemons are informed. -/
structure Copy (x : ι × SnapCommunicatorMessage) (hops : Nat) (informed : List QString) : Prop where
  copyOf : CopyOf message x.2
  stamped : Stamped (net.nextMsgid origin) (now + 10) hops informed x.2
  hops_le : 1 ≤ hops ∧ hops ≤ 5
  target : (net.daemon x.1).myAddress.ip ∈ informed
  fromOrigin : ∀ a, net.Linked origin a → (net.daemon a).myAddress.ip ∈ informed
  linked : ∃ a, net.Linked origin a
  originator : (net.daemon origin).myAddress.toIpv4or6String .brackets ∈ informed
  knowing : ∀ a, (net.daemon a).myAddress.ip ∈ informed → net.Reached origin now s a
  echo : x.1 = origin →
    (net.daemon origin).myAddress.toIpv4or6String .brackets ≠ (net.daemon origin).myAddress.toIpv4or6String .only
  path : x.1 = origin ∨ ∃ p, SimplePath net origin (x.1 :: p) ∧ p.length = hops ∧
    ∀ a ∈ p, a = origin ∨ (net.Received origin now s a ∧ (net.daemon a).myAddress.ip ∈ informed)

instance (a : ι) : Decidable (net.Received origin now s a) := by
  unfold Received
  infer_instance

structure Flooding [DecidableEq ι] : Prop where
  same : ∀ a, SameConnections (net.daemon a) (s.daemon a)
  timeout : ∀ a t, (s.daemon a).receivedBroadcastMessages.find? (net.nextMsgid origin) = some t → t = now + 10
  copies : ∀ x ∈ s.inFlight, ∃ hops informed, Copy net origin now message s x hops informed
  spreading : ∀ a b, (a = origin ∨ net.Received origin now s a) → net.Linked a b → net.Reached origin now s b
  echo : net.Received origin now s origin →
    (net.daemon origin).myAddress.toIpv4or6String .brackets ≠ (net.daemon origin).myAddress.toIpv4or6String .only ∧
    ∃ a, net.Linked origin a
  counts : ∀ a, ∀ c ∈ (net.daemon a).connections, takes message c = true →
    deliveries s a c = (if a = origin then 1 else 0) + if net.Received origin now s a then 1 else 0
  contents : ∀ e ∈ s.delivered, CopyOf message e.2.2 ∧ takes message e.2.1 = true

end Flooding

section Step
variable {net origin} {now : Int} {message : SnapCommunicatorMessage} {s s' : NetworkState ι}

theorem nextMsgid_ne_nil : net.nextMsgid origin ≠ [] := by simp [nextMsgid]

/-- What a daemon does with a copy: it drops it, or enters the identifier and hands the message on. -/
theorem processMessage_copy (h : ClusterBroadcast net origin now message) {b : ι} {m : SnapCommunicatorMessage} {hops : Nat}
    {informed : List QString} (hc : Copy net origin now message s (b, m) hops informed)
    (hd : SameConnections (net.daemon b) (s.daemon b))
    (ht : ∀ t, (s.daemon b).receivedBroadcastMessages.find? (net.nextMsgid origin) = some t → t = now + 10)
    {now' : Int} (hnow : now' ≤ now + 10) (source : Connection) :
    (net.Received origin now s b ∧ (s.daemon b).processMessage now' source m = some (s.daemon b, [])) ∨
    (¬ net.Received origin now s b ∧ ∃ n new sends m',
      (s.daemon b).processMessage now' source m =
        some ({ (s.daemon b).receive now' (net.nextMsgid origin) (now + 10) with broadcastSequence := n }, sends) ∧
      net.Spreads b hops informed new message m m' sends ∧ CopyOf message m' ∧
      Stamped (net.nextMsgid origin) (now + 10) (hops + 1 : Nat) ((net.daemon b).informedWith (informed ++ new)) m') := by
  have halive : ¬ now + 10 < now' := by omega
  by_cases hr : net.Received origin now s b
  · refine Or.inl ⟨hr, processMessage_again hc.stamped.toMarked halive ?_ source⟩
    unfold SortedMap.contains
    rw [hr]
    rfl
  · refine Or.inr ⟨hr, ?_⟩
    have hnew : (s.daemon b).receivedBroadcastMessages.contains (net.nextMsgid origin) = false := by
      unfold SortedMap.contains
      cases hf : (s.daemon b).receivedBroadcastMessages.find? (net.nextMsgid origin) with
      | none => rfl
      | some t =>
        rw [ht t hf] at hf
        exact absurd hf hr
    have hsame := hd.trans (sameConnections_receive (s.daemon b) now' (net.nextMsgid origin) (now + 10))
    obtain ⟨n, new, sends, heq, hs⟩ := broadcastWith_spreads h now' hsame hc.copyOf
      { msgid := net.nextMsgid origin, timeout := now + 10, informedNeighbors := join ',' informed, hops } hc.stamped.splitParts
    refine ⟨n, new, sends, _, ?_, hs, hc.copyOf.trans (copyOf_stamp ..), ?_⟩
    · rw [processMessage_marked hc.stamped.toMarked halive hnew, dispatch_clusterWide (h.clusterWide.copy hc.copyOf),
        broadcastMessage_stamped hc.stamped halive hnew, heq]
    · have hnow := h.clock
      have hhops := hc.hops_le
      have hplain : ∀ address ∈ informed ++ new, address ≠ [] ∧ ',' ∉ address := fun address ha => by
        rcases List.mem_append.mp ha with ha | ha
        · exact hc.stamped.plain address ha
        · obtain ⟨a, rfl, -⟩ := hs.new_routed address ha
          exact ⟨(net.daemon a).myAddress.ip_ne_nil, (net.daemon a).myAddress.ip_plain.1⟩
      have htimeout : now + 10 ≠ 0 := by omega
      have := @stamped_stamp ((s.daemon b).receive now' (net.nextMsgid origin) (now + 10)) m now'
        { msgid := net.nextMsgid origin, timeout := now + 10, informedNeighbors := join ',' informed, hops }
        (informed ++ new) (net.nextMsgid origin) (now + 10) (if_neg nextMsgid_ne_nil) (if_neg htimeout) (by omega)
        ⟨by dsimp only; omega, by dsimp only; omega⟩ hplain
      have hwith : ((s.daemon b).receive now' (net.nextMsgid origin) (now + 10)).informedWith (informed ++ new) =
          (net.daemon b).informedWith (informed ++ new) := by
        unfold informedWith
        rw [hsame.myAddress]
      rw [hwith] at this
      exact this

/-- An address with brackets is the one of a daemon only where it has none. -/
theorem eq_of_brackets {a b : ι} (h : (net.daemon a).myAddress.ip = (net.daemon b).myAddress.toIpv4or6String .brackets) : a = b := by
  unfold Address.toIpv4or6String at h
  dsimp only at h
  split at h
  · exact net.ip_injective a b h
  · have hplain := (net.daemon a).myAddress.ip_plain.2
    rw [h] at hplain
    exact absurd List.mem_cons_self hplain

theorem Spreads.cases {b : ι} {hops : Int} {informed new : List QString} {m m' : SnapCommunicatorMessage} {sends : Sends}
    (h : net.Spreads b hops informed new message m m' sends) {a : ι}
    (ha : (net.daemon a).myAddress.ip ∈ (net.daemon b).informedWith (informed ++ new)) :
    (net.daemon a).myAddress.ip ∈ informed ∨ (a, m') ∈ net.route b sends ∨ a = b := by
  rcases mem_informedWith.mp ha with ha | ha
  · rcases List.mem_append.mp ha with ha | ha
    · exact Or.inl ha
    · obtain ⟨a', hip, hr⟩ := h.new_routed _ ha
      rw [net.ip_injective a a' hip]
      exact Or.inr (Or.inl hr)
  · exact Or.inr (Or.inr (eq_of_brackets ha))

theorem reached_mono (hr : ∀ a, net.Received origin now s a → net.Received origin now s' a)
    (hf : ∀ x ∈ s.inFlight, net.Received origin now s' x.1 ∨ x ∈ s'.inFlight) {a : ι}
    (h : net.Reached origin now s a) : net.Reached origin now s' a := by
  rcases h with h | h | ⟨m, hm⟩
  · exact Or.inl h
  · exact Or.inr (Or.inl (hr a h))
  · exact Or.inr ((hf (a, m) hm).imp_right fun h => ⟨m, h⟩)

theorem Copy.mono (hr : ∀ a, net.Received origin now s a → net.Received origin now s' a)
    (hf : ∀ x ∈ s.inFlight, net.Received origin now s' x.1 ∨ x ∈ s'.inFlight) {x : ι × SnapCommunicatorMessage} {hops : Nat}
    {informed : List QString} (h : Copy net origin now message s x hops informed) :
    Copy net origin now message s' x hops informed :=
  { h with
    knowing := fun a ha => reached_mono hr hf (h.knowing a ha)
    path := h.path.imp_right fun ⟨p, hp, hlen, hall⟩ =>
      ⟨p, hp, hlen, fun a ha => (hall a ha).imp_right fun h => ⟨hr a h.1, h.2⟩⟩ }

variable [DecidableEq ι]

theorem received_after {b a : ι} {now' : Int} (hnow : now' ≤ now + 10)
    (ht : ∀ t, (s.daemon b).receivedBroadcastMessages.find? (net.nextMsgid origin) = some t → t = now + 10)
    (inFlight : List (ι × SnapCommunicatorMessage)) (n : Int) (sends : Sends) :
    net.Received origin now (net.after s b inFlight
      ({ (s.daemon b).receive now' (net.nextMsgid origin) (now + 10) with broadcastSequence := n }, sends)) a ↔
    a = b ∨ net.Received origin now s a := by
  unfold Received after
  by_cases hab : a = b
  · subst hab
    have hfind : ((s.daemon a).receive now' (net.nextMsgid origin) (now + 10)).receivedBroadcastMessages.find?
        (net.nextMsgid origin) = _ := find?_receive (show ¬ now + 10 < now' by omega) ht
    rw [if_pos rfl] at hfind
    simp only [Function.update_self, true_or, iff_true]
    exact hfind
  · simp only [Function.update_of_ne hab, hab, false_or]

/-- The services that take the message get it once. -/
theorem countP_services {b a : ι} {l : List Connection} (hl : l.Nodup) {c : Connection} (hc : c ∈ l)
    (m : SnapCommunicatorMessage) :
    (l.map fun c => (b, c, m)).countP (fun e => decide (e.1 = a) && decide (e.2.1 = c)) = if a = b then 1 else 0 := by
  rw [List.countP_map]
  by_cases hab : a = b
  · subst hab
    rw [if_pos rfl]
    have : List.countP ((fun e : ι × Connection × SnapCommunicatorMessage => decide (e.1 = a) && decide (e.2.1 = c)) ∘
        fun c => (a, c, m)) l = l.count c := by
      refine List.countP_congr fun x _ => ?_
      simp
    rw [this]
    exact List.count_eq_one_of_mem hl hc
  · rw [if_neg hab, List.countP_eq_zero]
    intro x _
    simp [Ne.symm hab]

theorem deliveries_after {b a : ι} {hops : Int} {informed new : List QString} {m m' : SnapCommunicatorMessage} {sends : Sends}
    (h : net.Spreads b hops informed new message m m' sends) {c : Connection} (hc : c ∈ (net.daemon a).connections)
    (ht : takes message c = true) (inFlight : List (ι × SnapCommunicatorMessage)) (d : Daemon) :
    deliveries (net.after s b inFlight (d, sends)) a c = deliveries s a c + if a = b then 1 else 0 := by
  unfold deliveries after
  rw [List.countP_append, h.services]
  by_cases hab : a = b
  · subst hab
    rw [countP_services ((net.nodup a).filter _) (List.mem_filter.mpr ⟨hc, ht⟩)]
  · rw [if_neg hab]
    refine congrArg _ (List.countP_eq_zero.mpr fun e he => ?_)
    obtain ⟨c', -, rfl⟩ := List.mem_map.mp he
    simp [Ne.symm hab]

/-- A copy that a daemon hands on is one again, on a path that is one link longer. -/
theorem Copy.next {b : ι} {m m' : SnapCommunicatorMessage} {hops : Nat} {informed new : List QString} {sends : Sends}
    (hc : Copy net origin now message s (b, m) hops informed)
    (hs : net.Spreads b hops informed new message m m' sends) (hcopy : CopyOf message m')
    (hm' : Stamped (net.nextMsgid origin) (now + 10) (hops + 1 : Nat) ((net.daemon b).informedWith (informed ++ new)) m')
    (hr : ∀ a, net.Received origin now s a → net.Received origin now s' a)
    (hf : ∀ x ∈ s.inFlight, net.Received origin now s' x.1 ∨ x ∈ s'.inFlight)
    (hb : net.Received origin now s' b) (hin : ∀ x ∈ net.route b sends, x ∈ s'.inFlight)
    {x : ι × SnapCommunicatorMessage} (hx : x ∈ net.route b sends) :
    Copy net origin now message s' x (hops + 1) ((net.daemon b).informedWith (informed ++ new)) := by
  obtain ⟨hxm, hlink, hnot, hnew, hhops⟩ := hs.routed x hx
  have hold : ∀ {address}, address ∈ informed → address ∈ (net.daemon b).informedWith (informed ++ new) := fun h =>
    mem_informedWith.mpr (Or.inl (List.mem_append_left _ h))
  refine ⟨hxm ▸ hcopy, hxm ▸ hm', ⟨by omega, by omega⟩, mem_informedWith.mpr (Or.inl (List.mem_append_right _ hnew)),
    fun a ha => hold (hc.fromOrigin a ha), hc.linked, hold hc.originator, fun a ha => ?_, fun hxo heq => ?_, ?_⟩
  · rcases hs.cases ha with ha | ha | rfl
    · exact reached_mono hr hf (hc.knowing a ha)
    · exact Or.inr (Or.inr ⟨m', hin _ ha⟩)
    · exact Or.inr (Or.inl hb)
  · -- the originator's address was among the informed ones with brackets only
    rw [hxo] at hnot
    have hin := hc.originator
    rw [heq] at hin
    exact hnot hin
  · by_cases hxo : x.1 = origin
    · exact Or.inl hxo
    · refine Or.inr ?_
      rcases hc.path with hbo | ⟨p, hp, hlen, hall⟩
      · -- all neighbors of the originator are informed: it sends the message once
        have hbo : b = origin := hbo
        rw [hbo] at hlink
        exact absurd (hc.fromOrigin x.1 hlink) hnot
      · refine ⟨b :: p, .cons hp hlink fun hmem => ?_, by simp [hlen], fun a ha => ?_⟩
        · rcases List.mem_cons.mp hmem with heq | hmem
          · exact hnot (heq ▸ hc.target)
          · rcases hall _ hmem with heq | ⟨-, hin⟩
            · exact hxo heq
            · exact hnot hin
        · rcases List.mem_cons.mp ha with rfl | ha
          · exact Or.inr ⟨hb, hold hc.target⟩
          · exact (hall a ha).imp_right fun h => ⟨hr a h.1, hold h.2⟩

/-- What a daemon leaves out is informed; past the fifth link, every neighbor is on the path. -/
theorem Copy.neighbor (h : ClusterBroadcast net origin now message) {b : ι} {m m' : SnapCommunicatorMessage} {hops : Nat}
    {informed new : List QString} {sends : Sends} (hc : Copy net origin now message s (b, m) hops informed)
    (hs : net.Spreads b hops informed new message m m' sends)
    (hr : ∀ a, net.Received origin now s a → net.Received origin now s' a)
    (hf : ∀ x ∈ s.inFlight, net.Received origin now s' x.1 ∨ x ∈ s'.inFlight)
    (hin : ∀ x ∈ net.route b sends, x ∈ s'.inFlight) {a : ι} (ha : net.Linked b a) : net.Reached origin now s' a := by
  by_cases hhops : (hops : Int) < 5
  · rcases List.mem_append.mp (hs.everyNeighbor hhops a ha) with hi | hi
    · exact reached_mono hr hf (hc.knowing a hi)
    · obtain ⟨a', hip, hroute⟩ := hs.new_routed _ hi
      rw [net.ip_injective a a' hip]
      exact Or.inr (Or.inr ⟨m', hin _ hroute⟩)
  · rcases hc.path with hbo | ⟨p, hp, hlen, hall⟩
    · have hbo : b = origin := hbo
      rw [hbo] at ha
      exact reached_mono hr hf (hc.knowing a (hc.fromOrigin a ha))
    · have hpath : ¬ SimplePath net origin (a :: b :: p) := fun hpath => by
        have := h.fiveLinks _ hpath
        rw [List.length_cons, List.length_cons, hlen] at this
        have := hc.hops_le
        omega
      have hmem : a ∈ b :: p := by
        by_contra hnot
        exact hpath (.cons hp ha hnot)
      rcases List.mem_cons.mp hmem with rfl | hmem
      · obtain ⟨c, hcc, hpeer⟩ := ha
        exact absurd rfl (net.peer_ip a c hcc a hpeer).1
      · exact (hall a hmem).imp_right fun h => Or.inl (hr a h.1)

/-- The message as the originator sends it. -/
theorem begin_eq (h : ClusterBroadcast net origin now message) {source : Connection}
    (hs : net.begin origin now source message = some s) :
    ∃ n new sends m', s = net.after { daemon := net.daemon, inFlight := [] } origin []
        ({ net.daemon origin with broadcastSequence := n }, sends) ∧
      net.Spreads origin 0 [] new message message m' sends ∧ CopyOf message m' ∧
      Stamped (net.nextMsgid origin) (now + 10) (1 : Nat) ((net.daemon origin).informedWith new) m' := by
  obtain ⟨n, new, sends, heq, hsp⟩ := broadcastWith_spreads h now (SameConnections.refl (net.daemon origin)) (CopyOf.refl message)
    { msgid := [], timeout := 0, informedNeighbors := [], hops := 0 } (show splitParts ',' [] = [] from rfl)
  refine ⟨n, new, sends, _, ?_, hsp, copyOf_stamp .., ?_⟩
  · unfold Network.begin at hs
    rw [processMessage_new _ _ h.first, dispatch_clusterWide h.clusterWide, broadcastMessage_new _ _ h.first, heq] at hs
    exact (Option.some.inj hs).symm
  · have hclock := h.clock
    have hplain : ∀ address ∈ new, address ≠ [] ∧ ',' ∉ address := fun address ha => by
      obtain ⟨a, rfl, -⟩ := hsp.new_routed address ha
      exact ⟨(net.daemon a).myAddress.ip_ne_nil, (net.daemon a).myAddress.ip_plain.1⟩
    exact @stamped_stamp (net.daemon origin) message now { msgid := [], timeout := 0, informedNeighbors := [], hops := 0 }
      new (net.nextMsgid origin) (now + 10) (if_pos rfl) (if_pos rfl) (by omega) ⟨by dsimp only; omega, by dsimp only; omega⟩
      hplain

theorem Flooding.begin (h : ClusterBroadcast net origin now message) {source : Connection}
    (hs : net.begin origin now source message = some s) : Flooding net origin now message s := by
  obtain ⟨n, new, sends, m', rfl, hsp, hcopy, hm'⟩ := begin_eq h hs
  have hsame : ∀ a, ((net.after { daemon := net.daemon, inFlight := [] } origin []
      ({ net.daemon origin with broadcastSequence := n }, sends)).daemon a).receivedBroadcastMessages =
      (net.daemon a).receivedBroadcastMessages ∧ SameConnections (net.daemon a) ((net.after { daemon := net.daemon, inFlight := [] }
        origin [] ({ net.daemon origin with broadcastSequence := n }, sends)).daemon a) := fun a => by
    unfold after
    by_cases hao : a = origin
    · subst hao
      simp only [Function.update_self]
      exact ⟨trivial, rfl, rfl, rfl, rfl⟩
    · simp only [Function.update_of_ne hao]
      exact ⟨trivial, SameConnections.refl _⟩
  have hcounts : ∀ a, ∀ c ∈ (net.daemon a).connections, takes message c = true →
      deliveries (net.after { daemon := net.daemon, inFlight := [] } origin []
        ({ net.daemon origin with broadcastSequence := n }, sends)) a c = 0 + if a = origin then 1 else 0 :=
    fun a c hca ht => deliveries_after hsp hca ht [] _
  have hflight : (net.after { daemon := net.daemon, inFlight := [] } origin []
      ({ net.daemon origin with broadcastSequence := n }, sends)).inFlight = net.route origin sends := rfl
  have hdelivered : (net.after { daemon := net.daemon, inFlight := [] } origin []
      ({ net.daemon origin with broadcastSequence := n }, sends)).delivered = net.toServices origin sends := rfl
  generalize net.after { daemon := net.daemon, inFlight := [] } origin []
    ({ net.daemon origin with broadcastSequence := n }, sends) = s at *
  have hfind : ∀ a, (s.daemon a).receivedBroadcastMessages.find? (net.nextMsgid origin) = none := fun a => by
    rw [(hsame a).1]
    exact h.fresh a
  have hnot : ∀ a, ¬ net.Received origin now s a := fun a ha => by
    unfold Received at ha
    rw [hfind a] at ha
    cases ha
  have hneighbor : ∀ a, net.Linked origin a → (net.daemon a).myAddress.ip ∈ new := fun a ha =>
    hsp.everyNeighbor (by decide) a ha
  refine ⟨fun a => (hsame a).2, fun a t ht => ?_, fun x hx => ?_, fun a b ha hlink => ?_, fun ho => absurd ho (hnot origin),
    fun a c hca ht => ?_, fun e he => ?_⟩
  · rw [hfind a] at ht
    cases ht
  · rw [hflight] at hx
    obtain ⟨hxm, hlink, -, hnew, -⟩ := hsp.routed x hx
    have hxo : x.1 ≠ origin := by
      obtain ⟨c, hcc, hpeer⟩ := hlink
      exact (net.peer_ip origin c hcc x.1 hpeer).1
    have hsub : ∀ {address}, address ∈ new → address ∈ (net.daemon origin).informedWith new := fun h =>
      mem_informedWith.mpr (Or.inl h)
    refine ⟨1, (net.daemon origin).informedWith new, hxm ▸ hcopy, hxm ▸ hm', ⟨by omega, by omega⟩, hsub hnew,
      fun a ha => hsub (hneighbor a ha), ⟨x.1, hlink⟩, mem_informedWith.mpr (Or.inr rfl), fun a ha => ?_,
      fun hxo' => absurd hxo' hxo, Or.inr ⟨[origin], .cons .start hlink ?_, rfl, fun a ha => Or.inl (List.mem_singleton.mp ha)⟩⟩
    · rcases hsp.cases (show _ ∈ (net.daemon origin).informedWith ([] ++ new) from ha) with ha | ha | ha
      · cases ha
      · exact Or.inr (Or.inr ⟨m', hflight ▸ ha⟩)
      · exact Or.inl ha
    · exact fun hmem => hxo (List.mem_singleton.mp hmem)
  · rcases ha with rfl | ha
    · obtain ⟨a', hip, hroute⟩ := hsp.new_routed _ (hneighbor b hlink)
      rw [net.ip_injective b a' hip]
      exact Or.inr (Or.inr ⟨m', hflight ▸ hroute⟩)
    · exact absurd ha (hnot a)
  · rw [hcounts a c hca ht, if_neg (hnot a)]
    omega
  · rw [hdelivered, hsp.services] at he
    obtain ⟨c, hcc, rfl⟩ := List.mem_map.mp he
    exact ⟨CopyOf.refl message, (List.mem_filter.mp hcc).2⟩

/-- A copy that is dropped was not needed. -/
theorem Flooding.drop (hs : Flooding net origin now message s) {b : ι} (hb : net.Received origin now s b)
    (hdaemon : s'.daemon = s.daemon) (hdelivered : s'.delivered = s.delivered)
    (hold : ∀ x ∈ s'.inFlight, x ∈ s.inFlight) (hrest : ∀ x ∈ s.inFlight, x.1 = b ∨ x ∈ s'.inFlight) :
    Flooding net origin now message s' := by
  have hreceived : ∀ a, net.Received origin now s' a ↔ net.Received origin now s a := fun a => by
    unfold Received
    rw [hdaemon]
  have hmono : ∀ a, net.Received origin now s a → net.Received origin now s' a := fun a => (hreceived a).mpr
  have hf : ∀ x ∈ s.inFlight, net.Received origin now s' x.1 ∨ x ∈ s'.inFlight := fun x hx =>
    (hrest x hx).imp_left fun heq => by
      rw [heq]
      exact hmono b hb
  refine ⟨fun a => hdaemon ▸ hs.same a, fun a t => hdaemon ▸ hs.timeout a t, fun x hx => ?_, fun a a' ha hlink => ?_,
    fun ho => hs.echo ((hreceived origin).mp ho), fun a c hca ht => ?_, fun e he => hs.contents e (hdelivered ▸ he)⟩
  · obtain ⟨hops, informed, hc⟩ := hs.copies x (hold x hx)
    exact ⟨hops, informed, hc.mono hmono hf⟩
  · exact reached_mono hmono hf (hs.spreading a a' (ha.imp_right (hreceived a).mp) hlink)
  · have := hs.counts a c hca ht
    unfold deliveries at this ⊢
    rw [hdelivered, this]
    simp only [hreceived a]

/-- A daemon that has the message for the first time hands it on. -/
theorem Flooding.handOn (h : ClusterBroadcast net origin now message) (hs : Flooding net origin now message s) {b : ι}
    {m m' : SnapCommunicatorMessage} {hops : Nat} {informed new : List QString} {sends : Sends} {d : Daemon}
    {inFlight : List (ι × SnapCommunicatorMessage)} (hc : Copy net origin now message s (b, m) hops informed)
    (hbr : ¬ net.Received origin now s b) (hsp : net.Spreads b hops informed new message m m' sends) (hcopy : CopyOf message m')
    (hm' : Stamped (net.nextMsgid origin) (now + 10) (hops + 1 : Nat) ((net.daemon b).informedWith (informed ++ new)) m')
    (hd : SameConnections (s.daemon b) d)
    (hreceived : ∀ a, net.Received origin now (net.after s b inFlight (d, sends)) a ↔ a = b ∨ net.Received origin now s a)
    (hold : ∀ x ∈ inFlight, x ∈ s.inFlight) (hrest : ∀ x ∈ s.inFlight, x.1 = b ∨ x ∈ inFlight) :
    Flooding net origin now message (net.after s b inFlight (d, sends)) := by
  have hcounts : ∀ a, ∀ c ∈ (net.daemon a).connections, takes message c = true →
      deliveries (net.after s b inFlight (d, sends)) a c = deliveries s a c + if a = b then 1 else 0 :=
    fun a c hca ht => deliveries_after hsp hca ht inFlight d
  have hother : ∀ a ≠ b, (net.after s b inFlight (d, sends)).daemon a = s.daemon a := fun a hab => Function.update_of_ne hab _ _
  have hself : (net.after s b inFlight (d, sends)).daemon b = d := Function.update_self ..
  have hflight : (net.after s b inFlight (d, sends)).inFlight = inFlight ++ net.route b sends := rfl
  have hdelivered : (net.after s b inFlight (d, sends)).delivered = s.delivered ++ net.toServices b sends := rfl
  generalize net.after s b inFlight (d, sends) = s' at *
  have hmono : ∀ a, net.Received origin now s a → net.Received origin now s' a := fun a ha => (hreceived a).mpr (Or.inr ha)
  have hb := (hreceived b).mpr (Or.inl rfl)
  have hin : ∀ x ∈ net.route b sends, x ∈ s'.inFlight := fun x hx => hflight ▸ List.mem_append_right _ hx
  have hf : ∀ x ∈ s.inFlight, net.Received origin now s' x.1 ∨ x ∈ s'.inFlight := fun x hx =>
    (hrest x hx).imp (fun heq => by rw [heq]; exact hb) fun hx => hflight ▸ List.mem_append_left _ hx
  refine ⟨fun a => ?_, fun a t hat => ?_, fun x hx => ?_, fun a a' ha hlink => ?_, fun ho => ?_, fun a c hca ht => ?_,
    fun e he => ?_⟩
  · by_cases hab : a = b
    · subst hab
      rw [hself]
      exact (hs.same a).trans hd
    · rw [hother a hab]
      exact hs.same a
  · by_cases hab : a = b
    · subst hab
      have : some t = some (now + 10) := hat.symm.trans hb
      exact Option.some.inj this
    · rw [hother a hab] at hat
      exact hs.timeout a t hat
  · rw [hflight] at hx
    rcases List.mem_append.mp hx with hx | hx
    · obtain ⟨hops, informed, hx⟩ := hs.copies x (hold x hx)
      exact ⟨hops, informed, hx.mono hmono hf⟩
    · exact ⟨_, _, hc.next hsp hcopy hm' hmono hf hb hin hx⟩
  · rcases ha with rfl | ha
    · exact reached_mono hmono hf (hs.spreading a a' (Or.inl rfl) hlink)
    · rcases (hreceived a).mp ha with rfl | ha
      · exact hc.neighbor h hsp hmono hf hin hlink
      · exact reached_mono hmono hf (hs.spreading a a' (Or.inr ha) hlink)
  · rcases (hreceived origin).mp ho with rfl | ho
    · exact ⟨hc.echo rfl, hc.linked⟩
    · exact hs.echo ho
  · rw [hcounts a c hca ht, hs.counts a c hca ht]
    by_cases hab : a = b
    · subst hab
      rw [if_pos rfl, if_neg hbr, if_pos hb]
    · rw [if_neg hab, Nat.add_zero]
      refine congrArg _ ?_
      simp only [hreceived a, hab, false_or]
  · rw [hdelivered] at he
    rcases List.mem_append.mp he with he | he
    · exact hs.contents e he
    · rw [hsp.services] at he
      obtain ⟨c, hcc, rfl⟩ := List.mem_map.mp he
      exact ⟨hc.copyOf, (List.mem_filter.mp hcc).2⟩

/-- What a step does: a copy arrives at a daemon that has the message, or at one that hands it on. -/
theorem Flooding.step_inv (h : ClusterBroadcast net origin now message) (hs : Flooding net origin now message s)
    (hstep : net.Step (now + 10) s s') :
    ∃ b m l₁ l₂, s.inFlight = l₁ ++ (b, m) :: l₂ ∧
      ((net.Received origin now s b ∧ s'.daemon = s.daemon ∧ s'.delivered = s.delivered ∧ s'.inFlight = l₁ ++ l₂) ∨
      (¬ net.Received origin now s b ∧ ∃ d sends hops informed new m', s' = net.after s b (l₁ ++ l₂) (d, sends) ∧
        Copy net origin now message s (b, m) hops informed ∧ net.Spreads b hops informed new message m m' sends ∧
        CopyOf message m' ∧
        Stamped (net.nextMsgid origin) (now + 10) (hops + 1 : Nat) ((net.daemon b).informedWith (informed ++ new)) m' ∧
        SameConnections (s.daemon b) d ∧
        ∀ a, net.Received origin now s' a ↔ a = b ∨ net.Received origin now s a)) := by
  obtain ⟨hinFlight, hnow, hr⟩ := hstep
  rename_i b m l₁ l₂ now' source r
  obtain ⟨hops, informed, hc⟩ := hs.copies (b, m) (hinFlight ▸ List.mem_append_right _ List.mem_cons_self)
  refine ⟨b, m, l₁, l₂, hinFlight, ?_⟩
  rcases processMessage_copy h hc (hs.same b) (hs.timeout b) hnow source with
    ⟨hbr, heq⟩ | ⟨hbr, n, new, sends, m', heq, hsp, hcopy, hm'⟩ <;> rw [heq] at hr <;> cases hr
  · exact Or.inl ⟨hbr, Function.update_eq_self _ _, List.append_nil _, List.append_nil _⟩
  · exact Or.inr ⟨hbr, _, sends, hops, informed, new, m', rfl, hc, hsp, hcopy, hm', ⟨rfl, rfl, rfl, rfl⟩,
      fun a => received_after hnow (hs.timeout b) _ n sends⟩

theorem Flooding.step (h : ClusterBroadcast net origin now message) (hs : Flooding net origin now message s)
    (hstep : net.Step (now + 10) s s') : Flooding net origin now message s' := by
  obtain ⟨b, m, l₁, l₂, hinFlight, hcase⟩ := hs.step_inv h hstep
  have hrest : ∀ x ∈ s.inFlight, x.1 = b ∨ x ∈ l₁ ++ l₂ := fun x hx => by
    rw [hinFlight] at hx
    rcases List.mem_append.mp hx with hx | hx
    · exact Or.inr (List.mem_append_left _ hx)
    · rcases List.mem_cons.mp hx with rfl | hx
      · exact Or.inl rfl
      · exact Or.inr (List.mem_append_right _ hx)
  have hold : ∀ x ∈ l₁ ++ l₂, x ∈ s.inFlight := fun x hx => by
    rw [hinFlight]
    exact (List.mem_append.mp hx).elim (List.mem_append_left _) fun hx =>
      List.mem_append_right _ (List.mem_cons_of_mem _ hx)
  rcases hcase with ⟨hbr, hdaemon, hdelivered, hflight⟩ |
    ⟨hbr, d, sends, hops, informed, new, m', rfl, hc, hsp, hcopy, hm', hd, hreceived⟩
  · exact hs.drop hbr hdaemon hdelivered (fun x hx => hold x (hflight ▸ hx)) fun x hx => (hrest x hx).imp_right (hflight ▸ ·)
  · exact hs.handOn h hc hbr hsp hcopy hm' hd hreceived hold hrest

/-! ### Exactly once -/

theorem Flooding.run (h : ClusterBroadcast net origin now message) {source : Connection} {n : Nat} {s₀ : NetworkState ι}
    (hs : net.begin origin now source message = some s₀) (hrun : Run (net.Step (now + 10)) s₀ n s) :
    Flooding net origin now message s :=
  Run.invariant (I := fun s => Flooding net origin now message s) (Flooding.begin h hs) (fun _ _ ht hstep => ht.step h hstep) hrun

/-- A message in flight can be delivered at any time while the broadcast is alive. -/
theorem Flooding.progress (h : ClusterBroadcast net origin now message) (hs : Flooding net origin now message s)
    {b : ι} {m : SnapCommunicatorMessage} (hm : (b, m) ∈ s.inFlight) {now' : Int} (hnow : now' ≤ now + 10) (source : Connection) :
    ∃ r, (s.daemon b).processMessage now' source m = some r := by
  obtain ⟨hops, informed, hc⟩ := hs.copies (b, m) hm
  rcases processMessage_copy h hc (hs.same b) (hs.timeout b) hnow source with ⟨-, heq⟩ | ⟨-, n, new, sends, m', heq, -⟩
  · exact ⟨_, heq⟩
  · exact ⟨_, heq⟩

/-- The daemons that are in touch with the originator. -/
def Connected (net : Network ι) (origin : ι) : ι → Prop := Relation.ReflTransGen net.Linked origin

/-- When nothing is in flight any more, every daemon in touch with the originator has had the message. -/
theorem Flooding.complete (hs : Flooding net origin now message s) (hq : s.inFlight = []) {a : ι} (ha : Connected net origin a) :
    a = origin ∨ net.Received origin now s a := by
  induction ha with
  | refl => exact Or.inl rfl
  | tail _ hlink ih =>
    rcases hs.spreading _ _ ih hlink with h | h | ⟨m, hm⟩
    · exact Or.inl h
    · exact Or.inr h
    · rw [hq] at hm
      cases hm

theorem Flooding.deliveries_le (hs : Flooding net origin now message s) (he : net.NoEcho origin message) {a : ι} {c : Connection}
    (hc : c ∈ (net.daemon a).connections) (ht : takes message c = true) : deliveries s a c ≤ 1 := by
  rw [hs.counts a c hc ht]
  by_cases hao : a = origin
  · subst hao
    have hnot : ¬ net.Received a now s a := fun hr => by
      obtain ⟨hne, b, hlink⟩ := hs.echo hr
      rcases he with he | he | he
      · exact hne he
      · exact he b hlink
      · rw [he c hc] at ht
        cases ht
    rw [if_pos rfl, if_neg hnot]
  · rw [if_neg hao]
    split <;> omega

/-- What is left to do in the network: the messages in flight, and for each daemon that has not had the
    message yet, those it may send. -/
def remaining [Fintype ι] (net : Network ι) (origin : ι) (now : Int) (s : NetworkState ι) : Nat :=
  s.inFlight.length + ∑ a, if net.Received origin now s a then 0 else (net.daemon a).connections.length

theorem remaining_step [Fintype ι] (h : ClusterBroadcast net origin now message) (hs : Flooding net origin now message s)
    (hstep : net.Step (now + 10) s s') : remaining net origin now s' + 1 ≤ remaining net origin now s := by
  obtain ⟨b, m, l₁, l₂, hinFlight, hcase⟩ := hs.step_inv h hstep
  have hlen : s.inFlight.length = (l₁ ++ l₂).length + 1 := by
    rw [hinFlight]
    simp
    omega
  unfold remaining
  rcases hcase with ⟨-, hdaemon, -, hflight⟩ | ⟨hbr, d, sends, hops, informed, new, m', rfl, -, hsp, -, -, -, hreceived⟩
  · have hreceived : ∀ a, net.Received origin now s' a ↔ net.Received origin now s a := fun a => by
      unfold Received
      rw [hdaemon]
    simp only [hreceived, hflight, hlen]
    omega
  · -- what the daemon sends is taken from what it was allowed to send
    have hsum : (∑ a, if net.Received origin now (net.after s b (l₁ ++ l₂) (d, sends)) a then 0
        else (net.daemon a).connections.length) + (net.daemon b).connections.length =
        ∑ a, if net.Received origin now s a then 0 else (net.daemon a).connections.length := by
      rw [← Finset.add_sum_erase _ _ (Finset.mem_univ b), ← Finset.add_sum_erase _ _ (Finset.mem_univ b), if_neg hbr,
        if_pos ((hreceived b).mpr (Or.inl rfl))]
      have : ∀ a ∈ Finset.univ.erase b, (if net.Received origin now (net.after s b (l₁ ++ l₂) (d, sends)) a then 0
          else (net.daemon a).connections.length) = if net.Received origin now s a then 0 else (net.daemon a).connections.length :=
        fun a ha => by simp only [hreceived, Finset.ne_of_mem_erase ha, false_or]
      rw [Finset.sum_congr rfl this]
      omega
    have hroute := hsp.length
    have hflight : (net.after s b (l₁ ++ l₂) (d, sends)).inFlight.length = (l₁ ++ l₂).length + (net.route b sends).length :=
      List.length_append
    omega

/-- A broadcast to the cluster: from the moment the client has sent it, and in whatever order the copies
    arrive, no service has it twice; a copy in flight can always be delivered; and after a bounded number
    of deliveries nothing is in flight and every service that takes the command, on every daemon in touch
    with the originator, has had it. -/
theorem exactlyOnce_of_noEcho [Fintype ι] (h : ClusterBroadcast net origin now message) (he : net.NoEcho origin message)
    (source : Connection) :
    ∃ s₀ bound, net.begin origin now source message = some s₀ ∧
      ∀ n s, Run (net.Step (now + 10)) s₀ n s →
        n ≤ bound ∧
        (∀ b m, (b, m) ∈ s.inFlight → ∀ now' ≤ now + 10, ∀ source', ∃ r, (s.daemon b).processMessage now' source' m = some r) ∧
        (∀ e ∈ s.delivered, CopyOf message e.2.2) ∧
        ∀ a, ∀ c ∈ (net.daemon a).connections, takes message c = true →
          deliveries s a c ≤ 1 ∧ (s.inFlight = [] → Connected net origin a → deliveries s a c = 1) := by
  have hbegin : ∃ s₀, net.begin origin now source message = some s₀ := by
    unfold Network.begin
    rw [processMessage_new _ _ h.first, dispatch_clusterWide h.clusterWide, broadcastMessage_new _ _ h.first]
    exact ⟨_, rfl⟩
  obtain ⟨s₀, hs₀⟩ := hbegin
  refine ⟨s₀, remaining net origin now s₀, hs₀, fun n s hrun => ?_⟩
  have hs := Flooding.run h hs₀ hrun
  have hbound := Run.length_le (I := fun s => Flooding net origin now message s) (Flooding.begin h hs₀)
    (fun _ _ ht hstep => ht.step h hstep) (fun _ _ ht hstep => remaining_step h ht hstep) hrun
  refine ⟨by omega, fun b m hm now' hnow source' => hs.progress h hm hnow source', fun e he => (hs.contents e he).1,
    fun a c hc ht => ?_⟩
  have hle := hs.deliveries_le he hc ht
  refine ⟨hle, fun hq ha => ?_⟩
  have hcount := hs.counts a c hc ht
  rcases hs.complete hq ha with rfl | hr
  · rw [if_pos rfl] at hcount
    omega
  · rw [if_pos hr] at hcount
    omega

/-- When the echo matters, too, every service in touch with the originator has the message at least once, and only those of the
originator may have it twice. -/
theorem atLeastOnce [Fintype ι] (h : ClusterBroadcast net origin now message) (source : Connection) :
    ∃ s₀ bound, net.begin origin now source message = some s₀ ∧
      ∀ n s, Run (net.Step (now + 10)) s₀ n s → n ≤ bound ∧
        ∀ a, ∀ c ∈ (net.daemon a).connections, takes message c = true →
          deliveries s a c ≤ (if a = origin then 2 else 1) ∧ (s.inFlight = [] → Connected net origin a → 1 ≤ deliveries s a c) := by
  obtain ⟨s₀, hs₀⟩ : ∃ s₀, net.begin origin now source message = some s₀ := by
    unfold Network.begin
    rw [processMessage_new _ _ h.first, dispatch_clusterWide h.clusterWide, broadcastMessage_new _ _ h.first]
    exact ⟨_, rfl⟩
  refine ⟨s₀, remaining net origin now s₀, hs₀, fun n s hrun => ?_⟩
  have hs := Flooding.run h hs₀ hrun
  have hbound := Run.length_le (I := fun s => Flooding net origin now message s) (Flooding.begin h hs₀)
    (fun _ _ ht hstep => ht.step h hstep) (fun _ _ ht hstep => remaining_step h ht hstep) hrun
  refine ⟨by omega, fun a c hc ht => ?_⟩
  rw [hs.counts a c hc ht]
  refine ⟨by split_ifs <;> decide, fun hq ha => ?_⟩
  rcases hs.complete hq ha with rfl | hr
  · rw [if_pos rfl]
    exact Nat.le_add_right 1 _
  · rw [if_pos hr]
    exact Nat.le_add_left 1 _

end Step

/-! ### Two daemons -/

/-- The oldest message in flight arrives. -/
def deliverFirst [DecidableEq ι] (now : Int) (source : Connection) (s : NetworkState ι) : Option (NetworkState ι) :=
  match s.inFlight with
  | [] => none
  | (b, m) :: l => ((s.daemon b).processMessage now source m).map (net.after s b l)

def deliverFirsts [DecidableEq ι] (now : Int) (source : Connection) : Nat → NetworkState ι → Option (NetworkState ι)
  | 0, s => some s
  | n + 1, s => (deliverFirsts now source n s).bind (net.deliverFirst now source)

theorem run_deliverFirsts {net : Network ι} [DecidableEq ι] {now deadline : Int} (hnow : now ≤ deadline) {source : Connection}
    {s : NetworkState ι} : ∀ {n : Nat} {t : NetworkState ι}, net.deliverFirsts now source n s = some t → Run (net.Step deadline) s n t
  | 0, t, h => by
    cases h
    exact .start
  | n + 1, t, h => by
    obtain ⟨u, hu, ht⟩ := Option.bind_eq_some_iff.mp h
    refine .step (run_deliverFirsts hnow hu) ?_
    unfold deliverFirst at ht
    split at ht
    · cases ht
    · rename_i b m l hl
      obtain ⟨r, hr, rfl⟩ := Option.map_eq_some_iff.mp ht
      have hfront : u.inFlight = [] ++ (b, m) :: l := hl
      exact .deliver hfront hnow hr

def pairIp (ipv4 : Bool) (a : Fin 2) : Address :=
  match ipv4, a with
  | true, 0 => { ip := "10.0.0.1".toList, isIpv4 := true, networkType := .privateNetwork }
  | true, 1 => { ip := "10.0.0.2".toList, isIpv4 := true, networkType := .privateNetwork }
  | false, 0 => { ip := "fd00::1".toList, isIpv4 := false, networkType := .privateNetwork }
  | false, 1 => { ip := "fd00::2".toList, isIpv4 := false, networkType := .privateNetwork }

def pairService : Connection :=
  { pointer := 0, kind := .serviceConnection, name := "snapwatchdog".toList, serverName := "here".toList
    connectionType := .localService, understoodCommands := ["SAFE".toList]
    address := { ip := "127.0.0.1".toList, isIpv4 := true, networkType := .loopback } }

def pairLink (ipv4 : Bool) (a : Fin 2) : Connection :=
  { pointer := 1, kind := if a = 0 then .remoteSnapCommunicator else .serviceConnection, name := "remote connection".toList
    serverName := "there".toList, connectionType := .remote, address := pairIp ipv4 (1 - a) }

/-- Two daemons with one service each, connected with each other. -/
def pair (ipv4 : Bool) : Network (Fin 2) where
  daemon a := { serverName := if a = 0 then "left".toList else "right".toList, myAddress := pairIp ipv4 a
                connections := [pairService, pairLink ipv4 a] }
  peer a c := if c.pointer = 1 then some (1 - a) else none
  ip_injective := by cases ipv4 <;> decide
  serverName_ne_nil := by cases ipv4 <;> decide
  nodup := by cases ipv4 <;> decide
  peer_ip := by cases ipv4 <;> decide
  symmetric := by cases ipv4 <;> decide
  localService := by cases ipv4 <;> decide
  remote := by cases ipv4 <;> decide

def safeMessage : SnapCommunicatorMessage := { service := ['*'], command := "SAFE".toList }

theorem SimplePath.nodup {net : Network ι} {origin : ι} {p : List ι} (h : SimplePath net origin p) : p.Nodup := by
  induction h with
  | start => exact List.nodup_singleton _
  | cons _ _ hnot ih => exact List.nodup_cons.mpr ⟨hnot, ih⟩

theorem pair_clusterBroadcast (ipv4 : Bool) : ClusterBroadcast (pair ipv4) 0 0 safeMessage where
  clusterWide := ⟨by decide, by decide⟩
  first := by decide
  clock := by decide
  fresh := by cases ipv4 <;> decide
  privateNetwork := by cases ipv4 <;> decide
  fiveLinks p hp := (List.Nodup.length_le_card hp.nodup).trans (by decide)

theorem exactlyOnce_of_noEcho_pair :
    ∃ s₀ bound, (pair true).begin 0 0 pairService safeMessage = some s₀ ∧
      ∀ n s, Run ((pair true).Step (0 + 10)) s₀ n s →
        n ≤ bound ∧
        (∀ b m, (b, m) ∈ s.inFlight → ∀ now' ≤ (0 : Int) + 10, ∀ source', ∃ r,
          (s.daemon b).processMessage now' source' m = some r) ∧
        (∀ e ∈ s.delivered, CopyOf safeMessage e.2.2) ∧
        ∀ a, ∀ c ∈ ((pair true).daemon a).connections, takes safeMessage c = true →
          deliveries s a c ≤ 1 ∧ (s.inFlight = [] → Connected (pair true) 0 a → deliveries s a c = 1) :=
  exactlyOnce_of_noEcho (pair_clusterBroadcast true) (Or.inl rfl) pairService

theorem atLeastOnce_pair : ∃ s₀ bound, (pair false).begin 0 0 pairService safeMessage = some s₀ ∧
    ∀ n s, Run ((pair false).Step (0 + 10)) s₀ n s → n ≤ bound ∧
      ∀ a, ∀ c ∈ ((pair false).daemon a).connections, takes safeMessage c = true →
        deliveries s a c ≤ (if a = 0 then 2 else 1) ∧ (s.inFlight = [] → Connected (pair false) 0 a → 1 ≤ deliveries s a c) :=
  atLeastOnce (pair_clusterBroadcast false) pairService

/-- With an IPv6 address, the originator gets its own message back and sends it to its service again. -/
theorem not_exactlyOnce_of_ipv6 :
    ¬ ∀ (net : Network (Fin 2)) (origin : Fin 2) (now : Int) (message : SnapCommunicatorMessage) (source : Connection)
      (s₀ : NetworkState (Fin 2)), ClusterBroadcast net origin now message →
      net.begin origin now source message = some s₀ → ∀ n s, Run (net.Step (now + 10)) s₀ n s →
        ∀ a, ∀ c ∈ (net.daemon a).connections, takes message c = true → deliveries s a c ≤ 1 := by
  intro h
  have hdeliveries : (((pair false).begin 0 0 pairService safeMessage).bind ((pair false).deliverFirsts 0 pairService 2)).map
      (fun s => deliveries s 0 pairService) = some 2 := by decide
  obtain ⟨s, hs, hcount⟩ := Option.map_eq_some_iff.mp hdeliveries
  obtain ⟨s₀, hs₀, hrun⟩ := Option.bind_eq_some_iff.mp hs
  have := h (pair false) 0 0 safeMessage pairService s₀ (pair_clusterBroadcast false) hs₀ 2 s
    (run_deliverFirsts (by decide) hrun) 0 pairService (by decide) (by decide)
  omega

end Network
end Snapwebsites
