import Mathlib.Logic.Function.Basic
import Snapwebsites.Communicator.Broadcast
import Snapwebsites.Lib.Run

/-! # A network of daemons

Daemons that are connected with each other, one message that a client sends through one of them, and
its copies on their way. A copy in flight is delivered at any time up to the timeout of the broadcast,
in any order. What goes over a connection to a service is kept in a log; no daemon reads it. -/

namespace Snapwebsites
open QString SnapCommunicatorMessage

/-- Daemons with the connections among them. A connection that leads to no other daemon is the one of
    a local service; the listener gives the connections to other daemons a name with blanks. -/
structure Network (ι : Type) where
  daemon : ι → Daemon
  peer : ι → Connection → Option ι
  ip_injective : ∀ a b, (daemon a).myAddress.ip = (daemon b).myAddress.ip → a = b
  serverName_ne_nil : ∀ a, (daemon a).serverName ≠ []
  nodup : ∀ a, (daemon a).connections.Nodup
  peer_ip : ∀ a, ∀ c ∈ (daemon a).connections, ∀ b, peer a c = some b → b ≠ a ∧ c.address.ip = (daemon b).myAddress.ip
  symmetric : ∀ a, ∀ c ∈ (daemon a).connections, ∀ b, peer a c = some b →
    ∃ c' ∈ (daemon b).connections, peer b c' = some a
  localService : ∀ a, ∀ c ∈ (daemon a).connections, peer a c = none →
    c.kind = .serviceConnection ∧ c.connectionType = .localService ∧ c.address.networkType = .loopback
  remote : ∀ a, ∀ c ∈ (daemon a).connections, ∀ b, peer a c = some b →
    c.serverName ≠ [] ∧ c.address.networkType ≠ .loopback ∧
    (c.kind = .serviceConnection → c.connectionType = .remote ∧ ' ' ∈ c.name)

/-- What is on its way and what has gone to the services: the daemon, the connection and the message. -/
structure NetworkState (ι : Type) where
  daemon : ι → Daemon
  inFlight : List (ι × SnapCommunicatorMessage)
  delivered : List (ι × Connection × SnapCommunicatorMessage) := []

namespace Network
variable {ι : Type} (net : Network ι)

def Linked (a b : ι) : Prop := ∃ c ∈ (net.daemon a).connections, net.peer a c = some b

/-- What the daemon `a` sends to other daemons. -/
def route (a : ι) (sends : Sends) : List (ι × SnapCommunicatorMessage) :=
  sends.filterMap fun e => (net.peer a e.1).map fun b => (b, e.2)

/-- What the daemon `a` sends to its services. -/
def toServices (a : ι) (sends : Sends) : List (ι × Connection × SnapCommunicatorMessage) :=
  sends.filterMap fun e => if net.peer a e.1 = none then some (a, e.1, e.2) else none

/-- The network with one daemon after a message, the other messages in flight being `inFlight`. -/
def after [DecidableEq ι] (s : NetworkState ι) (a : ι) (inFlight : List (ι × SnapCommunicatorMessage)) (r : Daemon × Sends) : NetworkState ι :=
  { daemon := Function.update s.daemon a r.1
    inFlight := inFlight ++ net.route a r.2
    delivered := s.delivered ++ net.toServices a r.2 }

/-- The network in which a client of the daemon `origin` has just sent a message. -/
def begin [DecidableEq ι] (origin : ι) (now : Int) (source : Connection) (message : SnapCommunicatorMessage) : Option (NetworkState ι) := do
  let r ← (net.daemon origin).processMessage now source message
  some (net.after { daemon := net.daemon, inFlight := [] } origin [] r)

/-- One of the messages in flight arrives while the broadcast is alive. -/
inductive Step [DecidableEq ι] (deadline : Int) : NetworkState ι → NetworkState ι → Prop
  | deliver {s : NetworkState ι} {b : ι} {m : SnapCommunicatorMessage} {l₁ l₂ : List (ι × SnapCommunicatorMessage)}
      {now : Int} {source : Connection} {r : Daemon × Sends} :
      s.inFlight = l₁ ++ (b, m) :: l₂ → now ≤ deadline → (s.daemon b).processMessage now source m = some r →
      Step deadline s (net.after s b (l₁ ++ l₂) r)

/-- The identifier that the daemon `a` gives to the next message. -/
def nextMsgid (a : ι) : QString := (net.daemon a).serverName ++ '-' :: number ((net.daemon a).broadcastSequence + 1)

variable {net} {a b : ι} {sends sends' : Sends}

/-! ### Routes -/

theorem mem_route {x : ι × SnapCommunicatorMessage} :
    x ∈ net.route a sends ↔ ∃ c, (c, x.2) ∈ sends ∧ net.peer a c = some x.1 := by
  unfold route
  rw [List.mem_filterMap]
  constructor
  · rintro ⟨⟨c, m⟩, hm, h⟩
    obtain ⟨b, hb, rfl⟩ := Option.map_eq_some_iff.mp h
    exact ⟨c, hm, hb⟩
  · rintro ⟨c, hm, hp⟩
    exact ⟨(c, x.2), hm, by rw [hp]; rfl⟩

theorem route_append : net.route a (sends ++ sends') = net.route a sends ++ net.route a sends' := List.filterMap_append

theorem toServices_append : net.toServices a (sends ++ sends') = net.toServices a sends ++ net.toServices a sends' :=
  List.filterMap_append

theorem length_route_le : (net.route a sends).length ≤ sends.length := List.length_filterMap_le _ _

/-- Nothing that goes to services is in flight. -/
theorem route_eq_nil (h : ∀ e ∈ sends, net.peer a e.1 = none) : net.route a sends = [] := by
  refine List.filterMap_eq_nil_iff.mpr fun e he => ?_
  rw [h e he]
  rfl

theorem toServices_eq_nil (h : ∀ e ∈ sends, net.peer a e.1 ≠ none) : net.toServices a sends = [] := by
  refine List.filterMap_eq_nil_iff.mpr fun e he => ?_
  rw [if_neg (h e he)]

theorem toServices_eq_map (h : ∀ e ∈ sends, net.peer a e.1 = none) :
    net.toServices a sends = sends.map fun e => (a, e.1, e.2) := by
  unfold toServices
  rw [← List.filterMap_eq_map]
  exact List.filterMap_congr fun e he => by rw [if_pos (h e he)]; rfl

/-! ### Daemons that differ in what they have received only -/

/-- The daemon has the connections, the address and the name it had in the network. -/
structure SameConnections (d d' : Daemon) : Prop where
  connections : d'.connections = d.connections
  myAddress : d'.myAddress = d.myAddress
  serverName : d'.serverName = d.serverName
  localServicesList : d'.localServicesList = d.localServicesList

theorem SameConnections.refl (d : Daemon) : SameConnections d d := ⟨rfl, rfl, rfl, rfl⟩

theorem SameConnections.trans {d d' d'' : Daemon} (h : SameConnections d d') (h' : SameConnections d' d'') :
    SameConnections d d'' :=
  ⟨h'.connections.trans h.connections, h'.myAddress.trans h.myAddress, h'.serverName.trans h.serverName,
    h'.localServicesList.trans h.localServicesList⟩

theorem sameConnections_receive (d : Daemon) (now : Int) (msgid : QString) (timeout : Int) :
    SameConnections d (d.receive now msgid timeout) := ⟨rfl, rfl, rfl, rfl⟩

end Network
end Snapwebsites
