import Mathlib.Data.Finset.Card
import Snapwebsites.Communicator.Cluster
import Snapwebsites.Lib.Trace

/-! # What the status counts

The status counts every permanent connection, connected or not, and every connection from the listener for other computers,
before it says `CONNECT` too. The computers that are connected are fewer (`remotes`). `Counted` says when this makes no
difference, and what else must hold for the status that was told last to be true after an event. -/

namespace Snapwebsites
open QString
namespace ClusterServer

/-! ### What the status is about -/

def isRemote (s : ClusterServer) (p : Peer) : Bool := s.isConnected p && (s.base p).any (·.connectionType = .remote)

/-- The remote computers that are connected. -/
def remotes (s : ClusterServer) : Finset Peer :=
  ((s.remoteSnapcommunicators.smallerIps.entries.map fun e => Peer.permanent e.1) ++
    s.services.entries.map fun e => Peer.service e.1).toFinset.filter fun p => s.isRemote p = true

def neighbors (s : ClusterServer) : Finset QString := (s.allNeighbors.entries.map Prod.fst).toFinset

def isStatus (command : QString) : Bool := command = "CLUSTERUP".toList || command = "CLUSTERDOWN".toList

/-- The last status that was broadcast. -/
def lastTold (s : ClusterServer) : Option QString := ((s.broadcasts.map (·.command)).filter isStatus).getLast?

def Truthful (d : Option ClusterServer) : Prop :=
  ∀ s, d = some s → (lastTold s = some "CLUSTERUP".toList ↔ quorum s.allNeighbors.entries.length ≤ (remotes s).card + 1)

/-! ### What an event does to the numbers -/

def HasQuorum (neighbors : Finset QString) (count : Nat) : Prop := quorum neighbors.card ≤ count + 1

instance (neighbors : Finset QString) (count : Nat) : Decidable (HasQuorum neighbors count) :=
  inferInstanceAs (Decidable (_ ≤ _))

def named (m : SnapCommunicatorMessage) (name : String) : Finset QString :=
  (splitParts ',' ((m.getParameter name).getD [])).toFinset

/-- `CONNECT` is accepted. -/
def admits (s : ClusterServer) (others : Nat) (p : Peer) (m : SnapCommunicatorMessage) : Bool :=
  s.isConnected p && m.getIntegerParameter "version" = some version && m.hasParameter "my_address" &&
    (m.getParameter "server_name").any (fun name => !s.nameMatch p name) && !s.tooMany others

def accepts (s : ClusterServer) (p : Peer) (m : SnapCommunicatorMessage) : Bool :=
  s.isConnected p && m.hasParameter "server_name" && m.hasParameter "my_address"

/-- The status is told. -/
def announces (s : ClusterServer) : ClusterEvent → Bool
  | .connect _ others p m => s.admits others p m
  | .disconnect p _ => s.isRemote p
  | _ => false

def neighborsAfter (s : ClusterServer) : ClusterEvent → Finset QString
  | .addNeighbors _ newNeighbors => s.neighbors ∪ (splitParts ',' newNeighbors).toFinset
  | .forget p m => if s.isConnected p then (m.getParameter "ip").elim s.neighbors s.neighbors.erase else s.neighbors
  | .connect _ others p m =>
    if s.admits others p m then s.neighbors ∪ named m "neighbors" ∪ named m "my_address" else s.neighbors
  | .accept _ p m => if s.accepts p m then s.neighbors ∪ named m "neighbors" else s.neighbors
  | _ => s.neighbors

def remotesAfter (s : ClusterServer) : ClusterEvent → Finset Peer
  | .forget p m => if s.isConnected p then (m.getParameter "ip").elim s.remotes fun ip =>
      s.remotes.erase (.permanent (RemoteCommunicatorConnections.withoutPort ip)) else s.remotes
  | .connected addr => if (s.base (.permanent addr)).any (·.connectionType = .remote) then insert (.permanent addr) s.remotes
    else s.remotes
  | .connect _ others p m => if s.admits others p m then insert p s.remotes else s.remotes
  | .accept _ p m => if s.accepts p m then insert p s.remotes else s.remotes
  | .refuse p _ => s.remotes.erase p
  | .disconnect p _ => s.remotes.erase p
  | .hup p => s.remotes.erase p
  | _ => s.remotes

/-- The connections that count for the status that an event tells. -/
def liveAfter (lib : Libaddr) (s : ClusterServer) : ClusterEvent → Nat
  | .connect now _ _ m =>
    (((s.addNeighbors lib now ((m.getParameter "neighbors").getD [])).bind
      (addNeighbors lib now ((m.getParameter "my_address").getD []))).getD s).countLiveConnections
  | .disconnect (.service socket) _ =>
    s.countLiveConnections - if (s.services.find? socket).any (·.remoteConnection) then 1 else 0
  | _ => s.countLiveConnections

/-- When the status that was told last is true after an event. An event that tells nothing makes no difference to the quorum;
    and what counts for the status that an event tells has the quorum exactly when the computers that are connected have. -/
def Counted (lib : Libaddr) (d : Option ClusterServer) (e : ClusterEvent) : Prop :=
  match d, e with
  | none, .init now c => ∀ s, c.join lib now = some s → (HasQuorum s.neighbors s.countLiveConnections ↔ HasQuorum s.neighbors 0)
  | none, _ => True
  | some s, e => (s.handle lib e).isSome = true →
    if s.announces e then
      (HasQuorum (s.neighborsAfter e) (s.liveAfter lib e) ↔ HasQuorum (s.neighborsAfter e) (s.remotesAfter e).card)
    else (HasQuorum (s.neighborsAfter e) (s.remotesAfter e).card ↔ HasQuorum s.neighbors s.remotes.card)

/-! ### Counting -/

variable {lib : Libaddr} {s t : ClusterServer} {p q : Peer} {b b₀ : BaseConnection} {addr : QString} {socket : Nat}

theorem isRemote_iff : s.isRemote p = true ↔ s.isConnected p = true ∧ ∃ b, s.base p = some b ∧ b.connectionType = .remote := by
  unfold isRemote
  cases s.base p with
  | none => simp
  | some b => simp

theorem mem_remotes : p ∈ s.remotes ↔ s.isRemote p = true := by
  unfold remotes
  rw [Finset.mem_filter, List.mem_toFinset, and_iff_right_iff_imp]
  intro h
  obtain ⟨-, b, hb, -⟩ := isRemote_iff.mp h
  cases p with
  | permanent addr =>
    obtain ⟨c, hc, -⟩ := Option.map_eq_some_iff.mp hb
    exact List.mem_append_left _ (List.mem_map.mpr ⟨_, SortedMap.find?_eq_some.mp hc, rfl⟩)
  | service socket => exact List.mem_append_right _ (List.mem_map.mpr ⟨_, SortedMap.find?_eq_some.mp hb, rfl⟩)

theorem remotes_congr (h : ∀ q, t.isRemote q = s.isRemote q) : t.remotes = s.remotes :=
  Finset.ext fun q => by rw [mem_remotes, mem_remotes, h]

theorem remotes_insert (h : ∀ q, t.isRemote q = if q = p then true else s.isRemote q) : t.remotes = insert p s.remotes :=
  Finset.ext fun q => by
    rw [mem_remotes, Finset.mem_insert, mem_remotes, h]
    split <;> simp [*]

theorem remotes_erase (h : ∀ q, t.isRemote q = if q = p then false else s.isRemote q) : t.remotes = s.remotes.erase p :=
  Finset.ext fun q => by
    rw [mem_remotes, Finset.mem_erase, mem_remotes, h]
    split <;> simp [*]

theorem mem_neighbors {neighbor : QString} : neighbor ∈ s.neighbors ↔ s.allNeighbors.contains neighbor = true := by
  unfold neighbors SortedMap.contains
  rw [List.mem_toFinset, List.mem_map, Option.isSome_iff_exists]
  constructor
  · rintro ⟨e, he, rfl⟩
    exact ⟨e.2, SortedMap.find?_eq_some.mpr he⟩
  · rintro ⟨v, hv⟩
    exact ⟨_, SortedMap.find?_eq_some.mp hv, rfl⟩

theorem card_neighbors (s : ClusterServer) : s.neighbors.card = s.allNeighbors.entries.length := by
  unfold neighbors
  rw [List.toFinset_card_of_nodup, List.length_map]
  exact List.pairwise_map.mpr (s.allNeighbors.sorted.imp fun hlt => ne_of_lt hlt)

/-! ### What a change of a connection does -/

theorem isRemote_setBase (hb : s.base p = some b₀) (q : Peer) : (s.setBase p b).isRemote q =
    if q = p then s.isConnected p && decide (b.connectionType = .remote) else s.isRemote q := by
  cases p with
  | permanent addr =>
    obtain ⟨c, hc, -⟩ := Option.map_eq_some_iff.mp hb
    split
    · rename_i hq
      subst hq
      simp [isRemote, setBase, isConnected, base, communicator, hc]
    · rename_i hq
      cases q with
      | permanent addr' =>
        have hne : addr' ≠ addr := fun h => hq (congrArg _ h)
        simp [isRemote, setBase, isConnected, base, communicator, SortedMap.find?_insert_of_ne hne]
      | service socket => rfl
  | service socket =>
    split
    · rename_i hq
      subst hq
      have hcontains : s.services.contains socket = true := Option.isSome_iff_exists.mpr ⟨_, hb⟩
      rw [show s.isConnected (.service socket) = true from hcontains]
      simp [isRemote, setBase, isConnected, base, SortedMap.contains]
    · rename_i hq
      cases q with
      | permanent addr => rfl
      | service socket' =>
        have hne : socket' ≠ socket := fun h => hq (congrArg _ h)
        simp [isRemote, setBase, isConnected, base, SortedMap.contains, SortedMap.find?_insert_of_ne hne]

theorem isRemote_setRemote {c : RemoteConnection} (q : Peer) : (s.setRemote c addr).isRemote q =
    if q = .permanent addr then c.connected && decide ((s.communicator addr).connectionType = .remote) else s.isRemote q := by
  split
  · rename_i hq
    subst hq
    unfold isRemote
    rw [show (s.setRemote c addr).isConnected (.permanent addr) = c.connected by simp [isConnected, setRemote],
      show (s.setRemote c addr).base (.permanent addr) = some (s.communicator addr).toBaseConnection by simp [base, setRemote]; rfl,
      Option.any_some]
  · rename_i hq
    cases q with
    | permanent addr' =>
      have hne : addr' ≠ addr := fun h => hq (congrArg _ h)
      simp [isRemote, setRemote, isConnected, base, communicator, SortedMap.find?_insert_of_ne hne]
    | service socket => rfl

theorem isRemote_disconnectRemote (addr : QString) (q : Peer) : (s.disconnectRemote addr).isRemote q =
    if q = .permanent addr then false else s.isRemote q := by
  unfold disconnectRemote
  split
  · rename_i c hc
    rw [isRemote_setRemote]
    simp
  · rename_i hc
    split
    · rename_i hq
      subst hq
      simp [isRemote, isConnected, hc]
    · rfl

theorem isRemote_removeConnection (socket : Nat) (q : Peer) : (s.removeConnection socket).isRemote q =
    if q = .service socket then false else s.isRemote q := by
  split
  · rename_i hq
    subst hq
    simp [isRemote, removeConnection, isConnected, base, SortedMap.contains]
  · rename_i hq
    cases q with
    | permanent addr => rfl
    | service socket' =>
      have hne : socket' ≠ socket := fun h => hq (congrArg _ h)
      simp [isRemote, removeConnection, isConnected, base, SortedMap.contains, SortedMap.find?_erase_of_ne hne]

theorem isRemote_permanent (s : ClusterServer) (addr : QString) : s.isRemote (.permanent addr) =
    ((s.remoteSnapcommunicators.smallerIps.find? addr).any (·.connected) &&
      decide ((s.communicator addr).connectionType = .remote)) := by
  simp only [isRemote, isConnected, base]
  cases s.remoteSnapcommunicators.smallerIps.find? addr with
  | none => rfl
  | some c => rfl

/-! ### Registries -/

section
open RemoteCommunicatorConnections
variable {r r' : RemoteCommunicatorConnections} {now : Int} {text : QString}

/-- The address of every permanent connection is known. -/
def Known (r : RemoteCommunicatorConnections) : Prop := ∀ addr, r.smallerIps.contains addr = true → r.allIps.contains addr = true

/-- The same permanent connections are connected, and addresses stay known. -/
structure SameConnected (r r' : RemoteCommunicatorConnections) : Prop where
  connected : ∀ addr, (r'.smallerIps.find? addr).any (·.connected) = (r.smallerIps.find? addr).any (·.connected)
  known : Known r → Known r'

theorem SameConnected.refl (r : RemoteCommunicatorConnections) : SameConnected r r := ⟨fun _ => rfl, id⟩

theorem SameConnected.trans {r'' : RemoteCommunicatorConnections} (h : SameConnected r r') (h' : SameConnected r' r'') :
    SameConnected r r'' :=
  ⟨fun addr => (h'.connected addr).trans (h.connected addr), fun hr => h'.known (h.known hr)⟩

/-- A permanent connection of which something else changes. -/
theorem sameConnected_insert {c c' : RemoteConnection} (hc : r.smallerIps.find? addr = some c)
    (hconnected : c'.connected = c.connected) (hall : r'.allIps = r.allIps) (hsmaller : r'.smallerIps = r.smallerIps.insert addr c') :
    SameConnected r r' := by
  refine ⟨fun addr' => ?_, fun hknown addr' h => ?_⟩
  · rw [hsmaller, SortedMap.find?_insert]
    split
    · rename_i haddr
      rw [haddr, hc, Option.any_some, Option.any_some, hconnected]
    · rfl
  · rw [hall]
    refine hknown addr' ?_
    rw [hsmaller, SortedMap.contains, SortedMap.find?_insert] at h
    split at h
    · rename_i haddr
      rw [haddr, SortedMap.contains, hc]
      rfl
    · exact h

theorem sameConnected_pause (delay : Int) (addr : QString) (r : RemoteCommunicatorConnections) :
    SameConnected r (pause delay addr r) := by
  unfold pause
  split
  · rename_i c hc
    refine sameConnected_insert hc ?_ rfl rfl
    rfl
  · exact .refl r

theorem sameConnected_gossipReceived (addr : QString) (r : RemoteCommunicatorConnections) :
    SameConnected r (gossipReceived addr r) := ⟨fun _ => rfl, id⟩

theorem sameConnected_addRemoteCommunicator (hknown : Known r) (h : addRemoteCommunicator lib now text r = some r') :
    SameConnected r r' := by
  unfold addRemoteCommunicator at h
  split at h
  · cases h
  · rename_i a ha
    split at h
    · cases h
      exact .refl r
    · simp only at h
      split at h
      · split at h
        · split at h
          · rename_i c hc
            split at h
            · cases h
              refine sameConnected_insert hc ?_ rfl rfl
              rfl
            · cases h
              exact .refl r
          · cases h
            exact .refl r
        · cases h
          exact .refl r
      · rename_i hnew
        have hall : ∀ addr, r.allIps.contains addr = true → (r.allIps.insert a.toIpBrackets a.port).contains addr = true := by
          intro addr haddr
          unfold SortedMap.contains
          rw [SortedMap.find?_insert]
          split
          · rfl
          · exact haddr
        split at h
        · cases h
          have hnone : r.smallerIps.find? a.toIpBrackets = none := by
            by_contra hsome
            exact hnew (hknown _ (Option.isSome_iff_ne_none.mpr hsome))
          refine ⟨fun addr => ?_, fun _ addr haddr => ?_⟩
          · rw [SortedMap.find?_insert]
            split
            · rename_i haddr
              rw [haddr, hnone]
              rfl
            · rfl
          · unfold SortedMap.contains at haddr
            rw [SortedMap.find?_insert] at haddr
            split at haddr
            · rename_i heq
              simp [SortedMap.contains, heq]
            · exact hall addr (hknown addr haddr)
        · cases h
          exact ⟨fun _ => rfl, fun _ addr haddr => hall addr (hknown addr haddr)⟩

end

/-! ### Neighbors -/

/-- The texts have become neighbors. -/
structure Joined (texts : Finset QString) (s t : ClusterServer) : Prop where
  neighbors : t.neighbors = s.neighbors ∪ texts
  same : SameConnected s.remoteSnapcommunicators t.remoteSnapcommunicators
  rest : t = { s with allNeighbors := t.allNeighbors, remoteSnapcommunicators := t.remoteSnapcommunicators }

variable {now : Int} {text : QString} {texts texts' : Finset QString} {u : ClusterServer}

theorem Joined.refl (s : ClusterServer) : Joined ∅ s s := ⟨by simp, .refl _, rfl⟩

theorem Joined.trans (h : Joined texts s t) (h' : Joined texts' t u) : Joined (texts ∪ texts') s u := by
  refine ⟨by rw [h'.neighbors, h.neighbors, Finset.union_assoc], h.same.trans h'.same, ?_⟩
  have hu := h'.rest
  rw [h.rest] at hu
  exact hu

theorem Joined.isRemote (h : Joined texts s t) (q : Peer) : t.isRemote q = s.isRemote q := by
  have hcommunicators : t.communicators = s.communicators := by rw [h.rest]
  have hservices : t.services = s.services := by rw [h.rest]
  cases q with
  | permanent addr =>
    rw [isRemote_permanent, isRemote_permanent, h.same.connected, communicator, communicator, hcommunicators]
  | service socket => simp [ClusterServer.isRemote, isConnected, base, hservices]

theorem neighbors_insert (h : t.allNeighbors = s.allNeighbors.insert text true) : t.neighbors = s.neighbors ∪ {text} :=
  Finset.ext fun n => by
    rw [mem_neighbors, Finset.mem_union, mem_neighbors, Finset.mem_singleton, h, SortedMap.contains, SortedMap.find?_insert]
    split
    · simp [*]
    · simp [*, SortedMap.contains]

theorem joined_readNeighbor (hknown : Known s.remoteSnapcommunicators) (h : s.readNeighbor lib now text = some t) :
    Joined {text} s t := by
  obtain ⟨r, hr, rfl⟩ := Option.map_eq_some_iff.mp h
  exact ⟨neighbors_insert rfl, sameConnected_addRemoteCommunicator hknown hr, rfl⟩

theorem joined_addNeighbor (hknown : Known s.remoteSnapcommunicators) (h : s.addNeighbor lib now text = some t) :
    Joined {text} s t := by
  unfold addNeighbor at h
  split at h
  · rename_i hcontains
    cases h
    exact ⟨by simp [mem_neighbors.mpr hcontains], .refl _, rfl⟩
  · exact joined_readNeighbor hknown h

theorem joined_foldlM {f : ClusterServer → QString → Option ClusterServer}
    (hf : ∀ {s text t}, Known s.remoteSnapcommunicators → f s text = some t → Joined {text} s t) (l : List QString) :
    ∀ {s t}, Known s.remoteSnapcommunicators → l.foldlM f s = some t → Joined l.toFinset s t := by
  induction l with
  | nil =>
    intro s t hknown h
    cases h
    exact .refl s
  | cons text l ih =>
    intro s t hknown h
    rw [List.foldlM_cons, Option.bind_eq_bind, Option.bind_eq_some_iff] at h
    obtain ⟨u, hu, h⟩ := h
    have hjoined := hf hknown hu
    rw [List.toFinset_cons, Finset.insert_eq]
    exact hjoined.trans (ih (hjoined.same.known hknown) h)

theorem joined_addNeighbors (hknown : Known s.remoteSnapcommunicators) (h : s.addNeighbors lib now text = some t) :
    Joined (splitParts ',' text).toFinset s t :=
  joined_foldlM (fun hknown h => joined_addNeighbor hknown h) _ hknown h

/-! ### What is told -/

variable {m : SnapCommunicatorMessage} {N : Finset QString} {R : Finset Peer}

@[simp] theorem newMessage_command (service command : String) (parameters : List (String × QString)) :
    (newMessage service command parameters).command = command.toList := by
  have hfold : ∀ m : SnapCommunicatorMessage, (parameters.foldl (fun m p => m.withParameter p.1 p.2) m).command = m.command := by
    induction parameters with
    | nil => exact fun m => rfl
    | cons p l ih => exact fun m => ih (m.withParameter p.1 p.2)
  exact hfold _

theorem lastTold_broadcastMessage (m : SnapCommunicatorMessage) (s : ClusterServer) : (s.broadcastMessage m).lastTold =
    if isStatus m.command then some m.command else s.lastTold := by
  unfold lastTold broadcastMessage
  rw [List.map_append, List.filter_append, List.map_singleton]
  split
  · rename_i h
    rw [List.filter_cons_of_pos (p := isStatus) h, List.filter_nil, List.getLast?_append, List.getLast?_singleton, Option.some_or]
  · rename_i h
    rw [List.filter_cons_of_neg h, List.filter_nil, List.append_nil]

/-- The status is broadcast unless it is the one that was told last. -/
theorem lastTold_announceStatus (h : s.clusterStatus ≠ [] → s.lastTold = some s.clusterStatus) :
    s.announceStatus.lastTold = some s.newStatus.toList ∧ s.announceStatus.clusterStatus = s.newStatus.toList := by
  have hstatus : isStatus s.newStatus.toList = true := by
    unfold newStatus
    split <;> decide
  have hcomplete : isStatus s.newComplete.toList = false := by
    unfold newComplete
    split <;> decide
  have hempty : s.newStatus.toList ≠ [] := by
    unfold newStatus
    split <;> decide
  have key : ∀ t : ClusterServer, (if s.newStatus.toList ≠ s.clusterStatus ∨ s.totalCountSent ≠ s.allNeighbors.entries.length
      then { s.broadcastMessage (s.clusterMessage s.newStatus) with clusterStatus := s.newStatus.toList } else s) = t →
      t.lastTold = some s.newStatus.toList ∧ t.clusterStatus = s.newStatus.toList := by
    rintro t rfl
    split
    · refine ⟨?_, rfl⟩
      have htold := lastTold_broadcastMessage (s.clusterMessage s.newStatus) s
      rw [clusterMessage, newMessage_command, if_pos hstatus] at htold
      exact htold
    · rename_i hsame
      have heq : s.newStatus.toList = s.clusterStatus := not_not.mp fun hne => hsame (Or.inl hne)
      rw [heq]
      exact ⟨h (heq ▸ hempty), rfl⟩
  obtain ⟨htold, hcluster⟩ := key _ rfl
  unfold announceStatus
  simp only
  generalize (if s.newStatus.toList ≠ s.clusterStatus ∨ s.totalCountSent ≠ s.allNeighbors.entries.length
    then _ else s) = t at htold hcluster ⊢
  split
  · refine ⟨?_, hcluster⟩
    have hlast := lastTold_broadcastMessage (s.clusterMessage s.newComplete) t
    rw [clusterMessage, newMessage_command, hcomplete, if_neg Bool.false_ne_true, htold] at hlast
    exact hlast
  · exact ⟨htold, hcluster⟩

/-- Telling the status changes nothing else. -/
structure SameParts (s t : ClusterServer) : Prop where
  allNeighbors : t.allNeighbors = s.allNeighbors
  remoteSnapcommunicators : t.remoteSnapcommunicators = s.remoteSnapcommunicators
  communicators : t.communicators = s.communicators
  services : t.services = s.services

theorem sameParts_announceStatus (s : ClusterServer) : SameParts s s.announceStatus := by
  unfold announceStatus
  simp only
  split <;> split <;> exact ⟨rfl, rfl, rfl, rfl⟩

theorem SameParts.isRemote (h : SameParts s t) (q : Peer) : t.isRemote q = s.isRemote q := by
  cases q with
  | permanent addr =>
    rw [isRemote_permanent, isRemote_permanent, communicator, communicator, h.remoteSnapcommunicators, h.communicators]
  | service socket => simp [ClusterServer.isRemote, isConnected, base, h.services]

/-! ### Runs -/

/-- The state of a daemon that runs: what was told last is what it remembers. -/
structure Telling (s : ClusterServer) : Prop where
  lastTold : s.lastTold = some s.clusterStatus
  known : Known s.remoteSnapcommunicators

/-- An event left these neighbors and computers, and told nothing. -/
structure Silent (s t : ClusterServer) (N : Finset QString) (R : Finset Peer) : Prop where
  neighbors : t.neighbors = N
  remotes : t.remotes = R
  lastTold : t.lastTold = s.lastTold
  clusterStatus : t.clusterStatus = s.clusterStatus
  known : Known s.remoteSnapcommunicators → Known t.remoteSnapcommunicators

/-- What an event does: it changes the numbers, and it may tell the status then. -/
inductive Outcome (lib : Libaddr) (s : ClusterServer) (e : ClusterEvent) (t : ClusterServer) : Prop
  | silent (quiet : s.announces e = false) (h : Silent s t (s.neighborsAfter e) (s.remotesAfter e))
  | told (u : ClusterServer) (tells : s.announces e = true) (h : Silent s u (s.neighborsAfter e) (s.remotesAfter e))
      (live : u.countLiveConnections = s.liveAfter lib e) (eq : t = u.announceStatus)

theorem truthful_announceStatus (h : u.clusterStatus ≠ [] → u.lastTold = some u.clusterStatus) :
    Truthful (some u.announceStatus) ↔ (HasQuorum u.neighbors u.countLiveConnections ↔ HasQuorum u.neighbors u.remotes.card) := by
  have hparts := sameParts_announceStatus u
  unfold Truthful HasQuorum
  rw [card_neighbors]
  simp only [Option.some.injEq, forall_eq', (lastTold_announceStatus h).1, hparts.allNeighbors, remotes_congr hparts.isRemote]
  refine iff_congr ?_ Iff.rfl
  unfold newStatus
  split
  · rename_i hquorum
    exact iff_of_true rfl hquorum
  · rename_i hquorum
    exact iff_of_false (by decide) hquorum

theorem Telling.announceStatus (h : u.clusterStatus ≠ [] → u.lastTold = some u.clusterStatus)
    (hknown : Known u.remoteSnapcommunicators) : Telling u.announceStatus where
  lastTold := by rw [(lastTold_announceStatus h).1, (lastTold_announceStatus h).2]
  known := (sameParts_announceStatus u).remoteSnapcommunicators ▸ hknown

theorem truthful_iff_quorum : Truthful (some t) ↔ (t.lastTold = some "CLUSTERUP".toList ↔ HasQuorum t.neighbors t.remotes.card) := by
  unfold Truthful HasQuorum
  rw [card_neighbors]
  simp

/-- An event that is handled tells the truth exactly when it is counted well. -/
theorem Outcome.truthful_iff_counted (h : Telling s) (htrue : Truthful (some s)) {e : ClusterEvent} (hout : Outcome lib s e t)
    (hhandle : s.handle lib e = some t) : Telling t ∧ (Truthful (some t) ↔ Counted lib (some s) e) := by
  have hcounted : Counted lib (some s) e ↔ if s.announces e then
      (HasQuorum (s.neighborsAfter e) (s.liveAfter lib e) ↔ HasQuorum (s.neighborsAfter e) (s.remotesAfter e).card)
    else (HasQuorum (s.neighborsAfter e) (s.remotesAfter e).card ↔ HasQuorum s.neighbors s.remotes.card) := by
    unfold Counted
    exact ⟨fun hall => hall (by rw [hhandle]; rfl), fun hif _ => hif⟩
  rw [hcounted]
  cases hout with
  | silent quiet hsilent =>
    refine ⟨⟨?_, hsilent.known h.known⟩, ?_⟩
    · rw [hsilent.lastTold, hsilent.clusterStatus, h.lastTold]
    · rw [truthful_iff_quorum, hsilent.lastTold, hsilent.neighbors, hsilent.remotes, truthful_iff_quorum.mp htrue, if_neg (by rw [quiet]; decide)]
      exact iff_comm
  | told u tells hsilent live eq =>
    have htold : u.clusterStatus ≠ [] → u.lastTold = some u.clusterStatus := fun _ => by
      rw [hsilent.lastTold, hsilent.clusterStatus, h.lastTold]
    rw [eq, if_pos tells, ← hsilent.neighbors, ← hsilent.remotes, ← live]
    exact ⟨.announceStatus htold (hsilent.known h.known), truthful_announceStatus htold⟩

/-! ### Quiet changes -/

theorem Silent.refl (s : ClusterServer) : Silent s s s.neighbors s.remotes := ⟨rfl, rfl, rfl, rfl, id⟩

theorem Silent.trans {N' : Finset QString} {R' : Finset Peer} (h : Silent s t N R) (h' : Silent t u N' R') : Silent s u N' R' :=
  ⟨h'.neighbors, h'.remotes, h'.lastTold.trans h.lastTold, h'.clusterStatus.trans h.clusterStatus,
    fun hknown => h'.known (h.known hknown)⟩

/-- A change that leaves the neighbors and the computers. -/
theorem Silent.keep (h : Silent s t N R) (h' : Silent t u t.neighbors t.remotes) : Silent s u N R := by
  rw [h.neighbors, h.remotes] at h'
  exact h.trans h'

theorem Silent.sendMessage (h : Silent s t N R) (p : Peer) (m : SnapCommunicatorMessage) : Silent s (t.sendMessage p m) N R :=
  ⟨h.neighbors, h.remotes, h.lastTold, h.clusterStatus, h.known⟩

theorem Silent.replyMessage (h : Silent s t N R) (p : Peer) (b : BaseConnection) (m : SnapCommunicatorMessage) :
    Silent s (t.replyMessage p b m) N R := by
  unfold ClusterServer.replyMessage
  split
  · exact h.sendMessage p m
  · exact h

theorem Silent.replyStatus (h : Silent s t N R) (p : Peer) (b : BaseConnection) : Silent s (t.replyStatus p b) N R :=
  (h.replyMessage p b _).replyMessage p b _

theorem Silent.broadcastMessage (h : Silent s t N R) (hm : isStatus m.command = false) : Silent s (t.broadcastMessage m) N R :=
  ⟨h.neighbors, h.remotes, by rw [lastTold_broadcastMessage, hm, if_neg Bool.false_ne_true, h.lastTold], h.clusterStatus, h.known⟩

theorem Joined.silent (h : Joined texts s t) : Silent s t (s.neighbors ∪ texts) s.remotes where
  neighbors := h.neighbors
  remotes := remotes_congr h.isRemote
  lastTold := by rw [h.rest]; rfl
  clusterStatus := by rw [h.rest]
  known := h.same.known

theorem silent_setBase (hb : s.base p = some b₀) (htype : b.connectionType = b₀.connectionType) :
    Silent s (s.setBase p b) s.neighbors s.remotes := by
  have hremotes : (s.setBase p b).remotes = s.remotes := by
    refine remotes_congr fun q => ?_
    rw [isRemote_setBase hb]
    split
    · rename_i hq
      rw [hq, isRemote, hb, htype, Option.any_some]
    · rfl
  cases p with
  | permanent addr => exact ⟨rfl, hremotes, rfl, rfl, id⟩
  | service socket => exact ⟨rfl, hremotes, rfl, rfl, id⟩

theorem silent_setBase_remote (hb : s.base p = some b₀) (hup : s.isConnected p = true) (htype : b.connectionType = .remote) :
    Silent s (s.setBase p b) s.neighbors (insert p s.remotes) := by
  have hremotes : (s.setBase p b).remotes = insert p s.remotes := by
    refine remotes_insert fun q => ?_
    rw [isRemote_setBase hb, hup, htype]
    rfl
  cases p with
  | permanent addr => exact ⟨rfl, hremotes, rfl, rfl, id⟩
  | service socket => exact ⟨rfl, hremotes, rfl, rfl, id⟩

theorem silent_setBase_down (hb : s.base p = some b₀) (htype : b.connectionType = .down) :
    Silent s (s.setBase p b) s.neighbors (s.remotes.erase p) := by
  have hremotes : (s.setBase p b).remotes = s.remotes.erase p := by
    refine remotes_erase fun q => ?_
    rw [isRemote_setBase hb, htype]
    simp
  cases p with
  | permanent addr => exact ⟨rfl, hremotes, rfl, rfl, id⟩
  | service socket => exact ⟨rfl, hremotes, rfl, rfl, id⟩

theorem known_setRemote {c c' : RemoteConnection} (hc : s.remoteSnapcommunicators.smallerIps.find? addr = some c)
    (hknown : Known s.remoteSnapcommunicators) : Known (s.setRemote c' addr).remoteSnapcommunicators := by
  intro addr' h
  refine hknown addr' ?_
  unfold SortedMap.contains setRemote at h
  rw [SortedMap.find?_insert] at h
  split at h
  · rename_i haddr
    rw [haddr, SortedMap.contains, hc]
    rfl
  · exact h

theorem silent_setRemote {c c' : RemoteConnection} (hc : s.remoteSnapcommunicators.smallerIps.find? addr = some c)
    (hconnected : c'.connected = c.connected) : Silent s (s.setRemote c' addr) s.neighbors s.remotes := by
  refine ⟨rfl, remotes_congr fun q => ?_, rfl, rfl, known_setRemote hc⟩
  rw [isRemote_setRemote]
  split
  · rename_i hq
    rw [hq, isRemote_permanent, hc, Option.any_some, hconnected]
  · rfl

theorem silent_disconnectRemote (addr : QString) : Silent s (s.disconnectRemote addr) s.neighbors (s.remotes.erase (.permanent addr)) := by
  have hremotes : (s.disconnectRemote addr).remotes = s.remotes.erase (.permanent addr) :=
    remotes_erase fun q => isRemote_disconnectRemote addr q
  revert hremotes
  unfold disconnectRemote
  split
  · rename_i c hc
    exact fun hremotes => ⟨rfl, hremotes, rfl, rfl, known_setRemote hc⟩
  · exact fun hremotes => ⟨rfl, hremotes, rfl, rfl, id⟩

theorem silent_removeConnection (socket : Nat) :
    Silent s (s.removeConnection socket) s.neighbors (s.remotes.erase (.service socket)) :=
  ⟨rfl, remotes_erase fun q => isRemote_removeConnection socket q, rfl, rfl, id⟩

/-- A change of the registry that connects and disconnects nothing. -/
theorem silent_registry {r : RemoteCommunicatorConnections} (h : SameConnected s.remoteSnapcommunicators r) :
    Silent s { s with remoteSnapcommunicators := r } s.neighbors s.remotes := by
  refine ⟨rfl, remotes_congr fun q => ?_, rfl, rfl, h.known⟩
  cases q with
  | permanent addr =>
    rw [isRemote_permanent, isRemote_permanent, h.connected]
    rfl
  | service socket => rfl

/-- A change of a permanent connection that leaves its type. -/
theorem silent_communicator {r : RemoteSnapCommunicator} (addr : QString)
    (htype : r.connectionType = (s.communicator addr).connectionType) :
    Silent s { s with communicators := s.communicators.insert addr r } s.neighbors s.remotes := by
  refine ⟨rfl, remotes_congr fun q => ?_, rfl, rfl, id⟩
  cases q with
  | permanent addr' =>
    have hsame : (communicator { s with communicators := s.communicators.insert addr r } addr').connectionType =
        (s.communicator addr').connectionType := by
      by_cases haddr : addr' = addr
      · rw [haddr, ← htype, communicator, SortedMap.find?_insert_self, Option.getD_some]
      · rw [communicator, SortedMap.find?_insert_of_ne haddr, communicator]
    rw [isRemote_permanent, isRemote_permanent, hsame]
  | service socket => rfl

end ClusterServer
end Snapwebsites
