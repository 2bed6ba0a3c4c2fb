import Snapwebsites.Communicator.ClusterCount
import Snapwebsites.Communicator.RegistryRun

/-! # When the status that was told is true

What each event does to the neighbors and to the computers that are connected, and whether it tells the status
(`outcome_handle`). From it, `truthful_iff`: what was told last is true after every event of a run, exactly when every event
is counted well. -/

namespace Snapwebsites
open QString
namespace ClusterServer

variable {lib : Libaddr} {s t u : ClusterServer} {p q : Peer} {b b₀ : BaseConnection} {addr : QString} {socket : Nat}
  {m : SnapCommunicatorMessage} {now : Int} {others : Nat} {text : QString}

/-! ### A message arrives -/

/-- The message is noted: its sender may be. -/
structure Noted (s t : ClusterServer) : Prop where
  allNeighbors : t.allNeighbors = s.allNeighbors
  remoteSnapcommunicators : t.remoteSnapcommunicators = s.remoteSnapcommunicators
  services : t.services = s.services
  maxConnections : t.maxConnections = s.maxConnections
  communicator : ∀ addr, (t.communicator addr).toBaseConnection = (s.communicator addr).toBaseConnection
  silent : Silent s t s.neighbors s.remotes

theorem noted_received (s : ClusterServer) (p : Peer) (m : SnapCommunicatorMessage) : Noted s (s.received p m) := by
  cases p with
  | service socket => exact ⟨rfl, rfl, rfl, rfl, fun _ => rfl, .refl s⟩
  | permanent addr =>
    unfold received
    simp only
    split
    · refine ⟨rfl, rfl, rfl, rfl, fun addr' => ?_, silent_communicator addr rfl⟩
      by_cases haddr : addr' = addr
      · rw [haddr, ClusterServer.communicator, SortedMap.find?_insert_self]
        rfl
      · rw [ClusterServer.communicator, SortedMap.find?_insert_of_ne haddr, ClusterServer.communicator]
    · exact ⟨rfl, rfl, rfl, rfl, fun _ => rfl, .refl s⟩

theorem Noted.base (h : Noted s t) (p : Peer) : t.base p = s.base p := by
  cases p with
  | permanent addr => rw [ClusterServer.base, ClusterServer.base, h.remoteSnapcommunicators, h.communicator]
  | service socket => rw [ClusterServer.base, ClusterServer.base, h.services]

theorem Noted.isConnected (h : Noted s t) (p : Peer) : t.isConnected p = s.isConnected p := by
  cases p with
  | permanent addr => rw [ClusterServer.isConnected, ClusterServer.isConnected, h.remoteSnapcommunicators]
  | service socket => rw [ClusterServer.isConnected, ClusterServer.isConnected, h.services]

theorem Noted.nameMatch (h : Noted s t) (p : Peer) (name : QString) : t.nameMatch p name = s.nameMatch p name := by
  unfold ClusterServer.nameMatch
  rw [h.remoteSnapcommunicators, h.services]
  simp only [h.communicator]

theorem Noted.tooMany (h : Noted s t) (others : Nat) : t.tooMany others = s.tooMany others := by
  unfold ClusterServer.tooMany
  rw [h.remoteSnapcommunicators, h.services, h.maxConnections]

theorem base_of_isConnected (h : s.isConnected p = true) : ∃ b, s.base p = some b := by
  cases p with
  | permanent addr =>
    cases hc : s.remoteSnapcommunicators.smallerIps.find? addr with
    | none => simp [isConnected, hc] at h
    | some c => exact ⟨(s.communicator addr).toBaseConnection, by simp only [base, hc, Option.map_some]⟩
  | service socket => exact Option.isSome_iff_exists.mp h

/-- What comes over a connection that is not up is not handled. -/
theorem onMessage_cases {f : BaseConnection → ClusterServer → Option ClusterServer} (h : s.onMessage p m f = some t) :
    s.isConnected p = false ∧ t = s ∨ s.isConnected p = true ∧ ∃ b s', Noted s s' ∧ s'.base p = some b ∧ f b s' = some t := by
  have hnoted := noted_received s p m
  unfold onMessage at h
  cases hup : s.isConnected p with
  | true =>
    obtain ⟨b, hb⟩ := base_of_isConnected hup
    rw [hnoted.base, hb] at h
    simp only [hup, if_true] at h
    exact Or.inr ⟨rfl, b, _, hnoted, (hnoted.base p).trans hb, h⟩
  | false =>
    refine Or.inl ⟨rfl, ?_⟩
    split at h
    · rw [hup, if_neg Bool.false_ne_true] at h
      exact (Option.some.inj h).symm
    · exact (Option.some.inj h).symm

theorem isRemote_of_base (hup : s.isConnected p = true) (hb : s.base p = some b) :
    s.isRemote p = decide (b.connectionType = .remote) := by
  rw [isRemote, hup, hb]
  rfl

theorem Silent.of_noted {N : Finset QString} {R : Finset Peer} (h : Noted s t) (h' : Silent t u N R) : Silent s u N R :=
  h.silent.trans h'

theorem Noted.neighbors (h : Noted s t) : t.neighbors = s.neighbors := h.silent.neighbors

theorem Noted.remotes (h : Noted s t) : t.remotes = s.remotes := h.silent.remotes

theorem notMem_remotes (h : s.isConnected p = false) : p ∉ s.remotes := fun hmem => by
  have hup := (isRemote_iff.mp (mem_remotes.mp hmem)).1
  rw [h] at hup
  cases hup

/-! ### What an event does -/

theorem silent_removeNeighbor (neighbor : QString) : Silent s (s.removeNeighbor neighbor) (s.neighbors.erase neighbor)
    (s.remotes.erase (.permanent (RemoteCommunicatorConnections.withoutPort neighbor))) := by
  refine ⟨Finset.ext fun n => ?_, remotes_erase fun q => ?_, rfl, rfl, fun hknown addr haddr => ?_⟩
  · rw [mem_neighbors, Finset.mem_erase, mem_neighbors, removeNeighbor, SortedMap.contains, SortedMap.find?_erase]
    split <;> simp [*, SortedMap.contains]
  · cases q with
    | permanent addr =>
      have hsmaller : (s.removeNeighbor neighbor).remoteSnapcommunicators.smallerIps =
          s.remoteSnapcommunicators.smallerIps.erase (RemoteCommunicatorConnections.withoutPort neighbor) := rfl
      have hcommunicators : (s.removeNeighbor neighbor).communicators =
          s.communicators.erase (RemoteCommunicatorConnections.withoutPort neighbor) := rfl
      rw [isRemote_permanent, isRemote_permanent, hsmaller, SortedMap.find?_erase, communicator, hcommunicators]
      by_cases haddr : addr = RemoteCommunicatorConnections.withoutPort neighbor
      · rw [if_pos haddr, if_pos (congrArg Peer.permanent haddr)]
        rfl
      · rw [if_neg haddr, if_neg fun heq => haddr (Peer.permanent.inj heq), SortedMap.find?_erase_of_ne haddr, communicator]
    | service socket => rfl
  · refine hknown addr ?_
    have hsmaller : (s.removeNeighbor neighbor).remoteSnapcommunicators.smallerIps =
        s.remoteSnapcommunicators.smallerIps.erase (RemoteCommunicatorConnections.withoutPort neighbor) := rfl
    unfold SortedMap.contains at haddr ⊢
    rw [hsmaller, SortedMap.find?_erase] at haddr
    split at haddr
    · cases haddr
    · exact haddr

theorem outcome_forget (h : s.handle lib (.forget p m) = some t) : Outcome lib s (.forget p m) t := by
  refine .silent rfl ?_
  obtain ⟨hup, rfl⟩ | ⟨hup, b, s', hnoted, -, h⟩ := onMessage_cases h
  · rw [neighborsAfter, remotesAfter, hup]
    exact .refl t
  · rw [neighborsAfter, remotesAfter, hup, if_pos rfl, if_pos rfl]
    unfold processForget at h
    cases hip : m.getParameter "ip" with
    | none =>
      rw [hip] at h
      cases h
    | some ip =>
      rw [hip] at h
      have hremove := silent_removeNeighbor (s := s') ip
      rw [hnoted.neighbors, hnoted.remotes] at hremove
      have hsilent := Silent.of_noted hnoted hremove
      simp only at h
      split at h
      · cases h
        exact hsilent
      · cases h
        exact hsilent.broadcastMessage rfl

theorem outcome_addNeighbors (hknown : Known s.remoteSnapcommunicators) (h : s.handle lib (.addNeighbors now text) = some t) :
    Outcome lib s (.addNeighbors now text) t := .silent rfl (joined_addNeighbors hknown h).silent

theorem outcome_connected (h : s.handle lib (.connected addr) = some t) : Outcome lib s (.connected addr) t := by
  refine .silent rfl ?_
  unfold handle at h
  cases hc : s.remoteSnapcommunicators.smallerIps.find? addr with
  | none =>
    simp only [hc] at h
    cases h
    simp only [neighborsAfter, remotesAfter, base, hc, Option.map_none, Option.any_none]
    exact .refl s
  | some c =>
    simp only [hc] at h
    cases h
    have hup : Silent s (s.setRemote { c with
        connected := true, enabled := false, timeoutDelay := RemoteCommunicatorConnections.remoteConnectionDefaultTimeout } addr)
        s.neighbors (s.remotesAfter (.connected addr)) := by
      refine ⟨rfl, ?_, rfl, rfl, known_setRemote hc⟩
      simp only [remotesAfter, base, hc, Option.map_some, Option.any_some]
      split
      · rename_i htype
        refine remotes_insert fun q => ?_
        rw [isRemote_setRemote, Bool.true_and, htype]
      · rename_i htype
        refine remotes_congr fun q => ?_
        rw [isRemote_setRemote, Bool.true_and]
        split
        · rename_i hq
          rw [hq, isRemote_permanent, Bool.eq_false_iff.mpr htype, Bool.and_false]
        · rfl
    refine Silent.sendMessage (hup.keep (silent_communicator addr ?_)) _ _
    rfl

theorem outcome_connectionFailed (h : s.handle lib (.connectionFailed addr) = some t) :
    Outcome lib s (.connectionFailed addr) t := by
  refine .silent rfl ?_
  unfold handle at h
  cases hc : s.remoteSnapcommunicators.smallerIps.find? addr with
  | none =>
    simp only [hc] at h
    cases h
    exact .refl s
  | some c =>
    simp only [hc] at h
    cases h
    have hremote : Silent s (s.setRemote { c with enabled := true } addr) s.neighbors s.remotes := by
      refine silent_setRemote hc ?_
      rfl
    unfold processConnectionFailed
    simp only
    split
    · refine Silent.broadcastMessage (hremote.keep (silent_communicator addr ?_)) rfl
      rfl
    · exact hremote

theorem outcome_incoming {isLocal : Bool} (h : s.handle lib (.incoming socket isLocal) = some t) :
    Outcome lib s (.incoming socket isLocal) t := by
  refine .silent rfl ?_
  cases h
  unfold incoming
  split
  · exact .refl s
  · rename_i hnew
    refine ⟨rfl, remotes_congr fun q => ?_, rfl, rfl, id⟩
    have hnone : s.services.find? socket = none := Option.not_isSome_iff_eq_none.mp hnew
    cases q with
    | permanent addr => rfl
    | service socket' =>
      simp only [isRemote, isConnected, base, SortedMap.contains, SortedMap.find?_insert]
      split
      · rename_i hq
        rw [hq, hnone]
        cases isLocal <;> rfl
      · rfl

theorem outcome_commands (h : s.handle lib (.commands p m text) = some t) : Outcome lib s (.commands p m text) t := by
  refine .silent rfl ?_
  have hmessage : s.onMessage p m (fun b s => some (s.setBase p (b.setCommands text))) = some t := h
  obtain ⟨-, rfl⟩ | ⟨-, b, s', hnoted, hb, h⟩ := onMessage_cases hmessage
  · exact .refl t
  · cases h
    have hset : Silent s' (s'.setBase p (b.setCommands text)) s'.neighbors s'.remotes := by
      refine silent_setBase hb ?_
      rfl
    rw [hnoted.neighbors, hnoted.remotes] at hset
    exact .of_noted hnoted hset

theorem outcome_status (h : s.handle lib (.status p m) = some t) : Outcome lib s (.status p m) t := by
  refine .silent rfl ?_
  have hmessage : s.onMessage p m (fun b s => some (s.replyStatus p b)) = some t := h
  obtain ⟨-, rfl⟩ | ⟨-, b, s', hnoted, -, h⟩ := onMessage_cases hmessage
  · exact .refl t
  · cases h
    exact hnoted.silent.replyStatus p b

theorem outcome_accept (hknown : Known s.remoteSnapcommunicators) (h : s.handle lib (.accept now p m) = some t) :
    Outcome lib s (.accept now p m) t := by
  refine .silent rfl ?_
  obtain ⟨hup, rfl⟩ | ⟨hup, b, s', hnoted, hb, h⟩ := onMessage_cases h
  · simp only [neighborsAfter, remotesAfter, accepts, hup, Bool.false_and, Bool.false_eq_true, if_false]
    exact .refl t
  · unfold processAccept at h
    simp only [neighborsAfter, remotesAfter, accepts, hup, SnapCommunicatorMessage.hasParameter, Bool.true_and]
    split at h
    · rename_i remoteServerName hisAddress hname haddress
      have hboth : (m.parameters.contains "server_name".toList && m.parameters.contains "my_address".toList) = true := by
        rw [SnapCommunicatorMessage.getParameter] at hname haddress
        rw [SortedMap.contains, SortedMap.contains, hname, haddress]
        rfl
      rw [if_pos hboth, if_pos hboth]
      obtain ⟨u, hu, h⟩ := Option.bind_eq_some_iff.mp h
      cases h
      have hset := silent_setBase_remote (b := { b with connectionType := .remote, serverName := remoteServerName })
        hb ((hnoted.isConnected p).trans hup) rfl
      rw [hnoted.neighbors, hnoted.remotes] at hset
      have hset := Silent.of_noted hnoted hset
      have hjoined := (joined_addNeighbors (hset.known hknown) hu).silent
      rw [hset.neighbors, hset.remotes] at hjoined
      exact ((hset.trans hjoined).sendMessage p _).broadcastMessage rfl
    · rename_i hmissing
      cases h
      have hnot : ¬ (m.parameters.contains "server_name".toList && m.parameters.contains "my_address".toList) = true := by
        rw [Bool.and_eq_true]
        rintro ⟨hname, haddress⟩
        obtain ⟨remoteServerName, hname⟩ := Option.isSome_iff_exists.mp hname
        obtain ⟨hisAddress, haddress⟩ := Option.isSome_iff_exists.mp haddress
        exact hmissing remoteServerName hisAddress hname haddress
      rw [if_neg hnot, if_neg hnot]
      exact hnoted.silent

theorem outcome_refuse (h : s.handle lib (.refuse p m) = some t) : Outcome lib s (.refuse p m) t := by
  refine .silent rfl ?_
  obtain ⟨hup, rfl⟩ | ⟨hup, b, s', hnoted, -, h⟩ := onMessage_cases h
  · rw [remotesAfter, Finset.erase_eq_of_notMem (notMem_remotes hup)]
    exact .refl t
  · cases p with
    | service socket => cases h
    | permanent addr =>
      cases h
      suffices hpause : ∀ r, SameConnected s'.remoteSnapcommunicators r →
          Silent s (disconnectRemote addr { s' with remoteSnapcommunicators := r }) s.neighbors
            (s.remotes.erase (.permanent addr)) by
        refine hpause _ ?_
        split <;> exact sameConnected_pause _ _ _
      intro r hr
      have hdisconnect := silent_disconnectRemote (s := { s' with remoteSnapcommunicators := r }) addr
      rw [(silent_registry hr).remotes, (silent_registry hr).neighbors, hnoted.remotes, hnoted.neighbors] at hdisconnect
      exact .of_noted hnoted ((silent_registry hr).trans hdisconnect)

theorem outcome_hup (h : s.handle lib (.hup p) = some t) : Outcome lib s (.hup p) t := by
  refine .silent rfl ?_
  unfold handle at h
  cases hup : s.isConnected p with
  | false =>
    rw [remotesAfter, Finset.erase_eq_of_notMem (notMem_remotes hup)]
    simp only [hup, Bool.false_eq_true, if_false] at h
    split at h <;> (cases h; exact .refl s)
  | true =>
    obtain ⟨b, hb⟩ := base_of_isConnected hup
    simp only [hup, hb, if_true] at h
    cases h
    suffices hsilent : Silent s (s.processHup p b) s.neighbors (s.remotes.erase p) from hsilent
    cases p with
    | permanent addr =>
      obtain ⟨c, hc, -⟩ := Option.map_eq_some_iff.mp hb
      simp only [processHup, hc]
      refine ⟨rfl, remotes_erase fun q => ?_, rfl, rfl, known_setRemote hc⟩
      rw [isRemote_setRemote]
      rfl
    | service socket =>
      unfold processHup
      simp only
      split
      · exact ((silent_removeConnection socket).broadcastMessage rfl).replyStatus _ b
      · exact silent_removeConnection socket

/-! ### What disconnects -/

theorem sumOf_one_insert {κ α : Type} [LinearOrder κ] {m : SortedMap κ α} {k : κ} {w : α} (h : m.find? k = some w) (v : α) :
    (m.insert k v).sumOf (fun _ => 1) = m.sumOf fun _ => 1 :=
  Nat.add_right_cancel (SortedMap.sumOf_insert_of_find? (fun _ => 1) h v)

theorem sumOf_one_pause (delay : Int) (addr : QString) (r : RemoteCommunicatorConnections) :
    (RemoteCommunicatorConnections.pause delay addr r).smallerIps.sumOf (fun _ => 1) = r.smallerIps.sumOf fun _ => 1 := by
  unfold RemoteCommunicatorConnections.pause
  split
  · rename_i c hc
    exact sumOf_one_insert hc _
  · rfl

theorem sumOf_one_disconnectRemote (addr : QString) (s : ClusterServer) :
    (s.disconnectRemote addr).remoteSnapcommunicators.smallerIps.sumOf (fun _ => 1) =
      s.remoteSnapcommunicators.smallerIps.sumOf fun _ => 1 := by
  unfold disconnectRemote
  split
  · rename_i c hc
    exact sumOf_one_insert hc _
  · rfl

theorem services_disconnectRemote (addr : QString) (s : ClusterServer) : (s.disconnectRemote addr).services = s.services := by
  unfold disconnectRemote
  split <;> rfl

theorem erase_insert_self {κ α : Type} [LinearOrder κ] (m : SortedMap κ α) (k : κ) (v : α) : (m.insert k v).erase k = m.erase k :=
  SortedMap.ext_find? fun k' => by
    rw [SortedMap.find?_erase, SortedMap.find?_erase]
    split
    · rfl
    · rename_i hk
      exact SortedMap.find?_insert_of_ne hk

/-- The connection is down, and one from a listener is gone. -/
def disconnected (p : Peer) (b : BaseConnection) (s : ClusterServer) : ClusterServer :=
  match p with
  | .service socket => (s.setBase (.service socket) { b with connectionType := .down }).removeConnection socket
  | .permanent addr =>
    let t := (s.setBase (.permanent addr) { b with connectionType := .down }).disconnectRemote addr
    { t with remoteSnapcommunicators := t.remoteSnapcommunicators.shuttingDown (addressText addr) }

theorem silent_disconnected (hb : s.base p = some b) : Silent s (s.disconnected p b) s.neighbors (s.remotes.erase p) := by
  have hdown := silent_setBase_down (b := { b with connectionType := .down }) hb rfl
  cases p with
  | service socket =>
    have hremove := silent_removeConnection (s := s.setBase (.service socket) { b with connectionType := .down }) socket
    rw [hdown.neighbors, hdown.remotes, Finset.erase_idem] at hremove
    exact hdown.trans hremove
  | permanent addr =>
    have hremove := silent_disconnectRemote (s := s.setBase (.permanent addr) { b with connectionType := .down }) addr
    rw [hdown.neighbors, hdown.remotes, Finset.erase_idem] at hremove
    exact (hdown.trans hremove).keep (silent_registry (sameConnected_pause _ _ _))

theorem countLiveConnections_disconnected (lib : Libaddr) (m : SnapCommunicatorMessage) (hb : s.base p = some b) :
    (s.disconnected p b).countLiveConnections = s.liveAfter lib (.disconnect p m) := by
  unfold countLiveConnections
  cases p with
  | service socket =>
    have hservices : (s.disconnected (.service socket) b).services = s.services.erase socket := erase_insert_self _ _ _
    have hfind : s.services.find? socket = some b := hb
    have hsum := SortedMap.sumOf_erase_of_find? (fun e => if e.2.remoteConnection then 1 else 0) hfind
    have hsame : (s.disconnected (.service socket) b).remoteSnapcommunicators = s.remoteSnapcommunicators := rfl
    simp only [liveAfter, countLiveConnections, hfind, Option.any_some]
    rw [hservices, hsame]
    simp only at hsum
    omega
  | permanent addr =>
    have hservices : (s.disconnected (.permanent addr) b).services = s.services := services_disconnectRemote _ _
    have hsum : (s.disconnected (.permanent addr) b).remoteSnapcommunicators.smallerIps.sumOf (fun _ => 1) =
        s.remoteSnapcommunicators.smallerIps.sumOf fun _ => 1 :=
      (sumOf_one_pause _ _ _).trans (sumOf_one_disconnectRemote _ _)
    rw [hservices, hsum]
    rfl

theorem processDisconnect_eq (p : Peer) (b : BaseConnection) (s : ClusterServer) : s.processDisconnect p b =
    if b.connectionType = .remote then
      (if b.serverName.isEmpty then s.disconnected p b else (s.disconnected p b).broadcastMessage
        (newMessage "." "DISCONNECTED" [("server_name", b.serverName)])).announceStatus
    else s := by
  cases p <;> rfl

theorem outcome_disconnect (h : s.handle lib (.disconnect p m) = some t) : Outcome lib s (.disconnect p m) t := by
  have hmessage : s.onMessage p m (fun b s => some (s.processDisconnect p b)) = some t := h
  obtain ⟨hup, rfl⟩ | ⟨hup, b, s', hnoted, hb, h⟩ := onMessage_cases hmessage
  · refine .silent (by rw [announces, isRemote, hup, Bool.false_and]) ?_
    rw [remotesAfter, Finset.erase_eq_of_notMem (notMem_remotes hup)]
    exact .refl t
  · cases h
    have hremote := isRemote_of_base hup ((hnoted.base p).symm.trans hb)
    rw [processDisconnect_eq]
    by_cases htype : b.connectionType = .remote
    · rw [if_pos htype]
      rw [decide_eq_true htype] at hremote
      have hdisconnected := silent_disconnected hb
      rw [hnoted.neighbors, hnoted.remotes] at hdisconnected
      have hsilent := Silent.of_noted hnoted hdisconnected
      have hlive : (s'.disconnected p b).countLiveConnections = s.liveAfter lib (.disconnect p m) := by
        rw [countLiveConnections_disconnected lib m hb]
        cases p <;> simp only [liveAfter, countLiveConnections, hnoted.remoteSnapcommunicators, hnoted.services]
      refine .told _ hremote ?_ ?_ rfl
      · split
        · exact hsilent
        · exact hsilent.broadcastMessage rfl
      · rw [← hlive]
        split <;> rfl
    · rw [if_neg htype]
      rw [decide_eq_false htype] at hremote
      refine .silent hremote ?_
      have hnotMem : p ∉ s.remotes := fun hmem => by
        rw [mem_remotes, hremote] at hmem
        cases hmem
      rw [remotesAfter, Finset.erase_eq_of_notMem hnotMem]
      exact hnoted.silent

/-! ### What connects -/

/-- The neighbors and the registry are the same. -/
structure SameNeighbors (s t : ClusterServer) : Prop where
  allNeighbors : t.allNeighbors = s.allNeighbors
  remoteSnapcommunicators : t.remoteSnapcommunicators = s.remoteSnapcommunicators

/-- Adding neighbors looks at nothing else. -/
theorem addNeighbor_same {s' t' : ClusterServer} (h : SameNeighbors s s') (ht : s'.addNeighbor lib now text = some t') :
    ∃ t, s.addNeighbor lib now text = some t ∧ SameNeighbors t t' := by
  unfold addNeighbor at ht ⊢
  rw [h.allNeighbors, h.remoteSnapcommunicators] at ht
  split at ht
  · cases ht
    rename_i hcontains
    exact ⟨s, if_pos hcontains, h⟩
  · obtain ⟨r, hr, rfl⟩ := Option.map_eq_some_iff.mp ht
    rename_i hcontains
    rw [if_neg hcontains, hr]
    exact ⟨_, rfl, rfl, rfl⟩

theorem addNeighbors_same {s' t' : ClusterServer} (h : SameNeighbors s s') (ht : s'.addNeighbors lib now text = some t') :
    ∃ t, s.addNeighbors lib now text = some t ∧ SameNeighbors t t' := by
  unfold addNeighbors at ht ⊢
  generalize splitParts ',' text = l at ht ⊢
  induction l generalizing s s' with
  | nil =>
    cases ht
    exact ⟨s, rfl, h⟩
  | cons n l ih =>
    rw [List.foldlM_cons, Option.bind_eq_bind, Option.bind_eq_some_iff] at ht
    obtain ⟨u', hu', ht⟩ := ht
    obtain ⟨u, hu, hsame⟩ := addNeighbor_same h hu'
    obtain ⟨t, ht, hsame⟩ := ih hsame ht
    refine ⟨t, ?_, hsame⟩
    rw [List.foldlM_cons, Option.bind_eq_bind, hu]
    exact ht

theorem services_setBase (hb : s.base p = some b₀) (hsame : b.remoteConnection = b₀.remoteConnection) :
    (s.setBase p b).services.sumOf (fun e => if e.2.remoteConnection then 1 else 0) =
      s.services.sumOf fun e => if e.2.remoteConnection then 1 else 0 := by
  cases p with
  | permanent addr => rfl
  | service socket =>
    have hfind : s.services.find? socket = some b₀ := hb
    have hsum := SortedMap.sumOf_insert_of_find? (fun e => if e.2.remoteConnection then 1 else 0) hfind b
    simp only [hsame] at hsum
    exact Nat.add_right_cancel hsum

theorem sameNeighbors_setBase (p : Peer) (b : BaseConnection) (s : ClusterServer) : SameNeighbors s (s.setBase p b) := by
  cases p with
  | permanent addr => exact ⟨rfl, rfl⟩
  | service socket => exact ⟨rfl, rfl⟩

/-- What `accept` leaves when the status is told. -/
theorem accept_eq {remoteServerName hisAddress : QString} (others : Nat) (hknown : Known s.remoteSnapcommunicators) (hnoted : Noted s u)
    (hup : s.isConnected p = true) (hb : u.base p = some b) (haddress : m.getParameter "my_address" = some hisAddress)
    (h : u.accept lib now p b m remoteServerName hisAddress = some t) :
    ∃ v, Silent s v (s.neighbors ∪ named m "neighbors" ∪ named m "my_address") (insert p s.remotes) ∧
      v.countLiveConnections = s.liveAfter lib (.connect now others p m) ∧ t = v.announceStatus := by
  obtain ⟨v₁, hv₁, h⟩ := Option.bind_eq_some_iff.mp h
  obtain ⟨v₂, hv₂, h⟩ := Option.bind_eq_some_iff.mp h
  have hset := silent_setBase_remote (b := { b with connectionType := .remote, serverName := remoteServerName })
    hb ((hnoted.isConnected p).trans hup) rfl
  rw [hnoted.neighbors, hnoted.remotes] at hset
  have hset := Silent.of_noted hnoted hset
  have hjoined₁ := joined_addNeighbors (hset.known hknown) hv₁
  have hjoined₂ := joined_addNeighbors (hjoined₁.same.known (hset.known hknown)) hv₂
  have hjoined := (hjoined₁.trans hjoined₂).silent
  rw [hset.neighbors, hset.remotes, ← Finset.union_assoc] at hjoined
  have hsilent := hset.trans hjoined
  have htexts : (splitParts ',' hisAddress).toFinset = named m "my_address" := by
    rw [named, haddress]
    rfl
  rw [htexts] at hsilent
  refine ⟨_, (((hsilent.keep (silent_registry (sameConnected_gossipReceived hisAddress _))).sendMessage p _).sendMessage p
    _).broadcastMessage rfl, ?_, (Option.some.inj h).symm⟩
  -- The same neighbors are added to `s`, where the connection is not yet remote.
  have hsame : SameNeighbors s (u.setBase p { b with connectionType := .remote, serverName := remoteServerName }) := by
    obtain ⟨hall, hregistry⟩ := sameNeighbors_setBase p { b with connectionType := .remote, serverName := remoteServerName } u
    exact ⟨hall.trans hnoted.allNeighbors, hregistry.trans hnoted.remoteSnapcommunicators⟩
  obtain ⟨t₁, ht₁, hsame₁⟩ := addNeighbors_same hsame hv₁
  obtain ⟨t₂, ht₂, hsame₂⟩ := addNeighbors_same hsame₁ hv₂
  have hjoined₁' := joined_addNeighbors hknown ht₁
  have hjoined₂' := joined_addNeighbors (hjoined₁'.same.known hknown) ht₂
  have hservices : t₂.services = s.services := by rw [(hjoined₁'.trans hjoined₂').rest]
  have hservices' : v₂.services = (u.setBase p { b with connectionType := .remote, serverName := remoteServerName }).services := by
    rw [(hjoined₁.trans hjoined₂).rest]
  have hcount := services_setBase (b := { b with connectionType := .remote, serverName := remoteServerName }) hb rfl
  simp only [liveAfter, haddress, Option.getD_some, ht₁, Option.bind_some, ht₂, countLiveConnections, broadcastMessage,
    sendMessage, RemoteCommunicatorConnections.gossipReceived, hsame₂.remoteSnapcommunicators, hservices, hservices']
  rw [hcount, hnoted.services]

theorem admits_eq (h : Noted s u) (hup : s.isConnected p = true) : s.admits others p m =
    (decide (m.getIntegerParameter "version" = some version) && m.hasParameter "my_address" &&
      (m.getParameter "server_name").any (fun name => !u.nameMatch p name) && !u.tooMany others) := by
  rw [admits, hup, Bool.true_and, h.tooMany]
  simp only [h.nameMatch]

/-- `CONNECT` is accepted or changes nothing that counts. -/
theorem processConnect_cases (hnoted : Noted s u) (hup : s.isConnected p = true) (hb : u.base p = some b)
    (h : u.processConnect lib now others p b m = some t) :
    s.admits others p m = false ∧ Silent s t s.neighbors s.remotes ∨
    s.admits others p m = true ∧ ∃ remoteServerName hisAddress, m.getParameter "my_address" = some hisAddress ∧
      u.accept lib now p b m remoteServerName hisAddress = some t := by
  rw [admits_eq hnoted hup, SnapCommunicatorMessage.hasParameter, SortedMap.contains]
  unfold processConnect at h
  split at h
  · rename_i v hisAddress remoteServerName hv haddress hname
    obtain ⟨v', hv', h⟩ := Option.bind_eq_some_iff.mp h
    rw [SnapCommunicatorMessage.getParameter] at haddress
    rw [hv', haddress, hname, Option.isSome_some, Bool.and_true, Option.any_some]
    split at h
    · rename_i hversion
      cases h
      exact Or.inl ⟨by simp [hversion], hnoted.silent⟩
    · rename_i hversion
      rw [decide_eq_true (congrArg some (not_not.mp hversion)), Bool.true_and]
      split at h
      · rename_i hmatch
        cases h
        exact Or.inl ⟨by simp [hmatch], hnoted.silent.sendMessage p _⟩
      · rename_i hmatch
        split at h
        · rename_i hmany
          cases h
          have hset : Silent u (u.setBase p { b with serverName := remoteServerName }) u.neighbors u.remotes := by
            refine silent_setBase hb ?_
            rfl
          rw [hnoted.neighbors, hnoted.remotes] at hset
          exact Or.inl ⟨by simp [hmany], (Silent.of_noted hnoted hset).sendMessage p _⟩
        · rename_i hmany
          exact Or.inr ⟨by simp [hmatch, hmany], remoteServerName, hisAddress, haddress, h⟩
  · rename_i hmissing
    cases h
    refine Or.inl ⟨?_, hnoted.silent⟩
    by_contra htrue
    rw [Bool.not_eq_false, Bool.and_eq_true, Bool.and_eq_true, Bool.and_eq_true, decide_eq_true_eq] at htrue
    obtain ⟨⟨⟨hversion, haddress⟩, hname⟩, -⟩ := htrue
    obtain ⟨v, hv, -⟩ := Option.bind_eq_some_iff.mp hversion
    obtain ⟨hisAddress, haddress⟩ := Option.isSome_iff_exists.mp haddress
    obtain ⟨remoteServerName, hname, -⟩ := (Option.any_eq_true _ _).mp hname
    exact hmissing v hisAddress remoteServerName hv haddress hname

theorem outcome_connect (hknown : Known s.remoteSnapcommunicators) (h : s.handle lib (.connect now others p m) = some t) :
    Outcome lib s (.connect now others p m) t := by
  obtain ⟨hup, rfl⟩ | ⟨hup, b, s', hnoted, hb, h⟩ := onMessage_cases h
  · have hadmits : t.admits others p m = false := by rw [admits, hup, Bool.false_and, Bool.false_and, Bool.false_and, Bool.false_and]
    refine .silent hadmits ?_
    rw [neighborsAfter, remotesAfter, hadmits]
    exact .refl t
  · obtain ⟨hadmits, hsilent⟩ | ⟨hadmits, remoteServerName, hisAddress, haddress, h⟩ := processConnect_cases hnoted hup hb h
    · refine .silent hadmits ?_
      rw [neighborsAfter, remotesAfter, hadmits]
      exact hsilent
    · obtain ⟨v, hsilent, hlive, rfl⟩ := accept_eq others hknown hnoted hup hb haddress h
      refine .told v hadmits ?_ hlive rfl
      rw [neighborsAfter, remotesAfter, if_pos hadmits, if_pos hadmits]
      exact hsilent

/-! ### Runs -/

theorem outcome_handle (hknown : Known s.remoteSnapcommunicators) {e : ClusterEvent} (h : s.handle lib e = some t) :
    Outcome lib s e t := by
  cases e with
  | init now c =>
    cases h
    exact .silent rfl (.refl s)
  | addNeighbors now newNeighbors => exact outcome_addNeighbors hknown h
  | forget p m => exact outcome_forget h
  | connected addr => exact outcome_connected h
  | connectionFailed addr => exact outcome_connectionFailed h
  | incoming socket isLocal => exact outcome_incoming h
  | commands p m list => exact outcome_commands h
  | status p m => exact outcome_status h
  | connect now others p m => exact outcome_connect hknown h
  | accept now p m => exact outcome_accept hknown h
  | refuse p m => exact outcome_refuse h
  | disconnect p m => exact outcome_disconnect h
  | hup p => exact outcome_hup h

/-- A daemon that starts is connected to nothing and has told nothing. -/
theorem silent_join {c : ClusterConfig} (h : c.join lib now = some s) :
    s.lastTold = none ∧ s.clusterStatus = [] ∧ s.remotes = ∅ ∧ Known s.remoteSnapcommunicators := by
  obtain ⟨s₁, h₁, h⟩ := Option.bind_eq_some_iff.mp h
  obtain ⟨s₂, h₂, h⟩ := Option.bind_eq_some_iff.mp h
  have hknown : Known ({ myAddress := c.myAddress } : RemoteCommunicatorConnections) := fun addr haddr => haddr
  have hjoined₁ := joined_foldlM (fun hknown h => joined_readNeighbor hknown h) _ hknown h₁
  have hknown₁ := hjoined₁.same.known hknown
  have hjoined₂ : ∃ texts, Joined texts s₁ s₂ := by
    split at h₂
    · cases h₂
      exact ⟨∅, .refl s₁⟩
    · exact ⟨_, joined_addNeighbors hknown₁ h₂⟩
  obtain ⟨texts, hjoined₂⟩ := hjoined₂
  have hjoined₃ := joined_addNeighbors (hjoined₂.same.known hknown₁) h
  have hsilent := ((hjoined₁.trans hjoined₂).trans hjoined₃).silent
  exact ⟨hsilent.lastTold, hsilent.clusterStatus, hsilent.remotes, hsilent.known hknown⟩

/-- A daemon that has not ended tells the truth and remembers what it told. -/
def Trusted (d : Option ClusterServer) : Prop := ∀ s, d = some s → Telling s ∧ Truthful (some s)

theorem truthful_step {d : Option ClusterServer} (h : Trusted d) (e : ClusterEvent) :
    (Truthful (step lib d e) ↔ Counted lib d e) ∧ (Truthful (step lib d e) → Trusted (step lib d e)) := by
  cases d with
  | none =>
    cases e with
    | init now c =>
      have hstep : step lib none (.init now c) = (c.join lib now).map announceStatus := rfl
      have hcounted : Counted lib none (.init now c) ↔ ∀ s, c.join lib now = some s →
        (HasQuorum s.neighbors s.countLiveConnections ↔ HasQuorum s.neighbors 0) := Iff.rfl
      rw [hstep, hcounted]
      cases hjoin : c.join lib now with
      | none =>
        rw [Option.map_none]
        exact ⟨iff_of_true (fun s hs => by cases hs) (fun s hs => by cases hs), fun _ s hs => by cases hs⟩
      | some s =>
        obtain ⟨hlast, hstatus, hremotes, hknown⟩ := silent_join hjoin
        have htold : s.clusterStatus ≠ [] → s.lastTold = some s.clusterStatus := fun hne => absurd hstatus hne
        rw [Option.map_some]
        refine ⟨?_, fun htrue t ht => ?_⟩
        · rw [truthful_announceStatus htold, hremotes]
          simp
        · cases ht
          exact ⟨.announceStatus htold hknown, htrue⟩
    | _ => exact ⟨iff_of_true (fun s hs => by cases hs) trivial, fun _ s hs => by cases hs⟩
  | some s =>
    obtain ⟨htelling, htrue⟩ := h s rfl
    have hstep : step lib (some s) e = s.handle lib e := rfl
    rw [hstep]
    cases hhandle : s.handle lib e with
    | none =>
      have hcounted : Counted lib (some s) e := fun hsome => by
        rw [hhandle] at hsome
        cases hsome
      exact ⟨iff_of_true (fun s hs => by cases hs) hcounted, fun _ s hs => by cases hs⟩
    | some t =>
      obtain ⟨htelling', hiff⟩ := (outcome_handle htelling.known hhandle).truthful_iff_counted htelling htrue hhandle
      exact ⟨hiff, fun htrue' t' ht' => by cases ht'; exact ⟨htelling', htrue'⟩⟩

/-- What was told last is true after each event of a run, exactly when each event is counted well. -/
theorem truthful_iff (lib : Libaddr) (es : List ClusterEvent) :
    Trace.Along (step lib) (fun d e => Truthful (step lib d e)) none es ↔ Trace.Along (step lib) (Counted lib) none es :=
  Trace.along_congr_of (I := Trusted) (fun s hs => by cases hs) (fun _ e h htrue => (truthful_step h e).2 htrue)
    fun _ e h => (truthful_step h e).1

/-! ### A computer that cannot be reached -/

/-- Two computers, of which this one connects to the other. -/
def two : ClusterConfig where
  serverName := "here".toList
  maxConnections := 100
  listen := "10.0.0.9:4040".toList
  isLoopback := false
  neighbors := "10.0.0.3:4040".toList
  myAddress := RemoteCommunicatorConnections.here
  neighborsFile := []

/-- The cluster is said to be up while the only other computer cannot be reached. -/
theorem not_truthful : ¬ ∀ (lib : Libaddr) (es : List ClusterEvent),
    Trace.Along (step lib) (fun d e => Truthful (step lib d e)) none es := by
  intro hall
  obtain ⟨-, htrue, -⟩ := hall RemoteCommunicatorConnections.byText [.init 5 two, .connectionFailed "10.0.0.3".toList]
  have htold : ((step RemoteCommunicatorConnections.byText (step RemoteCommunicatorConnections.byText none (.init 5 two))
      (.connectionFailed "10.0.0.3".toList)).map fun s => (s.lastTold, s.allNeighbors.entries.length, s.remotes.card)) =
      some (some "CLUSTERUP".toList, 2, 0) := by decide
  obtain ⟨s, hs, heq⟩ := Option.map_eq_some_iff.mp htold
  simp only [Prod.mk.injEq] at heq
  obtain ⟨hlast, hneighbors, hremotes⟩ := heq
  have hquorum := (htrue s hs).mp hlast
  rw [hneighbors, hremotes] at hquorum
  revert hquorum
  decide

end ClusterServer
end Snapwebsites
