import Snapwebsites.Communicator.Daemon

/-! # What a broadcast does

What `broadcast_message()` gathers in its loop (`Spread.Gathered`), what the message it sends on says
(`Stamped`), and, from these, what it does with a message it has not seen before. -/

namespace Snapwebsites
open QString

/-! ### The parameters of a broadcast -/

namespace SnapCommunicatorMessage
variable {m : SnapCommunicatorMessage}

theorem getParameter_withParameter (name name' : String) (value : QString) :
    (m.withParameter name value).getParameter name' = if name'.toList = name.toList then some value else m.getParameter name' := by
  unfold getParameter withParameter
  by_cases h : name'.toList = name.toList
  · rw [if_pos h, h, SortedMap.find?_insert_self]
  · rw [if_neg h, SortedMap.find?_insert_of_ne h]

/-- The parameters that `broadcast_message()` writes. -/
def broadcastNames : List QString :=
  ["broadcast_msgid".toList, "broadcast_hops".toList, "broadcast_originator".toList, "broadcast_timeout".toList,
    "broadcast_informed_neighbors".toList]

/-- The same message, up to the parameters of the broadcast. -/
structure CopyOf (message m : SnapCommunicatorMessage) : Prop where
  sentFromServer : m.sentFromServer = message.sentFromServer
  sentFromService : m.sentFromService = message.sentFromService
  server : m.server = message.server
  service : m.service = message.service
  command : m.command = message.command
  parameters : ∀ name ∉ broadcastNames, m.parameters.find? name = message.parameters.find? name

theorem CopyOf.refl (m : SnapCommunicatorMessage) : CopyOf m m := ⟨rfl, rfl, rfl, rfl, rfl, fun _ _ => rfl⟩

theorem CopyOf.trans {a b c : SnapCommunicatorMessage} (h : CopyOf a b) (h' : CopyOf b c) : CopyOf a c :=
  ⟨h'.sentFromServer.trans h.sentFromServer, h'.sentFromService.trans h.sentFromService, h'.server.trans h.server,
    h'.service.trans h.service, h'.command.trans h.command,
    fun name hn => (h'.parameters name hn).trans (h.parameters name hn)⟩

theorem copyOf_withParameter {name : String} (h : name.toList ∈ broadcastNames) (value : QString) :
    CopyOf m (m.withParameter name value) :=
  ⟨rfl, rfl, rfl, rfl, rfl, fun _ hn => SortedMap.find?_insert_of_ne fun heq => hn (heq ▸ h)⟩

/-- The message says that it is the broadcast `msgid`, alive until `timeout`, and that the daemons at
    the addresses `informed` know of it. -/
structure Marked (msgid : QString) (timeout : Int) (informed : List QString) (m : SnapCommunicatorMessage) : Prop where
  getMsgid : m.getParameter "broadcast_msgid" = some msgid
  getTimeout : m.getIntegerParameter "broadcast_timeout" = some timeout
  getInformed : m.getParameter "broadcast_informed_neighbors" = some (join ',' informed)
  plain : ∀ address ∈ informed, address ≠ [] ∧ ',' ∉ address

/-- It says as well over how many links it has come. -/
structure Stamped (msgid : QString) (timeout hops : Int) (informed : List QString) (m : SnapCommunicatorMessage) : Prop
    extends Marked msgid timeout informed m where
  getHops : m.getIntegerParameter "broadcast_hops" = some hops

section Marked
variable {msgid : QString} {timeout : Int} {informed : List QString}

theorem Marked.hasParameter (h : Marked msgid timeout informed m) : m.hasParameter "broadcast_msgid" = true := by
  have := h.getMsgid
  unfold getParameter at this
  unfold SnapCommunicatorMessage.hasParameter SortedMap.contains
  rw [this]
  rfl

theorem Marked.splitParts (h : Marked msgid timeout informed m) : QString.splitParts ',' (join ',' informed) = informed :=
  splitParts_join (fun a ha => (h.plain a ha).1) fun a ha => (h.plain a ha).2

end Marked

end SnapCommunicatorMessage

namespace Daemon
open SnapCommunicatorMessage
variable {d : Daemon} {message : SnapCommunicatorMessage}

theorem toIpv4or6String_plain (a : Address) (mode : StringIp) :
    a.toIpv4or6String mode ≠ [] ∧ ',' ∉ a.toIpv4or6String mode := by
  cases mode with
  | only => exact ⟨a.ip_ne_nil, a.ip_plain.1⟩
  | brackets =>
    show (if a.isIpv4 then a.ip else '[' :: a.ip ++ [']']) ≠ [] ∧ ',' ∉ (if a.isIpv4 then a.ip else '[' :: a.ip ++ [']'])
    split
    · exact ⟨a.ip_ne_nil, a.ip_plain.1⟩
    · refine ⟨by simp, fun hm => ?_⟩
      rw [List.cons_append, List.mem_cons, List.mem_append, List.mem_singleton] at hm
      rcases hm with hm | hm | hm
      · exact absurd hm (by decide)
      · exact a.ip_plain.1 hm
      · exact absurd hm (by decide)

/-- The informed neighbors with the daemon's own address, as it prints with brackets. -/
def informedWith (d : Daemon) (informed : List QString) : List QString :=
  if informed.contains (d.myAddress.toIpv4or6String .brackets) then informed
  else informed ++ [d.myAddress.toIpv4or6String .brackets]

theorem mem_informedWith {informed : List QString} {address : QString} :
    address ∈ d.informedWith informed ↔ address ∈ informed ∨ address = d.myAddress.toIpv4or6String .brackets := by
  unfold informedWith
  split
  · rename_i h
    rw [List.contains_iff_mem] at h
    exact ⟨Or.inl, fun h' => h'.elim id fun heq => heq ▸ h⟩
  · rw [List.mem_append, List.mem_singleton]

theorem copyOf_stamp (now : Int) (b : Broadcast) (informed : List QString) : CopyOf message (d.stamp now message b informed) := by
  refine ((((copyOf_withParameter ?_ _).trans (copyOf_withParameter ?_ _)).trans (copyOf_withParameter ?_ _)).trans
    (copyOf_withParameter ?_ _)).trans (copyOf_withParameter ?_ _) <;>
    simp only [broadcastNames, List.mem_cons, String.toList_inj, String.reduceEq, true_or, or_true]

theorem stamp_eq {now : Int} {b : Broadcast} {informed : List QString} {msgid : QString} {timeout : Int}
    (hmsgid : (if b.msgid = [] then d.serverName ++ '-' :: number (d.broadcastSequence + 1) else b.msgid) = msgid)
    (htimeout : (if b.timeout = 0 then now + 10 else b.timeout) = timeout) :
    d.stamp now message b informed =
      ((((message.withParameter "broadcast_msgid" msgid).withParameter "broadcast_hops" (number (b.hops + 1))).withParameter
        "broadcast_originator" (d.myAddress.toIpv4or6String .brackets)).withParameter "broadcast_timeout"
        (number timeout)).withParameter "broadcast_informed_neighbors" (join ',' (d.informedWith informed)) := by
  rw [← hmsgid, ← htimeout]
  rfl

/-- What a message that goes out says about itself. -/
theorem marked_stamp {now : Int} {b : Broadcast} {informed : List QString} {msgid : QString} {timeout : Int}
    (hmsgid : (if b.msgid = [] then d.serverName ++ '-' :: number (d.broadcastSequence + 1) else b.msgid) = msgid)
    (htimeout : (if b.timeout = 0 then now + 10 else b.timeout) = timeout)
    (ht : 0 ≤ timeout ∧ timeout < 0x8000000000000000)
    (hplain : ∀ address ∈ informed, address ≠ [] ∧ ',' ∉ address) :
    Marked msgid timeout (d.informedWith informed) (d.stamp now message b informed) := by
  rw [stamp_eq hmsgid htimeout]
  refine ⟨?_, ?_, ?_, fun address ha => ?_⟩
  · simp only [getParameter_withParameter]
    rfl
  · unfold getIntegerParameter
    simp only [getParameter_withParameter]
    exact toLongLong_number ht.1 ht.2
  · simp only [getParameter_withParameter]
    rfl
  · rcases mem_informedWith.mp ha with ha | rfl
    · exact hplain address ha
    · exact toIpv4or6String_plain _ _

theorem stamped_stamp {now : Int} {b : Broadcast} {informed : List QString} {msgid : QString} {timeout : Int}
    (hmsgid : (if b.msgid = [] then d.serverName ++ '-' :: number (d.broadcastSequence + 1) else b.msgid) = msgid)
    (htimeout : (if b.timeout = 0 then now + 10 else b.timeout) = timeout)
    (ht : 0 ≤ timeout ∧ timeout < 0x8000000000000000) (hh : 0 ≤ b.hops ∧ b.hops < 0x7FFFFFFFFFFFFFFF)
    (hplain : ∀ address ∈ informed, address ≠ [] ∧ ',' ∉ address) :
    Stamped msgid timeout (b.hops + 1) (d.informedWith informed) (d.stamp now message b informed) := by
  refine ⟨marked_stamp hmsgid htimeout ht hplain, ?_⟩
  rw [stamp_eq hmsgid htimeout]
  unfold getIntegerParameter
  simp only [getParameter_withParameter]
  exact toLongLong_number (by omega) (by omega)

/-! ### The choice of the connections -/

/-- The connections to other daemons that are in reach of a broadcast. -/
def InReach (remote all : Bool) (c : Connection) : Prop :=
  (c.address.networkType = .privateNetwork ∧ remote = true) ∨ (c.address.networkType = .publicNetwork ∧ all = true)

/-- The connection is the one of a service on this computer that takes the command. -/
def takes (message : SnapCommunicatorMessage) (c : Connection) : Bool :=
  decide (c.kind = .serviceConnection) && decide (c.address.networkType = .loopback) && c.understandCommand message.command

namespace Spread

/-- What a loop over the connections `l` makes of the spread `s`, when the connections it may broadcast
    to are those with `reach`. -/
structure Gathered (reach : Connection → Prop) (l : List Connection) (s s' : Spread) : Prop where
  keeps : ∀ address ∈ s.informedNeighbors, address ∈ s'.informedNeighbors
  informed : ∀ c ∈ l, reach c → c.address.ip ∈ s'.informedNeighbors
  new : ∃ cs : List Connection, s'.broadcastConnection = s.broadcastConnection ++ cs ∧ cs.Sublist l ∧
    (∀ c ∈ cs, reach c ∧ c.address.ip ∉ s.informedNeighbors) ∧ (cs.map fun c => c.address.ip).Nodup ∧
    s'.informedNeighbors = s.informedNeighbors ++ cs.map fun c => c.address.ip

theorem Gathered.refl {reach : Connection → Prop} (s : Spread) : Gathered reach [] s s :=
  ⟨fun _ h => h, fun _ h => absurd h List.not_mem_nil, [], by simp⟩

theorem Gathered.skip {reach : Connection → Prop} {c : Connection} {l : List Connection} {s s₁ s' : Spread}
    (hc : ¬ reach c) (hi : s₁.informedNeighbors = s.informedNeighbors) (hb : s₁.broadcastConnection = s.broadcastConnection)
    (h : Gathered reach l s₁ s') : Gathered reach (c :: l) s s' := by
  obtain ⟨cs, h₁, h₂, h₃, h₄, h₅⟩ := h.new
  rw [hb] at h₁
  rw [hi] at h₃ h₅
  refine ⟨hi ▸ h.keeps, fun c' hc' hr => ?_, cs, h₁, h₂.cons c, h₃, h₄, h₅⟩
  rcases List.mem_cons.mp hc' with rfl | hc'
  · exact absurd hr hc
  · exact h.informed c' hc' hr

theorem Gathered.add {reach : Connection → Prop} {c : Connection} {l : List Connection} {s s' : Spread}
    (hc : reach c) (h : Gathered reach l (s.add c) s') : Gathered reach (c :: l) s s' := by
  obtain ⟨cs, h₁, h₂, h₃, h₄, h₅⟩ := h.new
  by_cases hin : c.address.ip ∈ s.informedNeighbors
  · have hadd : s.add c = s := if_pos (List.contains_iff_mem.mpr hin)
    rw [hadd] at h h₁ h₃ h₅
    refine ⟨h.keeps, fun c' hc' hr => ?_, cs, h₁, h₂.cons c, h₃, h₄, h₅⟩
    rcases List.mem_cons.mp hc' with rfl | hc'
    · exact h.keeps _ hin
    · exact h.informed c' hc' hr
  · have hadd : s.add c = { s with
        informedNeighbors := s.informedNeighbors ++ [c.address.ip]
        broadcastConnection := s.broadcastConnection ++ [c] } := if_neg fun hi => hin (List.contains_iff_mem.mp hi)
    rw [hadd] at h h₁ h₃ h₅
    have hkeep : c.address.ip ∈ s'.informedNeighbors := h.keeps _ (by simp)
    refine ⟨fun a ha => h.keeps a (List.mem_append_left _ ha), fun c' hc' hr => ?_, c :: cs, by simp [h₁], h₂.cons_cons c,
      fun c' hc' => ?_, ?_, by simp [h₅]⟩
    · rcases List.mem_cons.mp hc' with rfl | hc'
      · exact hkeep
      · exact h.informed c' hc' hr
    · rcases List.mem_cons.mp hc' with rfl | hc'
      · exact ⟨hc, hin⟩
      · exact ⟨(h₃ c' hc').1, fun hm => (h₃ c' hc').2 (List.mem_append_left _ hm)⟩
    · rw [List.map_cons, List.nodup_cons]
      refine ⟨fun hm => ?_, h₄⟩
      obtain ⟨c', hc', heq⟩ := List.mem_map.mp hm
      exact (h₃ c' hc').2 (by simp [heq])

theorem gathered_add : ∀ (l : List Connection) (s : Spread), Gathered (fun _ => True) l s (l.foldl Spread.add s)
  | [], _ => Gathered.refl _
  | _ :: l, _ => (gathered_add l _).add trivial

/-- What the loop does with one connection: a service gets the message, a daemon in reach is noted. -/
theorem step_cases (remote all : Bool) (s : Spread) (c : Connection) :
    (takes message c = true ∧ ¬ InReach remote all c ∧ s.step message remote all c = { s with sent := s.sent ++ [(c, message)] }) ∨
    (takes message c = false ∧ ¬ InReach remote all c ∧ s.step message remote all c = s) ∨
    (takes message c = false ∧ InReach remote all c ∧ s.step message remote all c = s.add c) := by
  unfold Spread.step takes InReach
  rcases hn : c.address.networkType with _ | _ | _ | _ <;> rcases hk : c.kind with _ | _
  · cases hu : c.understandCommand message.command <;> simp
  · simp
  all_goals cases remote <;> cases all <;> simp

theorem sent_add (s : Spread) (c : Connection) : (s.add c).sent = s.sent := by
  unfold Spread.add
  dsimp only
  split <;> rfl

theorem sent_foldl_add : ∀ (l : List Connection) (s : Spread), (l.foldl Spread.add s).sent = s.sent
  | [], _ => rfl
  | c :: l, s => by rw [List.foldl_cons, sent_foldl_add l, sent_add]

theorem gathered_step (remote all : Bool) : ∀ (l : List Connection) (s : Spread),
    Gathered (InReach remote all) l s (l.foldl (Spread.step message remote all) s) ∧
    (l.foldl (Spread.step message remote all) s).sent = s.sent ++ (l.filter (takes message)).map fun c => (c, message)
  | [], s => ⟨Gathered.refl s, by simp⟩
  | c :: l, s => by
    obtain ⟨ih, hsent⟩ := gathered_step remote all l (s.step message remote all c)
    rw [List.foldl_cons]
    rcases @step_cases message remote all s c with ⟨ht, hr, heq⟩ | ⟨ht, hr, heq⟩ | ⟨ht, hr, heq⟩ <;>
      rw [heq] at ih hsent ⊢
    · refine ⟨ih.skip hr (by rfl) (by rfl), ?_⟩
      rw [hsent, List.filter_cons_of_pos ht]
      simp
    · refine ⟨ih.skip hr rfl rfl, ?_⟩
      rw [hsent, List.filter_cons_of_neg (by rw [ht]; exact Bool.false_ne_true)]
    · refine ⟨ih.add hr, ?_⟩
      rw [hsent, sent_add, List.filter_cons_of_neg (by rw [ht]; exact Bool.false_ne_true)]

end Spread

/-! ### Broadcasting -/

/-- Nothing but the sequence number changes when a message is sent on. -/
theorem broadcastWith_eq (now : Int) (accepting : List Connection) (b : Broadcast) :
    let s := d.spread message accepting b.hops (splitParts ',' b.informedNeighbors)
    ∃ n, d.broadcastWith now message accepting b =
      ({ d with broadcastSequence := n },
        s.sent ++ s.broadcastConnection.map fun c => (c, d.stamp now message b s.informedNeighbors)) := by
  unfold broadcastWith
  dsimp only
  split
  · rename_i h
    rw [h]
    exact ⟨d.broadcastSequence, by simp⟩
  · exact ⟨_, rfl⟩

theorem broadcastMessage_new (now : Int) (accepting : List Connection) (h : message.hasParameter "broadcast_msgid" = false) :
    d.broadcastMessage now message accepting =
      some (d.broadcastWith now message accepting { msgid := [], timeout := 0, informedNeighbors := [], hops := 0 }) := by
  unfold broadcastMessage
  rw [h]
  rfl

/-- The identifier is entered, and the identifiers that have timed out leave. -/
def receive (d : Daemon) (now : Int) (msgid : QString) (timeout : Int) : Daemon :=
  { d with receivedBroadcastMessages := (d.receivedBroadcastMessages.filter fun e => !decide (e.2 < now)).insert msgid timeout }

section Marked
variable {msgid : QString} {timeout hops now : Int} {informed : List QString}

/-- A message that has come before its time is up and for the first time; without a number of hops it is
    an error. -/
theorem broadcastMessage_marked (h : Marked msgid timeout informed message) (ht : ¬ timeout < now)
    (hnew : d.receivedBroadcastMessages.contains msgid = false) (accepting : List Connection) :
    d.broadcastMessage now message accepting = (message.getIntegerParameter "broadcast_hops").map fun hops =>
      (d.receive now msgid timeout).broadcastWith now message accepting
        { msgid, timeout, informedNeighbors := join ',' informed, hops } := by
  unfold broadcastMessage
  rw [if_pos h.hasParameter, h.getTimeout, h.getMsgid, h.getInformed]
  simp only [Option.bind_eq_bind, Option.bind_some, if_neg ht, hnew, Bool.false_eq_true, if_false]
  cases message.getIntegerParameter "broadcast_hops" <;> rfl

theorem broadcastMessage_stamped (h : Stamped msgid timeout hops informed message) (ht : ¬ timeout < now)
    (hnew : d.receivedBroadcastMessages.contains msgid = false) (accepting : List Connection) :
    d.broadcastMessage now message accepting = some ((d.receive now msgid timeout).broadcastWith now message accepting
      { msgid, timeout, informedNeighbors := join ',' informed, hops }) := by
  rw [broadcastMessage_marked h.toMarked ht hnew, h.getHops]
  rfl

theorem processMessage_again (h : Marked msgid timeout informed message) (ht : ¬ timeout < now)
    (hold : d.receivedBroadcastMessages.contains msgid = true) (source : Connection) :
    d.processMessage now source message = some (d, []) := by
  unfold processMessage
  rw [if_pos h.hasParameter, h.getTimeout, h.getMsgid]
  simp only [Option.bind_eq_bind, Option.bind_some, if_neg ht, hold, if_true]

theorem processMessage_marked (h : Marked msgid timeout informed message) (ht : ¬ timeout < now)
    (hnew : d.receivedBroadcastMessages.contains msgid = false) (source : Connection) :
    d.processMessage now source message = d.dispatch now source message := by
  unfold processMessage
  rw [if_pos h.hasParameter, h.getTimeout, h.getMsgid]
  simp only [Option.bind_eq_bind, Option.bind_some, if_neg ht, hnew, Bool.false_eq_true, if_false]

/-- The identifier that is entered stays as long as it is alive. -/
theorem find?_receive (h : ¬ timeout < now) {k : QString} (hk : ∀ t, d.receivedBroadcastMessages.find? k = some t → t = timeout) :
    (d.receive now msgid timeout).receivedBroadcastMessages.find? k =
      if k = msgid then some timeout else d.receivedBroadcastMessages.find? k := by
  unfold receive
  by_cases hkm : k = msgid
  · subst hkm
    rw [if_pos rfl, SortedMap.find?_insert_self]
  · rw [if_neg hkm, SortedMap.find?_insert_of_ne hkm]
    refine Option.ext fun t => ?_
    rw [SortedMap.find?_filter_eq_some]
    refine ⟨fun h' => h'.1, fun h' => ⟨h', ?_⟩⟩
    rw [hk t h']
    simpa using h

end Marked

theorem processMessage_new (now : Int) (source : Connection) (h : message.hasParameter "broadcast_msgid" = false) :
    d.processMessage now source message = d.dispatch now source message := by
  unfold processMessage
  rw [h]
  rfl

/-! ### A broadcast to the whole cluster -/

/-- The message is one that `process_message()` broadcasts to the cluster. -/
structure ClusterWide (message : SnapCommunicatorMessage) : Prop where
  service : message.service = ['?'] ∨ message.service = ['*']
  server : message.server = [] ∨ message.server = ['*']

theorem ClusterWide.copy {m : SnapCommunicatorMessage} (h : ClusterWide message) (hc : CopyOf message m) : ClusterWide m :=
  ⟨hc.service ▸ h.service, hc.server ▸ h.server⟩

theorem takes_copy {m : SnapCommunicatorMessage} (hc : CopyOf message m) (c : Connection) : takes m c = takes message c := by
  unfold takes
  rw [hc.command]

theorem dispatch_clusterWide (h : ClusterWide message) (now : Int) (source : Connection) :
    d.dispatch now source message = d.broadcastMessage now message := by
  have hserver : message.server ≠ ['.'] := by
    rcases h.server with h | h <;> rw [h] <;> decide
  have hforUs : d.isForUs message.server message = false := by
    unfold isForUs
    rcases h.service with h | h <;> rw [h] <;> simp
  have hservice : isBroadcastService message.service = true := by
    rcases h.service with h | h <;> rw [h] <;> decide
  have hnot : ¬(message.server ≠ [] ∧ message.server ≠ ['*'] ∧ (message.service = ['*'] ∨ message.service = ['?'])) := by
    rcases h.server with h | h <;> simp [h]
  unfold dispatch
  simp only [if_neg hserver, hforUs, Bool.false_eq_true, if_false, hservice, if_true, if_neg hnot]

/-- A cluster wide broadcast goes to the services that take it, and within five links to each neighbor
    that is not informed. -/
theorem broadcastWith_clusterWide (h : ClusterWide message) (now : Int) (b : Broadcast) {informed : List QString}
    (hi : splitParts ',' b.informedNeighbors = informed) (hpublic : ∀ c ∈ d.connections, c.address.networkType ≠ .publicNetwork) :
    ∃ (n : Int) (cs : List Connection), d.broadcastWith now message [] b =
        ({ d with broadcastSequence := n }, (d.connections.filter (takes message)).map (fun c => (c, message)) ++
          cs.map fun c => (c, d.stamp now message b (informed ++ cs.map fun c => c.address.ip))) ∧
      cs.Sublist d.connections ∧ (cs.map fun c => c.address.ip).Nodup ∧
      (∀ c ∈ cs, c.address.networkType = .privateNetwork ∧ c.address.ip ∉ informed ∧ b.hops < 5) ∧
      (b.hops < 5 → ∀ c ∈ d.connections, c.address.networkType = .privateNetwork →
        c.address.ip ∈ informed ++ cs.map fun c => c.address.ip) := by
  obtain ⟨n, hn⟩ := @broadcastWith_eq d message now [] b
  rw [hi] at hn
  have hspread : ∃ all, d.spread message [] b.hops informed =
      d.connections.foldl (Spread.step message (decide (b.hops < 5)) all) { informedNeighbors := informed } := by
    unfold spread broadcastDestination
    rw [if_pos rfl]
    rcases h.service with h | h
    · refine ⟨false, ?_⟩
      rw [if_pos (Or.inr (Or.inl h)), h]
      simp
    · refine ⟨decide (b.hops < 5), ?_⟩
      rw [if_pos (Or.inr (Or.inr h)), h]
      simp
  obtain ⟨all, hspread⟩ := hspread
  obtain ⟨hg, hsent⟩ := @Spread.gathered_step message (decide (b.hops < 5)) all d.connections
    { informedNeighbors := informed }
  obtain ⟨cs, hb, hsub, hreach, hnodup, hinformed⟩ := hg.new
  rw [← hspread] at hg hsent hb hinformed
  refine ⟨n, cs, ?_, hsub, hnodup, fun c hc => ?_, fun hh c hc hp => ?_⟩
  · rw [hn, hsent, hb, hinformed]
    simp
  · obtain ⟨hr, hnew⟩ := hreach c hc
    rcases hr with ⟨hp, hh⟩ | ⟨hp, -⟩
    · exact ⟨hp, hnew, of_decide_eq_true hh⟩
    · exact absurd hp (hpublic c (hsub.subset hc))
  · have := hg.informed c hc (Or.inl ⟨hp, decide_eq_true hh⟩)
    rwa [hinformed] at this

/-! ### A broadcast over given connections -/

/-- With a list of connections, a broadcast goes to each address that is not informed, however far it
    has come. -/
theorem broadcastWith_accepting (now : Int) (b : Broadcast) {informed : List QString}
    (hi : splitParts ',' b.informedNeighbors = informed) {accepting : List Connection} (ha : accepting ≠ []) :
    ∃ (n : Int) (cs : List Connection), d.broadcastWith now message accepting b =
        ({ d with broadcastSequence := n }, cs.map fun c => (c, d.stamp now message b (informed ++ cs.map fun c => c.address.ip))) ∧
      cs.Sublist accepting ∧ (cs.map fun c => c.address.ip).Nodup ∧ (∀ c ∈ cs, c.address.ip ∉ informed) ∧
      ∀ c ∈ accepting, c.address.ip ∈ informed ++ cs.map fun c => c.address.ip := by
  obtain ⟨n, hn⟩ := @broadcastWith_eq d message now accepting b
  have hspread : d.spread message accepting b.hops informed = accepting.foldl Spread.add { informedNeighbors := informed } :=
    if_neg ha
  have hg := Spread.gathered_add accepting { informedNeighbors := informed }
  obtain ⟨cs, hb, hsub, hreach, hnodup, hinformed⟩ := hg.new
  have hsent : (accepting.foldl Spread.add { informedNeighbors := informed }).sent = [] := Spread.sent_foldl_add _ _
  rw [hi, hspread] at hn
  refine ⟨n, cs, ?_, hsub, hnodup, fun c hc => (hreach c hc).2, fun c hc => ?_⟩
  · rw [hn, hsent, hb, hinformed]
    simp
  · have := hg.informed c hc trivial
    rwa [hinformed] at this

end Daemon
end Snapwebsites
