import Snapwebsites.Communicator.NamedService
import Snapwebsites.Lib.Mailbox

/-! # Messages to a local service

A service of this computer comes and goes: it connects, sends `REGISTER` with its name, and leaves with `UNREGISTER`. Messages
to it that come in the meantime are cached, and a `REGISTER` sends what is cached under its name. The `STATUS` messages that
tell others of it are left out, and so are `CONNECT` and `ACCEPT`, which name the server of a connection. -/

namespace Snapwebsites
open QString

namespace Daemon

/-! ### The commands of a service -/

/-- The name that a `REGISTER` gives to its connection; nothing when a parameter is missing or the version is another one. -/
def registerName (m : SnapCommunicatorMessage) : Option QString := do
  let serviceName ← m.getParameter "service"
  let version ← m.getIntegerParameter "version"
  (if version = 1 then some serviceName else none : Option QString)

/-- The loop over the cached messages: what stays in the cache, and what is sent. -/
def flush (c : Connection) (serviceName : QString) : List CachedMessage → List CachedMessage × Sends
  | [] => ([], [])
  | m :: l =>
    let (rest, sent) := flush c serviceName l
    if m.message.service = serviceName then (rest, (c, m.message) :: sent) else (m :: rest, sent)

/-- What a connection is after its `REGISTER`. -/
def named (serviceName : QString) (c : Connection) : Connection :=
  { c with name := serviceName, connectionType := .localService }

/-- `REGISTER` over the connection `c`. -/
def register (d : Daemon) (now : Int) (c : Connection) (m : SnapCommunicatorMessage) : Daemon × Sends :=
  match registerName m with
  | none => (d, [])
  | some serviceName =>
    let connections := d.connections.map fun c' => if c'.pointer = c.pointer then named serviceName c' else c'
    let cache := d.localMessageCache.filter fun m => !decide (now > m.timeoutTimestamp)
    let (rest, sent) := flush (named serviceName c) serviceName cache
    ({ d with connections, localMessageCache := rest },
      (named serviceName c, { command := "HELP".toList }) :: (named serviceName c, { command := "READY".toList }) :: sent)

/-- `UNREGISTER`; the connection is removed, whatever service the message names. -/
def unregister (d : Daemon) (pointer : Nat) (m : SnapCommunicatorMessage) : Daemon :=
  if m.hasParameter "service" then { d with connections := d.connections.filter fun c => c.pointer ≠ pointer } else d

def setCommands (d : Daemon) (pointer : Nat) (commands : List QString) : Daemon :=
  { d with connections := d.connections.map fun c => if c.pointer = pointer then { c with understoodCommands := commands } else c }

/-- A connection that one of the two listeners accepts. Its first name has a space, so no message can be addressed to it. -/
def accept (d : Daemon) (pointer : Nat) (isLocal : Bool) (remoteAddress : QString) (address : Address) : Daemon :=
  if isLocal then
    { d with connections := d.connections ++ [{ pointer, kind := .serviceConnection, name := "client connection".toList
                                                serverName := d.serverName, connectionType := .down, address }] }
  else if address.networkType = .loopback then d
  else
    { d with connections := d.connections ++ [{ pointer, kind := .serviceConnection
                                                name := "remote connection from: ".toList ++ remoteAddress
                                                serverName := [], connectionType := .down, address }] }

end Daemon

/-! ### Runs -/

inductive LocalEvent
  | accept (pointer : Nat) (isLocal : Bool) (remoteAddress : QString) (address : Address)
  | message (now : Int) (source : Connection) (m : SnapCommunicatorMessage)
  | register (now : Int) (c : Connection) (m : SnapCommunicatorMessage)
  | commands (pointer : Nat) (commands : List QString)
  | unregister (pointer : Nat) (m : SnapCommunicatorMessage)

namespace LocalEvent

/-- The service that the event registers. -/
def registers : LocalEvent → Option QString
  | .register _ _ m => Daemon.registerName m
  | _ => none

/-- The clock that the event reads to remove messages from the cache. -/
def clock : LocalEvent → Option Int
  | .register now _ m => (Daemon.registerName m).map fun _ => now
  | _ => none

end LocalEvent

namespace Daemon

/-- An exception leaves everything as it is. -/
def localStep (d : Daemon) : LocalEvent → Daemon × Sends
  | .accept pointer isLocal remoteAddress address => (d.accept pointer isLocal remoteAddress address, [])
  | .message now source m => (d.processMessage now source m).getD (d, [])
  | .register now c m => d.register now c m
  | .commands pointer commands => (d.setCommands pointer commands, [])
  | .unregister pointer m => (d.unregister pointer m, [])

def localRun (d : Daemon) (es : List LocalEvent) : Daemon × Sends := Trace.run localStep d es

/-- The message is for the service of that name on this server. -/
def addressed (serverName service : QString) (m : SnapCommunicatorMessage) : Bool :=
  decide (m.service = service) &&
    (decide (m.server = []) || decide (m.server = ['*']) || decide (m.server = ['.']) || decide (m.server = serverName))

/-- The messages for the service among those that are sent. -/
def sentTo (serverName service : QString) (sends : Sends) : List SnapCommunicatorMessage :=
  sends.filterMap fun e => if addressed serverName service e.2 then some e.2 else none

/-- The message for the service that the event brings. -/
def brings (serverName service : QString) : LocalEvent → Option SnapCommunicatorMessage
  | .message _ _ m => if addressed serverName service m then some m else none
  | _ => none

def cachedFor (service : QString) (d : Daemon) : List CachedMessage :=
  d.localMessageCache.filter fun m => decide (m.message.service = service)

/-- A name that messages of the net can be addressed to, other than the daemon's own and those of a broadcast. -/
structure ServiceName (service : QString) : Prop where
  ne_nil : service ≠ []
  noSpace : ' ' ∉ service
  single : isBroadcastService service = false

/-- No service has registered yet. -/
def Fresh (d : Daemon) : Prop := d.localMessageCache = [] ∧ ∀ c ∈ d.connections, ' ' ∈ c.name

/-- A `REGISTER` comes from a service: its connection is none to another daemon that has said which server it is. -/
def FromService (d : Daemon) : LocalEvent → Prop
  | .register _ c _ => ∀ c' ∈ d.connections, c'.pointer = c.pointer → c'.serverName = [] ∨ c'.serverName = d.serverName
  | _ => True

/-! ### What a message does -/

section
variable {d : Daemon} {now : Int} {source : Connection} {m : SnapCommunicatorMessage} {service : QString}

/-- The loop over the connections ends at the service, or none of its connections is of the server. -/
theorem findService_cases (serverName service : QString) (allServers : Bool) : ∀ l accepting : List Connection,
    (∃ c ∈ l, Network.isService service c = true ∧ findService serverName service allServers l accepting = .inl c) ∨
    (∃ all, findService serverName service allServers l accepting = .inr all) ∧
      ∀ c ∈ l, Network.isService service c = true → ¬ (allServers = true ∨ serverName = c.serverName)
  | [], accepting => .inr ⟨⟨accepting, rfl⟩, fun c hc => by cases hc⟩
  | c :: l, accepting => by
    have hrest := findService_cases serverName service allServers l
    unfold findService
    by_cases hreach : c.serverName ≠ [] ∧ (allServers = true ∨ serverName = c.serverName)
    · rw [if_pos hreach]
      by_cases hservice : Network.isService service c = true
      · refine .inl ⟨c, List.mem_cons_self, hservice, ?_⟩
        simp only [Network.isService, Bool.and_eq_true, decide_eq_true_eq] at hservice
        rw [hservice.2.1]
        exact if_pos hservice.2.2
      · have hnext : ∀ all, (∃ c' ∈ c :: l, Network.isService service c' = true ∧
              findService serverName service allServers l all = .inl c') ∨
            (∃ all', findService serverName service allServers l all = .inr all') ∧
              ∀ c' ∈ c :: l, Network.isService service c' = true → ¬ (allServers = true ∨ serverName = c'.serverName) := by
          intro all
          rcases hrest all with ⟨c', hc', hs, heq⟩ | ⟨heq, hnone⟩
          · exact .inl ⟨c', List.mem_cons_of_mem c hc', hs, heq⟩
          · exact .inr ⟨heq, List.forall_mem_cons.mpr ⟨fun h => absurd h hservice, hnone⟩⟩
        cases hkind : c.kind with
        | remoteSnapCommunicator => exact hnext _
        | serviceConnection =>
          have hname : c.name ≠ service := fun hname => hservice (by simp [Network.isService, hreach.1, hkind, hname])
          simp only [if_neg hname]
          split
          · exact hnext _
          · exact hnext _
    · rw [if_neg hreach]
      rcases hrest accepting with ⟨c', hc', hs, heq⟩ | ⟨heq, hnone⟩
      · exact .inl ⟨c', List.mem_cons_of_mem c hc', hs, heq⟩
      · refine .inr ⟨heq, List.forall_mem_cons.mpr ⟨fun hs h => hreach ⟨?_, h⟩, hnone⟩⟩
        simp only [Network.isService, Bool.and_eq_true, decide_eq_true_eq] at hs
        exact hs.1

/-- Messages of the daemon itself, and copies of the message that has come. -/
def Copies (m : SnapCommunicatorMessage) (sends : Sends) : Prop :=
  ∀ e ∈ sends, e.2.service = [] ∨ e.2.service = m.service ∧ e.2.server = m.server

theorem copies_broadcastWith (d : Daemon) (now : Int) (m : SnapCommunicatorMessage) (accepting : List Connection) (b : Broadcast) : Copies m (d.broadcastWith now m accepting b).2 := by
  obtain ⟨n, hn⟩ := @broadcastWith_eq d m now accepting b
  rw [hn]
  intro e he
  rcases List.mem_append.mp he with he | he
  · have hsent : e.2 = m := by
      unfold spread at he
      split at he
      · rw [(Spread.gathered_step _ _ _ _).2, List.nil_append] at he
        obtain ⟨c, -, rfl⟩ := List.mem_map.mp he
        rfl
      · rw [Spread.sent_foldl_add] at he
        cases he
    exact .inr ⟨by rw [hsent], by rw [hsent]⟩
  · obtain ⟨c, -, rfl⟩ := List.mem_map.mp he
    have hcopy := @copyOf_stamp d m now b
      (d.spread m accepting b.hops (splitParts ',' b.informedNeighbors)).informedNeighbors
    exact .inr ⟨hcopy.service, hcopy.server⟩

/-- A message changes nothing but what the daemon remembers of broadcasts, or it is cached for a service of this server. -/
structure Forwarded (d : Daemon) (m : SnapCommunicatorMessage) (r : Daemon × Sends) : Prop where
  connections : r.1.connections = d.connections
  serverName : r.1.serverName = d.serverName
  localServicesList : r.1.localServicesList = d.localServicesList
  cache : r.1.localMessageCache = d.localMessageCache ∨ addressed d.serverName m.service m = true ∧
    ∃ t, r.1.localMessageCache = d.localMessageCache ++ [{ timeoutTimestamp := t, message := m }]
  copies : Copies m r.2

theorem Forwarded.same : Forwarded d m (d, []) := ⟨rfl, rfl, rfl, .inl rfl, fun e he => by cases he⟩

theorem forwarded_broadcastMessage {accepting : List Connection} {r : Daemon × Sends}
    (h : d.broadcastMessage now m accepting = some r) : Forwarded d m r := by
  have hwith : ∀ (d' : Daemon) (b : Broadcast), d'.connections = d.connections → d'.serverName = d.serverName →
      d'.localServicesList = d.localServicesList → d'.localMessageCache = d.localMessageCache →
      Forwarded d m (d'.broadcastWith now m accepting b) := by
    intro d' b hconnections hserver hlist hcache
    have hcopies := copies_broadcastWith d' now m accepting b
    obtain ⟨n, hn⟩ := @broadcastWith_eq d' m now accepting b
    rw [hn] at hcopies ⊢
    exact ⟨hconnections, hserver, hlist, .inl hcache, hcopies⟩
  unfold broadcastMessage at h
  split at h
  · obtain ⟨timeout, -, h⟩ := Option.bind_eq_some_iff.mp h
    split at h
    · cases h
      exact .same
    · obtain ⟨msgid, -, h⟩ := Option.bind_eq_some_iff.mp h
      split at h
      · cases h
        exact .same
      · obtain ⟨informed, -, h⟩ := Option.bind_eq_some_iff.mp h
        obtain ⟨hops, -, h⟩ := Option.bind_eq_some_iff.mp h
        cases h
        exact hwith _ _ rfl rfl rfl rfl
  · cases h
    exact hwith _ _ rfl rfl rfl rfl

/-- The server of a message, as `process_message()` takes it. -/
def serverOf (d : Daemon) (m : SnapCommunicatorMessage) : QString := if m.server = ['.'] then d.serverName else m.server

def allServers (d : Daemon) (m : SnapCommunicatorMessage) : Bool :=
  decide (d.serverOf m = []) || decide (d.serverOf m = ['*'])

/-- The messages that may be cached are those for this server. -/
theorem addressed_iff : addressed d.serverName service m = true ↔
    m.service = service ∧ (allServers d m = true ∨ d.serverOf m = d.serverName) := by
  unfold addressed allServers serverOf
  rw [Bool.and_eq_true, decide_eq_true_eq]
  refine and_congr_right fun _ => ?_
  by_cases hdot : m.server = ['.']
  · simp [hdot]
  · simp [hdot, or_assoc]

theorem copies_transmissionReport : Copies m (transmissionReport source m) :=
  fun _ he => .inl (Network.isReport_of_mem he).1

theorem cacheMessage_eq (d : Daemon) (now : Int) (m : SnapCommunicatorMessage) : ∃ deadline : Option Int,
    d.cacheMessage now m = { d with localMessageCache :=
      d.localMessageCache ++ deadline.toList.map fun t => { timeoutTimestamp := t, message := m } } := by
  unfold cacheMessage
  simp only
  split
  · exact ⟨none, by simp⟩
  · exact ⟨some _, rfl⟩

theorem Forwarded.report (h : addressed d.serverName m.service m = true) :
    Forwarded d m (d.cacheMessage now m, transmissionReport source m) := by
  obtain ⟨deadline, heq⟩ := cacheMessage_eq d now m
  rw [heq]
  refine ⟨rfl, rfl, rfl, ?_, copies_transmissionReport⟩
  cases deadline with
  | none => exact .inl (List.append_nil _)
  | some t => exact .inr ⟨h, t, rfl⟩

theorem forwarded_forwardToService {r : Daemon × Sends} (h : d.forwardToService now source (d.serverOf m) m = some r) :
    Forwarded d m r := by
  unfold forwardToService at h
  simp only at h
  split at h
  · cases h
    refine ⟨rfl, rfl, rfl, .inl rfl, fun e he => .inr ?_⟩
    split at he
    · cases List.mem_singleton.mp he
      exact ⟨rfl, rfl⟩
    · cases he
  · split at h
    · rename_i hlocal
      cases h
      refine .report (addressed_iff.mpr ⟨rfl, ?_⟩)
      simpa only [allServers, Bool.and_eq_true, Bool.or_eq_true, decide_eq_true_eq] using (Bool.and_eq_true_iff.mp hlocal).1
    · split at h
      · cases h
        exact ⟨rfl, rfl, rfl, .inl rfl, copies_transmissionReport⟩
      · split at h
        · cases h
          exact .same
        · exact forwarded_broadcastMessage h

theorem dispatch_eq (now : Int) (source : Connection) (m : SnapCommunicatorMessage) : d.dispatch now source m =
    if d.isForUs (d.serverOf m) m then some (d, [])
    else if isBroadcastService m.service then
      if d.serverOf m ≠ [] ∧ d.serverOf m ≠ ['*'] ∧ (m.service = ['*'] ∨ m.service = ['?']) then some (d, [])
      else d.broadcastMessage now m
    else d.forwardToService now source (d.serverOf m) m := rfl

/-- The check of the identifier drops a message or lets it pass. -/
theorem processMessage_cases (d : Daemon) (now : Int) (source : Connection) (m : SnapCommunicatorMessage) :
    (d.processMessage now source m).getD (d, []) = (d, []) ∨ d.processMessage now source m = d.dispatch now source m := by
  unfold processMessage
  split
  · cases m.getIntegerParameter "broadcast_timeout" with
    | none => exact .inl rfl
    | some timeout =>
      simp only [Option.bind_eq_bind, Option.bind_some]
      split
      · exact .inl rfl
      · cases m.getParameter "broadcast_msgid" with
        | none => exact .inl rfl
        | some msgid =>
          simp only [Option.bind_some]
          split
          · exact .inl rfl
          · exact .inr rfl
  · exact .inr rfl

theorem forwarded_message (d : Daemon) (now : Int) (source : Connection) (m : SnapCommunicatorMessage) :
    Forwarded d m (d.localStep (.message now source m)) := by
  change Forwarded d m ((d.processMessage now source m).getD (d, []))
  rcases processMessage_cases d now source m with heq | heq
  · rw [heq]
    exact .same
  · rw [heq]
    cases hdispatch : d.dispatch now source m with
    | none => exact .same
    | some r =>
      rw [dispatch_eq] at hdispatch
      split at hdispatch
      · cases hdispatch
        exact .same
      · split at hdispatch
        · split at hdispatch
          · cases hdispatch
            exact .same
          · exact forwarded_broadcastMessage hdispatch
        · exact forwarded_forwardToService hdispatch

/-- Whether the service has a connection that messages are sent over. -/
def hasService (service : QString) (d : Daemon) : Bool := d.connections.any (Network.isService service)

/-- Nothing is sent to the service but what came for it. -/
theorem sentTo_of_copies {sends : Sends} (hservice : ServiceName service) (h : Copies m sends)
    (hm : addressed d.serverName service m = false) : sentTo d.serverName service sends = [] := by
  refine List.filterMap_eq_nil_iff.mpr fun e he => if_neg fun haddressed => ?_
  rw [addressed, Bool.and_eq_true, decide_eq_true_eq] at haddressed
  rcases h e he with hnil | ⟨hcopy, hserver⟩
  · exact hservice.ne_nil (haddressed.1 ▸ hnil)
  · rw [addressed, ← hcopy, ← hserver, haddressed.1, haddressed.2] at hm
    simp at hm

theorem sentTo_report (hservice : ServiceName service) : sentTo d.serverName service (transmissionReport source m) = [] := by
  refine List.filterMap_eq_nil_iff.mpr fun e he => if_neg fun haddressed => hservice.ne_nil ?_
  rw [addressed, Bool.and_eq_true, decide_eq_true_eq] at haddressed
  rw [← haddressed.1, (Network.isReport_of_mem he).1]

/-- The connections of the service are of this server. -/
def OfServer (service : QString) (d : Daemon) : Prop :=
  ∀ c ∈ d.connections, Network.isService service c = true → c.serverName = d.serverName

/-- A message for one service of this server is dropped, or `forwardToService()` has it. -/
theorem localStep_addressed (now : Int) (source : Connection) (hservice : ServiceName service) (hm : addressed d.serverName service m = true) :
    d.localStep (.message now source m) = (d, []) ∨
      d.localStep (.message now source m) = (d.forwardToService now source (d.serverOf m) m).getD (d, []) := by
  change (d.processMessage now source m).getD (d, []) = _ ∨ (d.processMessage now source m).getD (d, []) = _
  rcases processMessage_cases d now source m with heq | heq
  · exact .inl heq
  · rw [heq, dispatch_eq, (addressed_iff.mp hm).1, hservice.single]
    split
    · exact .inl rfl
    · exact .inr rfl

/-- A message that waits for the service, if it may. -/
def keep (deadline : Option Int) (m : SnapCommunicatorMessage) (d : Daemon) : Daemon :=
  { d with localMessageCache := d.localMessageCache ++ deadline.toList.map fun t => CachedMessage.mk t m }

theorem message_sent (now : Int) (source : Connection) (hservice : ServiceName service) (hserver : OfServer service d)
    (hm : addressed d.serverName service m = true) (hopen : d.hasService service = true) :
    (d.localStep (.message now source m)).1 = d ∧
      ∃ takes : Bool, sentTo d.serverName service (d.localStep (.message now source m)).2 = if takes then [m] else [] := by
  rcases localStep_addressed now source hservice hm with heq | heq
  · rw [heq]
    exact ⟨rfl, false, rfl⟩
  · obtain ⟨hname, hlocal⟩ := addressed_iff.mp hm
    rw [heq, forwardToService, hname]
    rcases findService_cases (d.serverOf m) service (allServers d m) d.connections [] with ⟨c, -, -, hfind⟩ | ⟨-, hnone⟩
    · have hfind' : findService (d.serverOf m) service (decide (d.serverOf m = []) || decide (d.serverOf m = ['*'])) d.connections
          [] = .inl c := hfind
      simp only [hfind', Option.getD_some]
      refine ⟨trivial, verifyCommand c m, ?_⟩
      split <;> simp [sentTo, hm]
    · obtain ⟨c, hc, hservice⟩ := List.any_eq_true.mp hopen
      have hnot := hnone c hc hservice
      rw [hserver c hc hservice] at hnot
      exact absurd hlocal hnot

theorem message_cached (now : Int) (source : Connection) (hservice : ServiceName service) (hlisted : service ∈ d.localServicesList)
    (hm : addressed d.serverName service m = true) (hclosed : d.hasService service = false) :
    ∃ deadline : Option Int, (d.localStep (.message now source m)).1 = d.keep deadline m ∧
      sentTo d.serverName service (d.localStep (.message now source m)).2 = [] := by
  rcases localStep_addressed now source hservice hm with heq | heq
  · rw [heq]
    exact ⟨none, by simp [keep], rfl⟩
  · obtain ⟨hname, hlocal⟩ := addressed_iff.mp hm
    rw [heq, forwardToService, hname]
    rcases findService_cases (d.serverOf m) service (allServers d m) d.connections [] with ⟨c, hc, hs, -⟩ | ⟨⟨all, hfind⟩, -⟩
    · rw [hasService, List.any_eq_false] at hclosed
      exact absurd hs (hclosed c hc)
    · have hfind' : findService (d.serverOf m) service (decide (d.serverOf m = []) || decide (d.serverOf m = ['*'])) d.connections
          [] = .inr all := hfind
      have hlist : ((decide (d.serverOf m = []) || decide (d.serverOf m = ['*']) || decide (d.serverOf m = d.serverName)) &&
          d.localServicesList.contains service) = true := by
        rw [Bool.and_eq_true, Bool.or_eq_true, decide_eq_true_eq, List.contains_iff_mem]
        exact ⟨hlocal, hlisted⟩
      obtain ⟨deadline, hcache⟩ := cacheMessage_eq d now m
      simp only [hfind', hlist, if_true, Option.getD_some]
      exact ⟨deadline, hcache, sentTo_report hservice⟩

/-! ### What a service does -/

theorem flush_fst (c : Connection) (name : QString) (l : List CachedMessage) :
    (flush c name l).1 = l.filter fun m => !decide (m.message.service = name) := by
  fun_induction flush c name l with
  | case1 => rfl
  | case2 m l rest sent hflush hname ih => simp [hname, ← ih, hflush]
  | case3 m l rest sent hflush hname ih => simp [hname, ← ih, hflush]

theorem flush_snd (c : Connection) (name : QString) (l : List CachedMessage) :
    (flush c name l).2 = (l.filter fun m => decide (m.message.service = name)).map fun m => (c, m.message) := by
  fun_induction flush c name l with
  | case1 => rfl
  | case2 m l rest sent hflush hname ih => simp [hname, ← ih, hflush]
  | case3 m l rest sent hflush hname ih => simp [hname, ← ih, hflush]

/-- The messages that have not expired. -/
def unexpired (now : Int) (l : List CachedMessage) : List CachedMessage := l.filter fun m => decide (now ≤ m.timeoutTimestamp)

theorem register_eq (d : Daemon) (now : Int) (c : Connection) {name : QString} (h : registerName m = some name) : d.register now c m =
    ({ d with
        connections := d.connections.map fun c' => if c'.pointer = c.pointer then named name c' else c'
        localMessageCache := (unexpired now d.localMessageCache).filter fun m => !decide (m.message.service = name) },
      (named name c, { command := "HELP".toList }) :: (named name c, { command := "READY".toList }) ::
        (cachedFor name { d with localMessageCache := unexpired now d.localMessageCache }).map fun m => (named name c, m.message)) := by
  have hexpired : (d.localMessageCache.filter fun m => !decide (now > m.timeoutTimestamp)) = unexpired now d.localMessageCache :=
    List.filter_congr fun m _ => (decide_not ..).symm.trans (decide_eq_decide.mpr Int.not_lt)
  unfold register
  rw [h]
  simp only [hexpired, flush_fst, flush_snd, cachedFor]

theorem cachedFor_unexpired (now : Int) (d : Daemon) :
    cachedFor service { d with localMessageCache := unexpired now d.localMessageCache } = unexpired now (cachedFor service d) := by
  simp only [cachedFor, unexpired, List.filter_filter, Bool.and_comm]

/-- What the cache holds for a service is for this server. -/
def CachedOfServer (service : QString) (d : Daemon) : Prop :=
  ∀ m ∈ cachedFor service d, addressed d.serverName service m.message = true

theorem sentTo_helpReady (hservice : ServiceName service) (c : Connection) (sends : Sends) :
    sentTo d.serverName service ((c, { command := "HELP".toList }) :: (c, { command := "READY".toList }) :: sends) =
      sentTo d.serverName service sends := by
  have hne : ¬ [] = service := fun heq => hservice.ne_nil heq.symm
  simp [sentTo, addressed, hne]

/-- A `REGISTER` of the service sends all that is cached for it and has not expired. -/
theorem register_self (now : Int) (c : Connection) (hservice : ServiceName service) (hcached : CachedOfServer service d)
    (h : registerName m = some service) : cachedFor service (d.register now c m).1 = [] ∧
      sentTo d.serverName service (d.register now c m).2 = (unexpired now (cachedFor service d)).map CachedMessage.message := by
  rw [register_eq _ _ _ h]
  refine ⟨?_, ?_⟩
  · simp [cachedFor, List.filter_filter]
  · rw [sentTo_helpReady hservice, cachedFor_unexpired, sentTo, List.filterMap_map]
    rw [← List.filterMap_eq_map]
    refine List.filterMap_congr fun m hm => ?_
    exact if_pos (hcached m (List.mem_of_mem_filter hm))

/-- A `REGISTER` of another service sends nothing to it, and removes nothing but what has expired. -/
theorem register_other (now : Int) (c : Connection) {name : QString} (hservice : ServiceName service) (h : registerName m = some name)
    (hne : name ≠ service) : cachedFor service (d.register now c m).1 = unexpired now (cachedFor service d) ∧
      sentTo d.serverName service (d.register now c m).2 = [] := by
  rw [register_eq _ _ _ h]
  refine ⟨?_, ?_⟩
  · rw [← cachedFor_unexpired]
    simp only [cachedFor, List.filter_filter]
    refine List.filter_congr fun m _ => ?_
    by_cases hm : m.message.service = service
    · simp [hm, Ne.symm hne]
    · simp [hm]
  · rw [sentTo_helpReady hservice]
    refine List.filterMap_eq_nil_iff.mpr fun e he => if_neg fun haddressed => hne ?_
    obtain ⟨m, hm, rfl⟩ := List.mem_map.mp he
    rw [addressed, Bool.and_eq_true, decide_eq_true_eq] at haddressed
    rw [cachedFor, List.mem_filter, decide_eq_true_eq] at hm
    exact hm.2.symm.trans haddressed.1

/-! ### The mailbox of a service -/

/-- What the daemon is to one of its services. -/
def mailbox (service : QString) (d : Daemon) : Mailbox SnapCommunicatorMessage where
  isOpen := d.hasService service
  waiting := (cachedFor service d).map fun m => (m.timeoutTimestamp, m.message)

/-- What an event is to it. -/
inductive Delivers (serverName service : QString) : LocalEvent → Mailbox.Event SnapCommunicatorMessage → Prop
  | put {now : Int} {source : Connection} {m : SnapCommunicatorMessage} (deadline : Option Int) (takes : Bool) :
      addressed serverName service m = true → Delivers serverName service (.message now source m) (.put m deadline takes)
  | fetch {now : Int} {c : Connection} {m : SnapCommunicatorMessage} (opens : Bool) :
      registerName m = some service → Delivers serverName service (.register now c m) (.fetch now opens)
  | expire {now : Int} {c : Connection} {m : SnapCommunicatorMessage} {name : QString} (stays : Bool) :
      registerName m = some name → name ≠ service → Delivers serverName service (.register now c m) (.expire now stays)
  | leave {e : LocalEvent} (stays : Bool) :
      brings serverName service e = none → e.clock = none → e.registers = none → Delivers serverName service e (.leave stays)

/-- What holds of the daemon between the events. -/
structure Serving (serverName service : QString) (d : Daemon) : Prop where
  serverName_eq : d.serverName = serverName
  listed : service ∈ d.localServicesList
  ofServer : OfServer service d
  cached : CachedOfServer service d

theorem waiting_unexpired (now : Int) (l : List CachedMessage) :
    (unexpired now l).map (fun m => (m.timeoutTimestamp, m.message)) =
      Mailbox.alive now (l.map fun m => (m.timeoutTimestamp, m.message)) := by
  rw [unexpired, Mailbox.alive, List.filter_map]
  rfl

/-- The event as it is to the mailbox, and what holds of the daemon afterwards. -/
def Simulated (serverName service : QString) (d : Daemon) (e : LocalEvent) : Prop :=
  Serving serverName service (d.localStep e).1 ∧ ∃ e', Delivers serverName service e e' ∧
    (d.mailbox service).step e' = ((d.localStep e).1.mailbox service, sentTo serverName service (d.localStep e).2)

section
variable {serverName : QString} {d' : Daemon}

theorem simulated_message (hservice : ServiceName service) (h : Serving serverName service d) (now : Int) (source : Connection)
    (m : SnapCommunicatorMessage) : Simulated serverName service d (.message now source m) := by
  obtain ⟨rfl, hlisted, hserver, hcached⟩ := h
  unfold Simulated
  cases hm : addressed d.serverName service m with
  | true =>
    cases hopen : d.hasService service with
    | true =>
      obtain ⟨hstate, takes, hsent⟩ := message_sent now source hservice hserver hm hopen
      rw [hstate, hsent]
      exact ⟨⟨rfl, hlisted, hserver, hcached⟩, _, .put none takes hm, by simp [mailbox, Mailbox.step, hopen]⟩
    | false =>
      obtain ⟨deadline, hstate, hsent⟩ := message_cached now source hservice hlisted hm hopen
      have hname := (addressed_iff.mp hm).1
      have hkeep : cachedFor service (d.keep deadline m) =
          cachedFor service d ++ deadline.toList.map fun t => CachedMessage.mk t m := by
        cases deadline <;> simp [cachedFor, keep, hname]
      rw [hstate, hsent]
      refine ⟨⟨rfl, hlisted, hserver, fun c hc => ?_⟩, _, .put deadline false hm, ?_⟩
      · rw [hkeep, List.mem_append] at hc
        rcases hc with hc | hc
        · exact hcached c hc
        · obtain ⟨t, -, rfl⟩ := List.mem_map.mp hc
          exact hm
      · have hopen' : (d.keep deadline m).hasService service = false := hopen
        simp [mailbox, Mailbox.step, hopen, hopen', hkeep, Function.comp_def]
  | false =>
    have hforwarded := forwarded_message d now source m
    have hcache : cachedFor service (d.localStep (.message now source m)).1 = cachedFor service d := by
      rcases hforwarded.cache with heq | ⟨haddressed, t, heq⟩
      · rw [cachedFor, heq, cachedFor]
      · have hne : m.service ≠ service := fun hname => by
          rw [hname, hm] at haddressed
          cases haddressed
        simp [cachedFor, heq, hne]
    refine ⟨⟨hforwarded.serverName, hforwarded.localServicesList ▸ hlisted, ?_, ?_⟩, _, .leave true (by simp [brings, hm]) rfl rfl, ?_⟩
    · unfold OfServer
      rw [hforwarded.connections, hforwarded.serverName]
      exact hserver
    · unfold CachedOfServer
      rw [hcache, hforwarded.serverName]
      exact hcached
    · rw [sentTo_of_copies hservice hforwarded.copies hm]
      simp [mailbox, Mailbox.step, hcache, hasService, hforwarded.connections]

/-- An event that only changes the connections, and gives none of them to the service. -/
theorem simulated_of_connections {e : LocalEvent} (h : Serving serverName service d) (hsent : (d.localStep e).2 = [])
    (hname : (d.localStep e).1.serverName = d.serverName) (hlist : (d.localStep e).1.localServicesList = d.localServicesList)
    (hcache : (d.localStep e).1.localMessageCache = d.localMessageCache)
    (hconnections : ∀ c ∈ (d.localStep e).1.connections, Network.isService service c = true →
      ∃ c' ∈ d.connections, Network.isService service c' = true ∧ c'.serverName = c.serverName)
    (hbrings : brings serverName service e = none) (hclock : e.clock = none) (hregisters : e.registers = none) :
    Simulated serverName service d e := by
  obtain ⟨rfl, hlisted, hserver, hcached⟩ := h
  have hcache' : cachedFor service (d.localStep e).1 = cachedFor service d := by rw [cachedFor, hcache, cachedFor]
  refine ⟨⟨hname, hlist ▸ hlisted, fun c hc hs => ?_, ?_⟩, _,
    .leave ((d.localStep e).1.hasService service) hbrings hclock hregisters, ?_⟩
  · obtain ⟨c', hc', hs', heq⟩ := hconnections c hc hs
    rw [hname, ← heq]
    exact hserver c' hc' hs'
  · unfold CachedOfServer
    rw [hcache', hname]
    exact hcached
  · have hopen : (d.hasService service && (d.localStep e).1.hasService service) = (d.localStep e).1.hasService service := by
      rw [Bool.and_eq_right_iff_imp]
      intro hany
      obtain ⟨c, hc, hs⟩ := List.any_eq_true.mp hany
      obtain ⟨c', hc', hs', -⟩ := hconnections c hc hs
      exact List.any_eq_true.mpr ⟨c', hc', hs'⟩
    rw [hsent]
    simp [mailbox, Mailbox.step, hcache', hopen, sentTo]

theorem simulated_register (hservice : ServiceName service) (h : Serving serverName service d) {c : Connection}
    (hfrom : FromService d (.register now c m)) : Simulated serverName service d (.register now c m) := by
  have hstep : d.localStep (.register now c m) = d.register now c m := rfl
  cases hname : registerName m with
  | none =>
    have heq : d.register now c m = (d, []) := by
      unfold register
      rw [hname]
    refine simulated_of_connections h ?_ ?_ ?_ ?_ ?_ rfl ?_ hname
    · rw [hstep, heq]
    · rw [hstep, heq]
    · rw [hstep, heq]
    · rw [hstep, heq]
    · rw [hstep, heq]
      exact fun c hc hs => ⟨c, hc, hs, rfl⟩
    · rw [LocalEvent.clock, hname, Option.map_none]
  | some name =>
    obtain ⟨rfl, hlisted, hserver, hcached⟩ := h
    have heq := register_eq d now c hname
    have hconnections : (d.register now c m).1.connections =
        d.connections.map fun c' => if c'.pointer = c.pointer then named name c' else c' := by rw [heq]
    have hofServer : OfServer service (d.register now c m).1 := by
      intro c' hc' hs
      rw [hconnections] at hc'
      obtain ⟨c₀, hc₀, rfl⟩ := List.mem_map.mp hc'
      rw [heq]
      by_cases hp : c₀.pointer = c.pointer
      · rw [if_pos hp] at hs ⊢
        simp only [Network.isService, Bool.and_eq_true, decide_eq_true_eq] at hs
        exact (hfrom c₀ hc₀ hp).resolve_left hs.1
      · rw [if_neg hp] at hs ⊢
        exact hserver c₀ hc₀ hs
    unfold Simulated
    rw [hstep]
    by_cases hself : name = service
    · subst hself
      obtain ⟨hcache, hsent⟩ := register_self now c hservice hcached hname
      refine ⟨⟨by rw [heq], by rw [heq]; exact hlisted, hofServer, fun e he => ?_⟩, _,
        .fetch ((d.register now c m).1.hasService name) hname, ?_⟩
      · rw [hcache] at he
        cases he
      · rw [hsent, mailbox, Mailbox.step, ← waiting_unexpired, List.map_map, mailbox, hcache]
        rfl
    · obtain ⟨hcache, hsent⟩ := register_other now c hservice hname hself
      refine ⟨⟨by rw [heq], by rw [heq]; exact hlisted, hofServer, fun e he => ?_⟩, _,
        .expire ((d.register now c m).1.hasService service) hname hself, ?_⟩
      · rw [hcache] at he
        rw [heq]
        exact hcached e (List.mem_of_mem_filter he)
      · have hopen : (d.hasService service && (d.register now c m).1.hasService service) =
            (d.register now c m).1.hasService service := by
          rw [Bool.and_eq_right_iff_imp]
          intro hany
          obtain ⟨c', hc', hs⟩ := List.any_eq_true.mp hany
          rw [hconnections] at hc'
          obtain ⟨c₀, hc₀, rfl⟩ := List.mem_map.mp hc'
          by_cases hp : c₀.pointer = c.pointer
          · rw [if_pos hp] at hs
            simp [Network.isService, named, hself] at hs
          · rw [if_neg hp] at hs
            exact List.any_eq_true.mpr ⟨c₀, hc₀, hs⟩
        rw [hsent, mailbox, Mailbox.step, mailbox, hcache, waiting_unexpired, hopen]

/-- What is accepted has a name with a space. -/
theorem accept_eq (d : Daemon) (pointer : Nat) (isLocal : Bool) (remoteAddress : QString) (address : Address) :
    ∃ new, d.accept pointer isLocal remoteAddress address = { d with connections := d.connections ++ new } ∧
      ∀ c ∈ new, ' ' ∈ c.name := by
  unfold accept
  split
  · exact ⟨_, rfl, fun c hc => by rw [List.mem_singleton.mp hc]; simp⟩
  · split
    · exact ⟨[], by simp, fun c hc => by cases hc⟩
    · exact ⟨_, rfl, fun c hc => by rw [List.mem_singleton.mp hc]; simp⟩

theorem simulated (hservice : ServiceName service) (h : Serving serverName service d) (e : LocalEvent) (hfrom : FromService d e) :
    Simulated serverName service d e := by
  cases e with
  | message now source m => exact simulated_message hservice h now source m
  | register now c m => exact simulated_register hservice h hfrom
  | accept pointer isLocal remoteAddress address =>
    obtain ⟨new, hnew, hspace⟩ := accept_eq d pointer isLocal remoteAddress address
    refine simulated_of_connections h rfl ?_ ?_ ?_ ?_ rfl rfl rfl <;> rw [localStep, hnew]
    intro c hc hs
    rcases List.mem_append.mp hc with hc | hc
    · exact ⟨c, hc, hs, rfl⟩
    · simp only [Network.isService, Bool.and_eq_true, decide_eq_true_eq] at hs
      exact absurd (hs.2.2 ▸ hspace c hc) hservice.noSpace
  | commands pointer commands =>
    refine simulated_of_connections h rfl rfl rfl rfl (fun c hc hs => ?_) rfl rfl rfl
    obtain ⟨c₀, hc₀, rfl⟩ := List.mem_map.mp hc
    by_cases hp : c₀.pointer = pointer
    · rw [if_pos hp] at hs ⊢
      exact ⟨c₀, hc₀, hs, rfl⟩
    · rw [if_neg hp] at hs ⊢
      exact ⟨c₀, hc₀, hs, rfl⟩
  | unregister pointer m =>
    have hsubset : (d.unregister pointer m).connections ⊆ d.connections := by
      unfold unregister
      split
      · exact List.filter_subset_self _
      · exact List.Subset.refl _
    refine simulated_of_connections h rfl ?_ ?_ ?_ (fun c hc hs => ⟨c, hsubset hc, hs, rfl⟩) rfl rfl rfl <;>
    · simp only [localStep, unregister]
      split <;> rfl

/-! ### Runs of the daemon -/

theorem Fresh.serving (h : Fresh d) (hservice : ServiceName service) (hlisted : service ∈ d.localServicesList) :
    Serving d.serverName service d := by
  refine ⟨rfl, hlisted, fun c hc hs => ?_, fun m hm => ?_⟩
  · simp only [Network.isService, Bool.and_eq_true, decide_eq_true_eq] at hs
    exact absurd (hs.2.2 ▸ h.2 c hc) hservice.noSpace
  · rw [cachedFor, h.1] at hm
    cases hm

/-- The daemon is to the service what a mailbox is. -/
theorem mailbox_run (hservice : ServiceName service) (h : Serving serverName service d) {es : List LocalEvent}
    (hfrom : Trace.Along (fun d e => (localStep d e).1) FromService d es) :
    ∃ es', List.Forall₂ (Delivers serverName service) es es' ∧
      (d.mailbox service).run es' = ((d.localRun es).1.mailbox service, sentTo serverName service (d.localRun es).2) :=
  Trace.run_simulation (f := mailbox service) (I := Serving serverName service) h hfrom
    fun _ e hd he => simulated hservice hd e he

theorem Serving.localRun (hservice : ServiceName service) (h : Serving serverName service d) {es : List LocalEvent}
    (hfrom : Trace.Along (fun d e => (localStep d e).1) FromService d es) : Serving serverName service (d.localRun es).1 := by
  unfold Daemon.localRun
  rw [Trace.run_fst]
  exact hfrom.invariant h fun _ e hd he => (simulated hservice hd e he).1

theorem Delivers.brings_eq {e : LocalEvent} {e' : Mailbox.Event SnapCommunicatorMessage} (h : Delivers serverName service e e') :
    e'.message = brings serverName service e := by
  cases h with
  | put deadline takes hm => exact (if_pos hm).symm
  | fetch => rfl
  | expire => rfl
  | leave stays hbrings => exact hbrings.symm

theorem Delivers.clock_eq {e : LocalEvent} {e' : Mailbox.Event SnapCommunicatorMessage} (h : Delivers serverName service e e')
    (hother : e.registers ≠ some service) : e'.clock = e.clock ∧ e'.isFetch = false := by
  cases h with
  | put deadline takes hm => exact ⟨rfl, rfl⟩
  | fetch opens hname => exact absurd hname hother
  | expire stays hname hne => exact ⟨by rw [LocalEvent.clock, hname]; rfl, rfl⟩
  | leave stays hbrings hclock => exact ⟨hclock.symm, rfl⟩

theorem exists_of_forall₂ {α β : Type} {R : α → β → Prop} {l : List α} {l' : List β} (h : List.Forall₂ R l l') {b : β} (hb : b ∈ l') :
    ∃ a ∈ l, R a b := by
  induction h with
  | nil => cases hb
  | cons hR _ ih =>
    rcases List.mem_cons.mp hb with rfl | hb
    · exact ⟨_, List.mem_cons_self, hR⟩
    · obtain ⟨a, ha, hR'⟩ := ih hb
      exact ⟨a, List.mem_cons_of_mem _ ha, hR'⟩

theorem filterMap_eq_of_forall₂ {α β γ : Type} {R : α → β → Prop} {f : α → Option γ} {g : β → Option γ} {l : List α} {l' : List β}
    (h : List.Forall₂ R l l') (heq : ∀ a ∈ l, ∀ b, R a b → g b = f a) : l'.filterMap g = l.filterMap f := by
  induction h with
  | nil => rfl
  | cons hR _ ih =>
    rw [List.filterMap_cons, List.filterMap_cons, heq _ List.mem_cons_self _ hR,
      ih fun a ha b hb => heq a (List.mem_cons_of_mem _ ha) b hb]

end

end

/-- What becomes of the messages for a service in the run. A message in the cache expires when a `REGISTER` reads a clock
    beyond its time. -/
structure Delivered (service : QString) (d : Daemon) (es : List LocalEvent) : Prop where
  /-- Each message is sent at most once, in the order in which they came. -/
  inOrder : (sentTo d.serverName service (d.localRun es).2).Sublist (es.filterMap (brings d.serverName service))
  /-- What is cached is sent at the next `REGISTER` of the service unless it has expired, in front of what was cached since. -/
  atRegister : ∀ es₁ es₂ es₃ now c m, es = es₁ ++ es₂ ++ .register now c m :: es₃ → registerName m = some service →
    (∀ e ∈ es₂, e.registers ≠ some service) → ∃ new,
      sentTo d.serverName service ((d.localRun (es₁ ++ es₂)).1.register now c m).2 =
        ((cachedFor service (d.localRun es₁).1).filter fun e =>
          (es₂.filterMap LocalEvent.clock ++ [now]).all fun t => decide (t ≤ e.timeoutTimestamp)).map CachedMessage.message ++ new ∧
      new.Sublist (es₂.filterMap (brings d.serverName service))
  /-- A `REGISTER` of another service sends none of it and removes only what has expired. -/
  atOther : ∀ es₁ es₂ now c m name, es = es₁ ++ .register now c m :: es₂ → registerName m = some name → name ≠ service →
    sentTo d.serverName service ((d.localRun es₁).1.register now c m).2 = [] ∧
      cachedFor service ((d.localRun es₁).1.register now c m).1 = unexpired now (cachedFor service (d.localRun es₁).1)

section
variable {d : Daemon} {service : QString} {es : List LocalEvent}

theorem localRun_append (d : Daemon) (es es' : List LocalEvent) : (d.localRun (es ++ es')).1 = ((d.localRun es).1.localRun es').1 := by
  simp only [localRun, Trace.run_fst, Trace.after_append]

theorem sentTo_localRun (hservice : ServiceName service) (hlisted : service ∈ d.localServicesList) (hfresh : Fresh d)
    (hfrom : Trace.Along (fun d e => (localStep d e).1) FromService d es) :
    (sentTo d.serverName service (d.localRun es).2).Sublist (es.filterMap (brings d.serverName service)) := by
  obtain ⟨es', hdelivers, hrun⟩ := mailbox_run hservice (hfresh.serving hservice hlisted) hfrom
  have hempty : (d.mailbox service).waiting = [] := by simp [mailbox, cachedFor, hfresh.1]
  have hsub := Mailbox.run_sublist es' (s := d.mailbox service) fun _ => hempty
  rwa [hrun, hempty, List.map_nil, List.nil_append, filterMap_eq_of_forall₂ hdelivers fun e _ e' he => he.brings_eq] at hsub

theorem sentTo_register (hservice : ServiceName service) {serverName : QString} (h : Serving serverName service d)
    (hfrom : Trace.Along (fun d e => (localStep d e).1) FromService d es) (hother : ∀ e ∈ es, e.registers ≠ some service)
    {now : Int} {c : Connection} {m : SnapCommunicatorMessage} (hname : registerName m = some service)
    (hregister : FromService (d.localRun es).1 (.register now c m)) : ∃ new,
      sentTo serverName service ((d.localRun es).1.register now c m).2 =
        ((cachedFor service d).filter fun e =>
          (es.filterMap LocalEvent.clock ++ [now]).all fun t => decide (t ≤ e.timeoutTimestamp)).map CachedMessage.message ++ new ∧
      new.Sublist (es.filterMap (brings serverName service)) := by
  obtain ⟨es', hdelivers, hrun⟩ := mailbox_run hservice h hfrom
  obtain ⟨-, e', hdelivers', hstep⟩ := simulated hservice (h.localRun hservice hfrom) _ hregister
  have hclock : es'.filterMap Mailbox.Event.clock = es.filterMap LocalEvent.clock :=
    filterMap_eq_of_forall₂ hdelivers fun e he e' hd => (hd.clock_eq (hother e he)).1
  have hfetch : ∀ e' ∈ es', e'.isFetch = false := by
    intro e' he'
    obtain ⟨e, he, hd⟩ := exists_of_forall₂ hdelivers he'
    exact (hd.clock_eq (hother e he)).2
  cases hdelivers' with
  | expire stays hname' hne =>
    rw [hname] at hname'
    exact absurd (Option.some.inj hname').symm hne
  | leave stays hbrings hclock hregisters =>
    rw [LocalEvent.registers, hname] at hregisters
    cases hregisters
  | fetch opens _ =>
    obtain ⟨new, heq, hsub⟩ := Mailbox.fetch_after_run (s := d.mailbox service) hfetch now opens
    rw [hrun, hstep, hclock] at heq
    rw [filterMap_eq_of_forall₂ hdelivers fun e _ e' he => he.brings_eq] at hsub
    have hwaiting : (d.mailbox service).waiting = (cachedFor service d).map fun m => (m.timeoutTimestamp, m.message) := rfl
    rw [hwaiting, List.filter_map, List.map_map] at heq
    exact ⟨new, heq, hsub⟩

/-- A daemon with one service. -/
def imagesDaemon : Daemon where
  serverName := "server".toList
  myAddress := { ip := "10.0.1.1".toList, isIpv4 := true, networkType := .privateNetwork }
  connections := []
  localServicesList := ["images".toList]

/-- Its connection. -/
def imagesClient : Connection where
  pointer := 7
  kind := .serviceConnection
  name := "client connection".toList
  serverName := "server".toList
  connectionType := .down
  address := { ip := "127.0.0.3".toList, isIpv4 := true, networkType := .loopback }

/-- A message comes, then the service connects and registers, then another message. -/
def imagesEvents : List LocalEvent :=
  [.message 0 imagesClient { service := "images".toList, command := "IMAGE".toList },
    .accept 7 true [] imagesClient.address,
    .register 5 imagesClient (({ command := "REGISTER".toList } : SnapCommunicatorMessage).withParameter "service" "images".toList
      |>.withParameter "version" "1".toList),
    .message 6 imagesClient { service := "images".toList, command := "RESET".toList }]

end

end Daemon
end Snapwebsites
