import Snapwebsites.Communicator.Message

/-! # The daemon that forwards messages

`snap_communicator_server::process_message()` from the check of `broadcast_msgid` to the forwarding,
and `broadcast_message()`. What the daemon does with the commands that are for itself is left out, and
so is the debug build. Of the connections only those to services and to other daemons are listed; the
loops pass over the others. The clock is read once for each message. -/

namespace Snapwebsites
open QString

/-! ### Addresses and connections -/

inductive NetworkType
  | loopback | privateNetwork | publicNetwork | other
  deriving DecidableEq

inductive StringIp
  | only | brackets
  deriving DecidableEq

/-- An `addr::addr`, by the text of its IP. -/
structure Address where
  ip : QString
  isIpv4 : Bool
  networkType : NetworkType
  ip_ne_nil : ip ≠ [] := by decide
  ip_plain : ',' ∉ ip ∧ '[' ∉ ip := by decide
  deriving DecidableEq

def Address.toIpv4or6String (a : Address) : StringIp → QString
  | .only => a.ip
  | .brackets => if a.isIpv4 then a.ip else '[' :: a.ip ++ [']']

inductive ConnectionKind
  | serviceConnection | remoteSnapCommunicator
  deriving DecidableEq

inductive ConnectionType
  | down | localService | remote
  deriving DecidableEq

/-- A connection of the list of `f_communicator`; `pointer` tells it from the others. -/
structure Connection where
  pointer : Nat
  kind : ConnectionKind
  name : QString
  serverName : QString
  connectionType : ConnectionType
  address : Address
  understoodCommands : List QString := []
  deriving DecidableEq

def Connection.understandCommand (c : Connection) (command : QString) : Bool := c.understoodCommands.contains command

def Connection.hasCommands (c : Connection) : Bool := !c.understoodCommands.isEmpty

/-- `verify_command()`; `false` is the exception. -/
def verifyCommand (c : Connection) (message : SnapCommunicatorMessage) : Bool :=
  !c.hasCommands || c.understandCommand message.command

/-! ### Parameters -/

namespace SnapCommunicatorMessage

def hasParameter (m : SnapCommunicatorMessage) (name : String) : Bool := m.parameters.contains name.toList

def getParameter (m : SnapCommunicatorMessage) (name : String) : Option QString := m.parameters.find? name.toList

def getIntegerParameter (m : SnapCommunicatorMessage) (name : String) : Option Int := do
  let value ← m.getParameter name
  toLongLong value

/-- `addParameter` under a name that is valid. -/
def withParameter (m : SnapCommunicatorMessage) (name : String) (value : QString) : SnapCommunicatorMessage :=
  { m with parameters := m.parameters.insert name.toList value }

end SnapCommunicatorMessage

/-! ### The daemon -/

structure CachedMessage where
  timeoutTimestamp : Int
  message : SnapCommunicatorMessage
  deriving DecidableEq

structure Daemon where
  serverName : QString
  myAddress : Address
  connections : List Connection
  localServicesList : List QString := []
  localMessageCache : List CachedMessage := []
  receivedBroadcastMessages : SortedMap QString Int := ∅
  broadcastSequence : Int := 0
  deriving DecidableEq

/-- What was sent, over which connection. -/
abbrev Sends := List (Connection × SnapCommunicatorMessage)

namespace Daemon

/-- What `broadcast_message()` gathers while it goes over the connections: the informed neighbors, the
    connections to broadcast to and what has gone to local services. -/
structure Spread where
  informedNeighbors : List QString
  broadcastConnection : List Connection := []
  sent : Sends := []

def Spread.add (s : Spread) (c : Connection) : Spread :=
  let address := c.address.toIpv4or6String .only
  if s.informedNeighbors.contains address then s
  else { s with informedNeighbors := s.informedNeighbors ++ [address], broadcastConnection := s.broadcastConnection ++ [c] }

/-- One connection of the list, in a broadcast to services and, as far as `remote` and `all` say, to
    other daemons. -/
def Spread.step (message : SnapCommunicatorMessage) (remote all : Bool) (s : Spread) (c : Connection) : Spread :=
  match c.kind, c.address.networkType with
  | .serviceConnection, .loopback =>
    if c.understandCommand message.command then { s with sent := s.sent ++ [(c, message)] } else s
  | .remoteSnapCommunicator, .loopback => s
  | _, .privateNetwork => if remote then s.add c else s
  | _, .publicNetwork => if all then s.add c else s
  | _, .other => s

/-- The destination that decides how far a broadcast goes. -/
def broadcastDestination (message : SnapCommunicatorMessage) : QString :=
  if message.service = ['.'] ∨ message.service = ['?'] ∨ message.service = ['*'] then message.service
  else if message.server = [] then ['?']
  else message.server

/-- The choice of the connections; without a list of them, services and neighbors in reach. -/
def spread (d : Daemon) (message : SnapCommunicatorMessage) (acceptingRemoteConnections : List Connection)
    (hops : Int) (informed : List QString) : Spread :=
  if acceptingRemoteConnections = [] then
    let destination := broadcastDestination message
    let all := decide (hops < 5) && decide (destination = ['*'])
    let remote := decide (hops < 5) && (all || decide (destination = ['?']))
    d.connections.foldl (Spread.step message remote all) { informedNeighbors := informed }
  else acceptingRemoteConnections.foldl Spread.add { informedNeighbors := informed }

/-- The parameters that go with a broadcast. -/
structure Broadcast where
  msgid : QString
  timeout : Int
  informedNeighbors : QString
  hops : Int

/-- The message that is broadcast further, and the sequence number it may have used up. -/
def stamp (d : Daemon) (now : Int) (message : SnapCommunicatorMessage) (b : Broadcast) (informed : List QString) :
    SnapCommunicatorMessage :=
  let originator := d.myAddress.toIpv4or6String .brackets
  let informed := if informed.contains originator then informed else informed ++ [originator]
  let msgid := if b.msgid = [] then d.serverName ++ '-' :: number (d.broadcastSequence + 1) else b.msgid
  let timeout := if b.timeout = 0 then now + 10 else b.timeout
  message.withParameter "broadcast_msgid" msgid
    |>.withParameter "broadcast_hops" (number (b.hops + 1))
    |>.withParameter "broadcast_originator" originator
    |>.withParameter "broadcast_timeout" (number timeout)
    |>.withParameter "broadcast_informed_neighbors" (join ',' informed)

/-- The second half of `broadcast_message()`: the connections are chosen and the message goes out. -/
def broadcastWith (d : Daemon) (now : Int) (message : SnapCommunicatorMessage) (acceptingRemoteConnections : List Connection)
    (b : Broadcast) : Daemon × Sends :=
  let s := d.spread message acceptingRemoteConnections b.hops (splitParts ',' b.informedNeighbors)
  if s.broadcastConnection = [] then (d, s.sent)
  else
    let m := d.stamp now message b s.informedNeighbors
    ({ d with broadcastSequence := d.broadcastSequence + 1 }, s.sent ++ s.broadcastConnection.map fun c => (c, m))

/-- `broadcast_message()`; `none` is the exception of a missing or bad parameter. -/
def broadcastMessage (d : Daemon) (now : Int) (message : SnapCommunicatorMessage)
    (acceptingRemoteConnections : List Connection := []) : Option (Daemon × Sends) :=
  if message.hasParameter "broadcast_msgid" then do
    let timeout ← message.getIntegerParameter "broadcast_timeout"
    if timeout < now then some (d, [])
    else
      let msgid ← message.getParameter "broadcast_msgid"
      if d.receivedBroadcastMessages.contains msgid then some (d, [])
      else
        let received := (d.receivedBroadcastMessages.filter fun e => !decide (e.2 < now)).insert msgid timeout
        let informedNeighbors ← message.getParameter "broadcast_informed_neighbors"
        let hops ← message.getIntegerParameter "broadcast_hops"
        some ({ d with receivedBroadcastMessages := received }.broadcastWith now message acceptingRemoteConnections
          { msgid, timeout, informedNeighbors, hops })
  else some (d.broadcastWith now message acceptingRemoteConnections { msgid := [], timeout := 0, informedNeighbors := [], hops := 0 })

/-! ### Forwarding to a named service -/

/-- The loop over the connections: the service itself, which ends the loop, or the connections that
    lead to other daemons. -/
def findService (serverName service : QString) (allServers : Bool) : List Connection → List Connection → Connection ⊕ List Connection
  | [], accepting => .inr accepting
  | c :: l, accepting =>
    if c.serverName ≠ [] ∧ (allServers ∨ serverName = c.serverName) then
      match c.kind with
      | .serviceConnection =>
        if c.name = service then .inl c
        else if c.connectionType = .remote then findService serverName service allServers l (accepting ++ [c])
        else findService serverName service allServers l accepting
      | .remoteSnapCommunicator => findService serverName service allServers l (accepting ++ [c])
    else findService serverName service allServers l accepting

/-- The time a message may stay in the cache, from its `cache` parameter. -/
def cacheTtl (cache : QString) : Int :=
  let params := (cache.splitOn ';').foldl (fun params p => match p.splitOn '=' with
    | [name, value] => SortedMap.insert params name value
    | _ => params) (∅ : SortedMap QString QString)
  match params.find? "ttl".toList with
  | none => 60
  | some value => match toInt value with
    | none => 60
    | some ttl => if ttl < 10 ∨ ttl > 86400 then 60 else ttl

def cacheMessage (d : Daemon) (now : Int) (message : SnapCommunicatorMessage) : Daemon :=
  let cache := (message.getParameter "cache").getD []
  if cache = "no".toList then d
  else { d with localMessageCache := d.localMessageCache ++ [{ timeoutTimestamp := now + cacheTtl cache, message }] }

/-- The `transmission_report` lambda, for a message that came over the connection `source`. -/
def transmissionReport (source : Connection) (message : SnapCommunicatorMessage) : Sends :=
  if message.getParameter "transmission_report" = some "failure".toList then
    [(source, ({ command := "TRANSMISSIONREPORT".toList } : SnapCommunicatorMessage).withParameter "status" "failed".toList)]
  else []

def forwardToService (d : Daemon) (now : Int) (source : Connection) (serverName : QString)
    (message : SnapCommunicatorMessage) : Option (Daemon × Sends) :=
  let service := message.service
  let allServers := decide (serverName = []) || decide (serverName = ['*'])
  match findService serverName service allServers d.connections [] with
  | .inl c => some (d, if verifyCommand c message then [(c, message)] else [])
  | .inr accepting =>
    if (allServers || decide (serverName = d.serverName)) && d.localServicesList.contains service then
      some (d.cacheMessage now message, transmissionReport source message)
    else if serverName = d.serverName then some (d, transmissionReport source message)
    else if accepting = [] then some (d, [])
    else d.broadcastMessage now message accepting

/-! ### Processing a message -/

/-- The message is one of the commands of the daemon itself. -/
def isForUs (d : Daemon) (serverName : QString) (message : SnapCommunicatorMessage) : Bool :=
  (decide (serverName = []) || decide (serverName = d.serverName) || decide (serverName = ['*'])) &&
  (decide (message.service = []) || decide (message.service = "snapcommunicator".toList))

def isBroadcastService (service : QString) : Bool :=
  decide (service = ['*']) || decide (service = ['?']) || decide (service = ['.'])

/-- What `process_message()` does behind the check of the identifier. -/
def dispatch (d : Daemon) (now : Int) (source : Connection) (message : SnapCommunicatorMessage) : Option (Daemon × Sends) :=
  let serverName := if message.server = ['.'] then d.serverName else message.server
  if d.isForUs serverName message then some (d, [])
  else if isBroadcastService message.service then
    if serverName ≠ [] ∧ serverName ≠ ['*'] ∧ (message.service = ['*'] ∨ message.service = ['?']) then some (d, [])
    else d.broadcastMessage now message
  else d.forwardToService now source serverName message

/-- `process_message()`, except for the commands of the daemon itself. -/
def processMessage (d : Daemon) (now : Int) (source : Connection) (message : SnapCommunicatorMessage) :
    Option (Daemon × Sends) :=
  if message.hasParameter "broadcast_msgid" then do
    let timeout ← message.getIntegerParameter "broadcast_timeout"
    if timeout < now then some (d, [])
    else
      let msgid ← message.getParameter "broadcast_msgid"
      if d.receivedBroadcastMessages.contains msgid then some (d, [])
      else d.dispatch now source message
  else d.dispatch now source message

end Daemon
end Snapwebsites
