import Mathlib.Data.Finset.Basic
import Snapwebsites.Communicator.Daemon
import Snapwebsites.Communicator.Registry

/-! # The status of the cluster

`cluster_status()` of the communicator and the events that change what it counts: neighbors that are added and forgotten,
permanent connections that succeed, fail and hang up, connections from the listeners, and the messages by which two
communicators connect and disconnect. An exception ends the daemon. -/

namespace Snapwebsites
open QString

/-- The fields of a `base_connection`. -/
structure BaseConnection where
  connectionType : ConnectionType := .down
  serverName : QString := []
  understoodCommands : List QString := []
  remoteConnection : Bool := false
  deriving DecidableEq

def BaseConnection.setCommands (commands : QString) (b : BaseConnection) : BaseConnection :=
  let names := ((commands.splitOn ',').map trimmed).filter (· ≠ [])
  { b with understoodCommands := b.understoodCommands ++ names }

/-- What a `remote_snap_communicator` keeps beyond its permanent connection. -/
structure RemoteSnapCommunicator extends BaseConnection where
  connected : Bool := false
  sentFromServer : QString := []
  deriving DecidableEq

/-- A connection to a smaller address, by the text of its IP, or one from a listener, by its socket. -/
inductive Peer
  | permanent (addr : QString)
  | service (socket : Nat)
  deriving DecidableEq

structure ClusterServer where
  serverName : QString
  maxConnections : Nat
  explicitNeighbors : QString
  allNeighbors : SortedMap QString Bool := ∅
  remoteSnapcommunicators : RemoteCommunicatorConnections
  /-- The permanent connections of which something has changed since they were made. -/
  communicators : SortedMap QString RemoteSnapCommunicator := ∅
  services : SortedMap Nat BaseConnection := ∅
  clusterStatus : QString := []
  clusterComplete : QString := []
  totalCountSent : Nat := 0
  broadcasts : List SnapCommunicatorMessage := []
  sent : List (Peer × SnapCommunicatorMessage) := []

namespace ClusterServer

/-! ### Connections -/

def communicator (s : ClusterServer) (addr : QString) : RemoteSnapCommunicator := (s.communicators.find? addr).getD {}

def base (s : ClusterServer) : Peer → Option BaseConnection
  | .permanent addr => (s.remoteSnapcommunicators.smallerIps.find? addr).map fun _ => (s.communicator addr).toBaseConnection
  | .service socket => s.services.find? socket

/-- A connection from a listener is up until it is removed. -/
def isConnected (s : ClusterServer) : Peer → Bool
  | .permanent addr => (s.remoteSnapcommunicators.smallerIps.find? addr).any (·.connected)
  | .service socket => s.services.contains socket

def setBase (p : Peer) (b : BaseConnection) (s : ClusterServer) : ClusterServer :=
  match p with
  | .permanent addr =>
    { s with communicators := s.communicators.insert addr { s.communicator addr with toBaseConnection := b } }
  | .service socket => { s with services := s.services.insert socket b }

def setRemote (c : RemoteConnection) (addr : QString) (s : ClusterServer) : ClusterServer :=
  { s with remoteSnapcommunicators :=
      { s.remoteSnapcommunicators with smallerIps := s.remoteSnapcommunicators.smallerIps.insert addr c } }

/-- `disconnect()` of a permanent connection. -/
def disconnectRemote (addr : QString) (s : ClusterServer) : ClusterServer :=
  match s.remoteSnapcommunicators.smallerIps.find? addr with
  | some c => s.setRemote { c with connected := false } addr
  | none => s

def removeConnection (socket : Nat) (s : ClusterServer) : ClusterServer := { s with services := s.services.erase socket }

/-! ### Messages -/

def newMessage (service command : String) (parameters : List (String × QString)) : SnapCommunicatorMessage :=
  parameters.foldl (fun m p => m.withParameter p.1 p.2) { service := service.toList, command := command.toList }

def broadcastMessage (m : SnapCommunicatorMessage) (s : ClusterServer) : ClusterServer :=
  { s with broadcasts := s.broadcasts ++ [m] }

def sendMessage (p : Peer) (m : SnapCommunicatorMessage) (s : ClusterServer) : ClusterServer :=
  { s with sent := s.sent ++ [(p, m)] }

/-- A reply is only sent when the connection understands its command. -/
def replyMessage (p : Peer) (b : BaseConnection) (m : SnapCommunicatorMessage) (s : ClusterServer) : ClusterServer :=
  if b.understoodCommands.contains m.command then s.sendMessage p m else s

/-! ### The status -/

def countLiveConnections (s : ClusterServer) : Nat :=
  s.remoteSnapcommunicators.smallerIps.sumOf (fun _ => 1) + s.services.sumOf fun e => if e.2.remoteConnection then 1 else 0

def quorum (totalCount : Nat) : Nat := totalCount / 2 + 1

def newStatus (s : ClusterServer) : String :=
  if quorum s.allNeighbors.entries.length ≤ s.countLiveConnections + 1 then "CLUSTERUP" else "CLUSTERDOWN"

def newComplete (s : ClusterServer) : String :=
  if s.countLiveConnections + 1 = s.allNeighbors.entries.length then "CLUSTERCOMPLETE" else "CLUSTERINCOMPLETE"

def clusterMessage (s : ClusterServer) (command : String) : SnapCommunicatorMessage :=
  newMessage "." command [("neighbors_count", number s.allNeighbors.entries.length)]

/-- `cluster_status(nullptr)` -/
def announceStatus (s : ClusterServer) : ClusterServer :=
  let totalCount := s.allNeighbors.entries.length
  let t := if s.newStatus.toList ≠ s.clusterStatus ∨ s.totalCountSent ≠ totalCount
    then { s.broadcastMessage (s.clusterMessage s.newStatus) with clusterStatus := s.newStatus.toList } else s
  let t := if s.newComplete.toList ≠ s.clusterComplete ∨ s.totalCountSent ≠ totalCount
    then { t.broadcastMessage (s.clusterMessage s.newComplete) with clusterComplete := s.newComplete.toList } else t
  { t with totalCountSent := totalCount }

/-- `cluster_status()` with the connection to reply to. -/
def replyStatus (p : Peer) (b : BaseConnection) (s : ClusterServer) : ClusterServer :=
  (s.replyMessage p b (s.clusterMessage s.newStatus)).replyMessage p b (s.clusterMessage s.newComplete)

/-! ### Neighbors -/

section
variable (lib : Libaddr)

/-- One neighbor; nothing when its address cannot be read, which throws. -/
def addNeighbor (now : Int) (s : ClusterServer) (neighbor : QString) : Option ClusterServer :=
  if s.allNeighbors.contains neighbor then some s
  else (s.remoteSnapcommunicators.addRemoteCommunicator lib now neighbor).map fun remoteSnapcommunicators =>
    { s with allNeighbors := s.allNeighbors.insert neighbor true, remoteSnapcommunicators }

def addNeighbors (now : Int) (newNeighbors : QString) (s : ClusterServer) : Option ClusterServer :=
  (splitParts ',' newNeighbors).foldlM (addNeighbor lib now) s

/-- A line of the file of neighbors, which is added whether or not it is known. -/
def readNeighbor (now : Int) (s : ClusterServer) (line : QString) : Option ClusterServer :=
  (s.remoteSnapcommunicators.addRemoteCommunicator lib now line).map fun remoteSnapcommunicators =>
    { s with allNeighbors := s.allNeighbors.insert line true, remoteSnapcommunicators }

def removeNeighbor (neighbor : QString) (s : ClusterServer) : ClusterServer :=
  { s with
    allNeighbors := s.allNeighbors.erase neighbor
    remoteSnapcommunicators := (s.remoteSnapcommunicators.gossipReceived neighbor).forgetRemoteConnection neighbor
    communicators := s.communicators.erase (RemoteCommunicatorConnections.withoutPort neighbor) }

/-! ### Messages from a peer -/

/-- `VERSION` of the communicator. -/
def version : Int := 1

def processAccept (now : Int) (p : Peer) (b : BaseConnection) (m : SnapCommunicatorMessage) (s : ClusterServer) :
    Option ClusterServer :=
  match m.getParameter "server_name", m.getParameter "my_address" with
  | some remoteServerName, some _ => do
    let s := s.setBase p { b with connectionType := .remote, serverName := remoteServerName }
    let s ← s.addNeighbors lib now ((m.getParameter "neighbors").getD [])
    let s := s.sendMessage p (newMessage "" "HELP" [])
    some (s.broadcastMessage (newMessage "." "NEWREMOTECONNECTION" [("server_name", remoteServerName)]))
  | _, _ => some s

/-- Another connection has the name. -/
def nameMatch (s : ClusterServer) (p : Peer) (remoteServerName : QString) : Bool :=
  s.remoteSnapcommunicators.smallerIps.entries.any
      (fun e => Peer.permanent e.1 ≠ p && (s.communicator e.1).serverName = remoteServerName) ||
    s.services.entries.any fun e => Peer.service e.1 ≠ p && e.2.serverName = remoteServerName

/-- The connections of the communicator, with the `others` that are neither permanent nor from a listener. -/
def tooMany (s : ClusterServer) (others : Nat) : Bool :=
  s.maxConnections ≤ s.remoteSnapcommunicators.smallerIps.entries.length + s.services.entries.length + others

def explicitParameters (s : ClusterServer) : List (String × QString) :=
  if s.explicitNeighbors.isEmpty then [] else [("neighbors", s.explicitNeighbors)]

def accept (now : Int) (p : Peer) (b : BaseConnection) (m : SnapCommunicatorMessage) (remoteServerName hisAddress : QString)
    (s : ClusterServer) : Option ClusterServer := do
  let s := s.setBase p { b with connectionType := .remote, serverName := remoteServerName }
  let s ← s.addNeighbors lib now ((m.getParameter "neighbors").getD [])
  let reply := newMessage "" "ACCEPT" (s.explicitParameters ++
    [("server_name", s.serverName), ("my_address", s.remoteSnapcommunicators.myAddress.toIpPort)])
  let s ← s.addNeighbors lib now hisAddress
  let s := { s with remoteSnapcommunicators := s.remoteSnapcommunicators.gossipReceived hisAddress }
  let s := (s.sendMessage p reply).sendMessage p (newMessage "" "HELP" [])
  some (s.broadcastMessage (newMessage "." "NEWREMOTECONNECTION" [("server_name", remoteServerName)])).announceStatus

def processConnect (now : Int) (others : Nat) (p : Peer) (b : BaseConnection) (m : SnapCommunicatorMessage)
    (s : ClusterServer) : Option ClusterServer :=
  match m.getParameter "version", m.getParameter "my_address", m.getParameter "server_name" with
  | some _, some hisAddress, some remoteServerName => do
    let v ← m.getIntegerParameter "version"
    if v ≠ version then some s
    else if s.nameMatch p remoteServerName then some (s.sendMessage p (newMessage "" "REFUSE" [("conflict", "name".toList)]))
    else if s.tooMany others then
      some ((s.setBase p { b with serverName := remoteServerName }).sendMessage p (newMessage "" "REFUSE" s.explicitParameters))
    else s.accept lib now p b m remoteServerName hisAddress
  | _, _, _ => some s

/-- The address of a permanent connection is made from its IP alone, and has the default port. -/
def addressText (addr : QString) : QString := addr ++ ":4040".toList

def processDisconnect (p : Peer) (b : BaseConnection) (s : ClusterServer) : ClusterServer :=
  if b.connectionType = .remote then
    let s := s.setBase p { b with connectionType := .down }
    let s := match p with
      | .service socket => s.removeConnection socket
      | .permanent addr =>
        let s := s.disconnectRemote addr
        { s with remoteSnapcommunicators := s.remoteSnapcommunicators.shuttingDown (addressText addr) }
    let s := if b.serverName.isEmpty then s
      else s.broadcastMessage (newMessage "." "DISCONNECTED" [("server_name", b.serverName)])
    s.announceStatus
  else s

/-- Only a permanent connection is refused; elsewhere the message throws. -/
def processRefuse (p : Peer) (m : SnapCommunicatorMessage) (s : ClusterServer) : Option ClusterServer :=
  match p with
  | .service _ => none
  | .permanent addr =>
    let pause := if m.hasParameter "shutdown" then RemoteCommunicatorConnections.shuttingDown
      else RemoteCommunicatorConnections.tooBusy
    some (disconnectRemote addr { s with remoteSnapcommunicators := pause (addressText addr) s.remoteSnapcommunicators })

def processForget (m : SnapCommunicatorMessage) (s : ClusterServer) : Option ClusterServer :=
  match m.getParameter "ip" with
  | none => none
  | some forgetIp =>
    let s := s.removeNeighbor forgetIp
    if m.hasParameter "broadcast_hops" then some s
    else some (s.broadcastMessage { newMessage "snapcommunicator" "FORGET" [("ip", forgetIp)] with server := ['*'] })

/-! ### Events of a connection -/

/-- `process_connected()` of a permanent connection. -/
def processConnected (addr : QString) (c : RemoteConnection) (s : ClusterServer) : ClusterServer :=
  let delay := RemoteCommunicatorConnections.remoteConnectionDefaultTimeout
  let s := s.setRemote { c with connected := true, enabled := false, timeoutDelay := delay } addr
  let s := { s with communicators := s.communicators.insert addr { s.communicator addr with connected := true } }
  s.sendMessage (.permanent addr) (newMessage "" "CONNECT" ([("version", number version),
    ("my_address", s.remoteSnapcommunicators.myAddress.toIpPort), ("server_name", s.serverName)] ++ s.explicitParameters))

/-- An attempt to connect failed. -/
def processConnectionFailed (addr : QString) (c : RemoteConnection) (s : ClusterServer) : ClusterServer :=
  let s := s.setRemote { c with enabled := true } addr
  let r := s.communicator addr
  if r.connected && !r.sentFromServer.isEmpty then
    ({ s with communicators := s.communicators.insert addr { r with connected := false } }).broadcastMessage
      (newMessage "." "HANGUP" [("server_name", r.sentFromServer)])
  else s

/-- A permanent connection that hangs up only waits to connect again. -/
def processHup (p : Peer) (b : BaseConnection) (s : ClusterServer) : ClusterServer :=
  match p with
  | .permanent addr =>
    match s.remoteSnapcommunicators.smallerIps.find? addr with
    | some c => s.setRemote { c with connected := false, enabled := true } addr
    | none => s
  | .service socket =>
    let s := s.removeConnection socket
    if b.remoteConnection && !b.serverName.isEmpty then
      (s.broadcastMessage (newMessage "." "HANGUP" [("server_name", b.serverName)])).replyStatus p b
    else s

/-- The listener for other computers marks its connections; the local one gives them the name of the server. -/
def incoming (socket : Nat) (isLocal : Bool) (s : ClusterServer) : ClusterServer :=
  if s.services.contains socket then s
  else
    let b : BaseConnection := if isLocal then { serverName := s.serverName } else { remoteConnection := true }
    { s with services := s.services.insert socket b }

/-- What a permanent connection does with a message before anything else. -/
def received (p : Peer) (m : SnapCommunicatorMessage) (s : ClusterServer) : ClusterServer :=
  match p with
  | .service _ => s
  | .permanent addr =>
    let r := s.communicator addr
    if r.sentFromServer.isEmpty then
      { s with communicators := s.communicators.insert addr { r with sentFromServer := m.sentFromServer } }
    else s

/-! ### Runs -/

/-- The configuration and the lines of the file of neighbors that a daemon starts with. -/
structure ClusterConfig where
  serverName : QString
  maxConnections : Nat
  listen : QString
  isLoopback : Bool
  neighbors : QString
  myAddress : RemoteAddress
  neighborsFile : List QString

/-- The connections are made; the status is not yet told. -/
def ClusterConfig.join (now : Int) (c : ClusterConfig) : Option ClusterServer := do
  let s : ClusterServer :=
    { serverName := c.serverName, maxConnections := c.maxConnections, explicitNeighbors := c.neighbors
      remoteSnapcommunicators := { myAddress := c.myAddress } }
  let s ← c.neighborsFile.foldlM (readNeighbor lib now) s
  let s ← (if c.isLoopback then some s else s.addNeighbors lib now c.listen : Option ClusterServer)
  s.addNeighbors lib now c.neighbors

inductive ClusterEvent
  | init (now : Int) (c : ClusterConfig)
  | addNeighbors (now : Int) (newNeighbors : QString)
  | forget (p : Peer) (m : SnapCommunicatorMessage)
  | connected (addr : QString)
  | connectionFailed (addr : QString)
  | incoming (socket : Nat) (isLocal : Bool)
  | commands (p : Peer) (m : SnapCommunicatorMessage) (list : QString)
  | status (p : Peer) (m : SnapCommunicatorMessage)
  | connect (now : Int) (others : Nat) (p : Peer) (m : SnapCommunicatorMessage)
  | accept (now : Int) (p : Peer) (m : SnapCommunicatorMessage)
  | refuse (p : Peer) (m : SnapCommunicatorMessage)
  | disconnect (p : Peer) (m : SnapCommunicatorMessage)
  | hup (p : Peer)

/-- A message comes over a connection that is up. -/
def onMessage (p : Peer) (m : SnapCommunicatorMessage) (f : BaseConnection → ClusterServer → Option ClusterServer)
    (s : ClusterServer) : Option ClusterServer :=
  match (s.received p m).base p with
  | some b => if s.isConnected p then f b (s.received p m) else some s
  | none => some s

/-- One event of a daemon that runs. -/
def handle (s : ClusterServer) : ClusterEvent → Option ClusterServer
  | .init _ _ => some s
  | .addNeighbors now newNeighbors => s.addNeighbors lib now newNeighbors
  | .forget p m => s.onMessage p m fun _ => processForget m
  | .connected addr =>
    match s.remoteSnapcommunicators.smallerIps.find? addr with
    | some c => some (s.processConnected addr c)
    | none => some s
  | .connectionFailed addr =>
    match s.remoteSnapcommunicators.smallerIps.find? addr with
    | some c => some (s.processConnectionFailed addr c)
    | none => some s
  | .incoming socket isLocal => some (s.incoming socket isLocal)
  | .commands p m list => s.onMessage p m fun b s => some (s.setBase p (b.setCommands list))
  | .status p m => s.onMessage p m fun b s => some (s.replyStatus p b)
  | .connect now others p m => s.onMessage p m fun b => processConnect lib now others p b m
  | .accept now p m => s.onMessage p m fun b => processAccept lib now p b m
  | .refuse p m => s.onMessage p m fun _ => processRefuse p m
  | .disconnect p m => s.onMessage p m fun b s => some (s.processDisconnect p b)
  | .hup p =>
    match s.base p with
    | some b => if s.isConnected p then some (s.processHup p b) else some s
    | none => some s

/-- A daemon that has not been started, or that an exception ended, is `none`. -/
def step : Option ClusterServer → ClusterEvent → Option ClusterServer
  | none, .init now c => (c.join lib now).map announceStatus
  | none, _ => none
  | some s, e => s.handle lib e

end
end ClusterServer
end Snapwebsites
