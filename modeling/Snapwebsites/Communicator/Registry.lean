import Snapwebsites.Communicator.QString
import Snapwebsites.Lib.SortedMap
import Snapwebsites.Lib.Trace

/-! # The registry of remote communicators

`remote_communicator_connections`: the addresses that are known, the permanent connections to smaller addresses and the
connections that gossip to larger ones. All three maps are keyed by the text of an IP, without a port. The library that
reads and orders addresses is not part of the repository; a connection that is kept in a map is one of the communicator's,
since both are always changed together. -/

namespace Snapwebsites
open QString

/-- An `addr::addr`, by the text of its IP. -/
structure RemoteAddress where
  ip : QString
  port : Nat
  ip_ne_nil : ip ≠ [] := by decide
  ip_plain : '[' ∉ ip ∧ ']' ∉ ip := by decide

namespace RemoteAddress

theorem eq_iff (a b : RemoteAddress) : a.ip = b.ip ∧ a.port = b.port ↔ a = b := by
  cases a
  cases b
  simp

instance : DecidableEq RemoteAddress := fun a b => decidable_of_iff _ (eq_iff a b)

def isIpv6 (a : RemoteAddress) : Bool := a.ip.contains ':'

/-- `STRING_IP_BRACKETS` -/
def toIpBrackets (a : RemoteAddress) : QString := if a.isIpv6 then '[' :: a.ip ++ [']'] else a.ip

/-- `STRING_IP_PORT` -/
def toIpPort (a : RemoteAddress) : QString := a.toIpBrackets ++ ':' :: number a.port

end RemoteAddress

/-- `string_to_addr()`, nothing when it throws, and `operator <`. -/
structure Libaddr where
  stringToAddr : QString → Option RemoteAddress
  lt : RemoteAddress → RemoteAddress → Bool

/-- An address is read back from its text. -/
def Libaddr.Reads (lib : Libaddr) : Prop := ∀ a : RemoteAddress, lib.stringToAddr a.toIpPort = some a

/-- A permanent connection, of class `remote_snap_communicator`. -/
structure RemoteConnection where
  address : QString
  port : Nat
  timeoutDelay : Int
  timeoutDate : Int
  enabled : Bool := true
  connected : Bool := false
  deriving DecidableEq

structure GossipConnection where
  address : QString
  port : Nat
  deriving DecidableEq

structure RemoteCommunicatorConnections where
  myAddress : RemoteAddress
  allIps : SortedMap QString Nat := ∅
  lastStartDate : Int := 0
  smallerIps : SortedMap QString RemoteConnection := ∅
  gossipIps : SortedMap QString GossipConnection := ∅

namespace RemoteCommunicatorConnections

def remoteConnectionDefaultTimeout : Int := 60 * 1000000
def remoteConnectionReconnectTimeout : Int := 5 * 60 * 1000000
def remoteConnectionTooBusyTimeout : Int := 24 * 60 * 60 * 1000000

section
variable (lib : Libaddr)

/-- Nothing when the address cannot be read, which throws. -/
def addRemoteCommunicator (now : Int) (addrPort : QString) (s : RemoteCommunicatorConnections) :
    Option RemoteCommunicatorConnections :=
  match lib.stringToAddr addrPort with
  | none => none
  | some remoteAddr =>
    if remoteAddr = s.myAddress then some s
    else
      let addr := remoteAddr.toIpBrackets
      if s.allIps.contains addr then
        if lib.lt remoteAddr s.myAddress then
          match s.smallerIps.find? addr with
          | some c =>
            if !c.connected then
              let c := { c with timeoutDelay := remoteConnectionTooBusyTimeout, timeoutDate := now, enabled := true }
              some { s with smallerIps := s.smallerIps.insert addr c }
            else some s
          | none => some s
        else some s
      else
        let s := { s with allIps := s.allIps.insert addr remoteAddr.port }
        if lib.lt remoteAddr s.myAddress then
          let startDate := max now s.lastStartDate
          let c : RemoteConnection :=
            { address := addr, port := remoteAddr.port, timeoutDelay := remoteConnectionDefaultTimeout, timeoutDate := startDate }
          some { s with smallerIps := s.smallerIps.insert addr c, lastStartDate := startDate + 1000000 }
        else some { s with gossipIps := s.gossipIps.insert addr { address := addr, port := remoteAddr.port } }

/-- What `too_busy()` and `shutting_down()` do with their delay. -/
def pause (delay : Int) (addr : QString) (s : RemoteCommunicatorConnections) : RemoteCommunicatorConnections :=
  match s.smallerIps.find? addr with
  | some c => { s with smallerIps := s.smallerIps.insert addr { c with timeoutDelay := delay, enabled := true } }
  | none => s

def tooBusy : QString → RemoteCommunicatorConnections → RemoteCommunicatorConnections := pause remoteConnectionTooBusyTimeout

def shuttingDown : QString → RemoteCommunicatorConnections → RemoteCommunicatorConnections :=
  pause remoteConnectionReconnectTimeout

def gossipReceived (addr : QString) (s : RemoteCommunicatorConnections) : RemoteCommunicatorConnections :=
  { s with gossipIps := s.gossipIps.erase addr }

/-- What stands in front of the first colon, unless the text starts with it. -/
def withoutPort (addrPort : QString) : QString :=
  let addr := addrPort.takeWhile (· ≠ ':')
  if addr.isEmpty then addrPort else addr

def forgetRemoteConnection (addrPort : QString) (s : RemoteCommunicatorConnections) : RemoteCommunicatorConnections :=
  { s with smallerIps := s.smallerIps.erase (withoutPort addrPort) }

end

/-! ### Events -/

/-- The calls, each with the text of an address and its port, and the peer of a permanent connection. -/
inductive Event
  | add (now : Int) (a : RemoteAddress)
  | tooBusy (a : RemoteAddress)
  | shuttingDown (a : RemoteAddress)
  | gossipReceived (a : RemoteAddress)
  | forget (a : RemoteAddress)
  | setConnected (addr : QString) (connected : Bool)

def step (lib : Libaddr) (s : RemoteCommunicatorConnections) : Event → RemoteCommunicatorConnections
  | .add now a => (addRemoteCommunicator lib now a.toIpPort s).getD s
  | .tooBusy a => tooBusy a.toIpPort s
  | .shuttingDown a => shuttingDown a.toIpPort s
  | .gossipReceived a => gossipReceived a.toIpPort s
  | .forget a => forgetRemoteConnection a.toIpPort s
  | .setConnected addr connected =>
    match s.smallerIps.find? addr with
    | some c => { s with smallerIps := s.smallerIps.insert addr { c with connected } }
    | none => s

end RemoteCommunicatorConnections
end Snapwebsites
