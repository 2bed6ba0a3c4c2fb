import Mathlib.Logic.Function.Basic
import Snapwebsites.Snaplock.Ticket

/-! # The lock daemon

`snaplock`: its state and its message handlers. A handler that throws ends the daemon, and so may one
that reads past the end of a table; both are `none`. The clock is read once for each message, and the release build is modelled.
A message has its parameters as values; one that lacks a parameter it must have ends the
daemon and is left out too. Tickets and computers are shared pointers: numbers, with the objects in
`ticket` and `computer`. -/

namespace Snapwebsites
open QString

/-! ### Messages -/

structure LockParameters where
  objectName : QString
  pid : Int
  timeout : Option Int := none
  duration : Int
  unlockDuration : Option Int := none
  serial : Option Int := none
  deriving DecidableEq

structure UnlockParameters where
  objectName : QString
  pid : Int
  deriving DecidableEq

structure LockEnteringParameters where
  objectName : QString
  key : QString
  timeout : Option Int := none
  duration : Int
  unlockDuration : Option Int := none
  source : QString
  serial : Int
  deriving DecidableEq

/-- The parameters that most messages between leaders have. -/
structure KeyParameters where
  objectName : QString
  key : QString
  deriving DecidableEq

/-- The parameters about the leaders, in LOCKSTARTED and LOCKLEADERS; `leaders` has those of `leader0`,
    `leader1` and `leader2` that are there. -/
structure LeadersParameters where
  electionDate : Int
  leaders : List QString
  deriving DecidableEq

structure LockStartedParameters where
  serverName : QString
  lockid : QString
  starttime : Int
  electionDate : Option Int := none
  leaders : List QString := []
  deriving DecidableEq

inductive LockCommand
  | lock (p : LockParameters)
  | unlock (p : UnlockParameters)
  | lockEntering (p : LockEnteringParameters)
  | lockEntered (p : KeyParameters)
  | getMaxTicket (p : KeyParameters)
  | maxTicket (p : KeyParameters) (ticketId : Int)
  | addTicket (p : KeyParameters) (timeout : Int)
  | ticketAdded (p : KeyParameters)
  | lockExiting (p : KeyParameters)
  | ticketReady (p : KeyParameters)
  | activateLock (p : KeyParameters)
  | lockActivated (p : KeyParameters) (otherKey : QString)
  | dropTicket (p : KeyParameters)
  | lockFailed (objectName : QString) (key : Option QString) (error : QString)
  | locked (objectName : QString) (timeoutDate : Int)
  | unlocked (objectName : QString) (error : Option QString)
  | alive (serial : QString) (timestamp : Int)
  | absolutely (serial : QString)
  | clusterUp (neighborsCount : Int)
  | clusterDown
  | lockStarted (p : LockStartedParameters)
  | lockLeaders (p : LeadersParameters)
  | lockTickets (tickets : QString)
  | serverGone (serverName : QString)
  | status (command : QString)
  deriving DecidableEq

/-- A message with the parameters `γ`. `tag` is the LOCK request that the message is about, which no
    code reads. -/
structure LockMessage (γ : Type) where
  server : QString := []
  service : QString := []
  sentFromServer : QString := []
  sentFromService : QString := []
  lockProxyServerName : Option QString := none
  lockProxyServiceName : Option QString := none
  tag : Nat := 0
  payload : γ
  deriving DecidableEq

namespace LockMessage
variable {γ δ : Type}

def withPayload (m : LockMessage γ) (payload : δ) : LockMessage δ :=
  { server := m.server, service := m.service, sentFromServer := m.sentFromServer, sentFromService := m.sentFromService
    lockProxyServerName := m.lockProxyServerName, lockProxyServiceName := m.lockProxyServiceName, tag := m.tag, payload }

/-- A message with `reply_to(m)`. -/
def reply (m : LockMessage γ) (payload : δ) : LockMessage δ :=
  { server := m.sentFromServer, service := m.sentFromService, tag := m.tag, payload }

/-- The server and the service of the client. -/
def clientServer (m : LockMessage γ) : QString := m.lockProxyServerName.getD m.sentFromServer
def clientService (m : LockMessage γ) : QString := m.lockProxyServiceName.getD m.sentFromService

end LockMessage

structure MessageCache where
  timeout : Int
  message : LockMessage LockParameters
  deriving DecidableEq

/-! ### Computers -/

structure Computer where
  id : QString := []
  connected : Bool := true
  self : Bool := false
  priority : Int := -1
  ipAddress : QString := []
  name : QString := []
  startTime : Int := -1
  deriving DecidableEq

namespace Computer

def priorityOff : Int := 15

/-- A new computer after `set_id()`; `none` is `false`. -/
def setId (pidMax : Int) (id : QString) : Option Computer :=
  match id.splitOn '|' with
  | [priority, _, ipAddress, pid, name] => do
    let priority ← toLongLong priority
    if priority < 1 ∨ priority > 15 then none
    else if ipAddress = [] then none
    else
      let pid ← toLongLong pid
      if int32 pid < 1 ∨ int32 pid > pidMax then none
      else if name = [] then none
      else some { id, priority, ipAddress, name }
  | _ => none

end Computer

/-! ### The daemon -/

/-- What a daemon knows about itself and the cluster. -/
structure Cluster where
  serverName : QString
  myId : QString
  myIpAddress : QString
  startTime : Int
  pidMax : Int
  neighborsCount : Nat := 0
  neighborsQuorum : Nat := 0
  lockStatus : QString := "NOLOCK".toList
  computer : Nat → Computer
  nextComputer : Nat
  computers : SortedMap QString Nat
  leaders : List Nat := []
  electionDate : Int := 0

/-- The state of a daemon. Last come the messages it has sent, and a record for each completed call of
    `check_lock_status()` that no code reads: whether the daemon was ready, and the cache. -/
structure Snaplock extends Cluster where
  nextLeader : Nat := 0
  messageCache : List MessageCache := []
  ticket : Nat → SnaplockTicket := fun _ => {}
  nextTicket : Nat := 0
  enteringTickets : SortedMap QString (SortedMap QString Nat) := ∅
  tickets : SortedMap QString (SortedMap QString Nat) := ∅
  ticketSerial : Nat := 0
  paceLockstarted : Int := 0
  sent : List (LockMessage LockCommand) := []
  checks : List (Bool × List MessageCache) := []

namespace Cluster

def isLeader (s : Cluster) : Bool := s.leaders.any fun l => decide ((s.computer l).id = s.myId)

/-- `get_leader_a()`; `none` is the exception. -/
def getLeaderA (s : Cluster) : Option (Option Nat) :=
  match s.leaders with
  | [_] => some none
  | [l₀, l₁] | [l₀, l₁, _] => some (some (if (s.computer l₀).self then l₁ else l₀))
  | _ => none

def getLeaderB (s : Cluster) : Option (Option Nat) :=
  match s.leaders with
  | [_] | [_, _] => some none
  | [_, l₁, l₂] => some (some (if (s.computer l₂).self then l₁ else l₂))
  | _ => none

/-- What `is_ready()` says. -/
def ready (s : Cluster) : Bool :=
  decide (s.leaders ≠ []) && !(decide (s.leaders.length = 1) && decide (s.neighborsCount ≠ 1)) &&
  !(decide (s.neighborsQuorum < 3) && decide (s.computers.entries.length < s.neighborsCount)) &&
  !decide (s.computers.entries.length < s.neighborsQuorum) && s.leaders.all fun l => (s.computer l).connected

end Cluster

namespace Snaplock

/-- The daemon after the constructor. -/
def start (name ipAddress : QString) (priority randomId pid startTime pidMax : Int) : Snaplock :=
  let id := arg (arg (arg (arg (arg "%1|%2|%3|%4|%5".toList ((if priority < 10 then ['0'] else []) ++ number priority))
    (number randomId)) ipAddress) (number pid)) name
  { serverName := name, myId := id, myIpAddress := ipAddress, startTime, pidMax, nextComputer := 1
    computer := fun _ => { id, self := true, priority, ipAddress, name, startTime }
    computers := SortedMap.insert ∅ name 0 }

def send (s : Snaplock) (m : LockMessage LockCommand) : Snaplock := { s with sent := s.sent ++ [m] }

/-- The ticket at the pointer `p` after a method. -/
def setTicket (s : Snaplock) (p : Nat) (t : SnaplockTicket) : Snaplock := { s with ticket := Function.update s.ticket p t }

def enteringOf (s : Snaplock) (objectName : QString) : SortedMap QString Nat := (s.enteringTickets.find? objectName).getD ∅
def ticketsOf (s : Snaplock) (objectName : QString) : SortedMap QString Nat := (s.tickets.find? objectName).getD ∅

/-- The table of an object; it is erased when it has become empty. -/
def putTable (m : SortedMap QString (SortedMap QString Nat)) (objectName : QString) (table : SortedMap QString Nat) :
    SortedMap QString (SortedMap QString Nat) :=
  if table.isEmpty then m.erase objectName else m.insert objectName table

def putEntering (s : Snaplock) (objectName : QString) (table : SortedMap QString Nat) : Snaplock :=
  { s with enteringTickets := putTable s.enteringTickets objectName table }

def putTickets (s : Snaplock) (objectName : QString) (table : SortedMap QString Nat) : Snaplock :=
  { s with tickets := putTable s.tickets objectName table }

/-- A new ticket among the entering ones. -/
def newEntering (s : Snaplock) (objectName key : QString) (t : SnaplockTicket) : Snaplock :=
  { s with
    ticket := Function.update s.ticket s.nextTicket t
    nextTicket := s.nextTicket + 1
    enteringTickets := s.enteringTickets.insert objectName ((s.enteringOf objectName).insert key s.nextTicket) }

/-- The ticket with the entering key. -/
def findEnteringKey (s : Snaplock) (table : SortedMap QString Nat) (key : QString) : Option (QString × Nat) :=
  table.entries.find? fun e => decide ((s.ticket e.2).enteringKey = key)

/-! ### Messages to leaders -/

/-- `send_message_to_leaders()`, with the result that says whether an answer is to be waited for. -/
def sendMessageToLeaders (s : Snaplock) (tag : Nat) (payload : LockCommand) : Option (Snaplock × Bool) := do
  match ← s.getLeaderA with
  | some a =>
    let s := s.send { server := (s.computer a).name, service := "snaplock".toList, tag, payload }
    match ← s.getLeaderB with
    | some b => some (s.send { server := (s.computer b).name, service := "snaplock".toList, tag, payload }, true)
    | none => some (s, true)
  | none => some (s, decide (s.computers.entries.length ≠ 1))

def sendLockstarted {γ : Type} (s : Snaplock) (message : Option (LockMessage γ)) : Snaplock :=
  s.send
    { server := (message.map LockMessage.sentFromServer).getD []
      service := (message.map LockMessage.sentFromService).getD ['*']
      payload := .lockStarted
        { serverName := s.serverName, lockid := s.myId, starttime := s.startTime
          electionDate := if s.leaders = [] then none else some s.electionDate
          leaders := s.leaders.map fun l => (s.computer l).id } }

/-- What `is_ready()` does: a leader that is not connected gets a LOCKSTARTED, not too often. -/
def checkLeaders (now : Int) (s : Snaplock) : Snaplock :=
  if s.leaders = [] ∨ (s.leaders.length = 1 ∧ s.neighborsCount ≠ 1) ∨
      (s.neighborsQuorum < 3 ∧ s.computers.entries.length < s.neighborsCount) ∨
      s.computers.entries.length < s.neighborsQuorum then s
  else match s.leaders.find? fun l => !(s.computer l).connected with
    | none => s
    | some l =>
      if now > s.paceLockstarted then
        { s with paceLockstarted := now + 5 }.sendLockstarted (some
          ({ sentFromServer := (s.computer l).name, sentFromService := "snaplock".toList, payload := () } : LockMessage Unit))
      else s

/-! ### What ends a ticket -/

/-- `lock_failed()`. -/
def lockFailed (s : Snaplock) (p : Nat) : Snaplock :=
  let t := s.ticket p
  let s' := s.setTicket p t.fail
  if !t.lockFailed && decide (t.owner = s.serverName) then
    s'.send
      { server := t.serverName, service := t.serviceName, tag := t.tag
        payload := if t.locked then .unlocked t.objectName (some "timedout".toList)
                   else .lockFailed t.objectName none "failed".toList }
  else s'

/-- The loops over a table that get rid of the tickets that timed out. -/
def sweep (now : Int) : List (QString × Nat) → Snaplock × SortedMap QString Nat → Snaplock × SortedMap QString Nat
  | [], r => r
  | (key, p) :: l, (s, table) =>
    if (s.ticket p).timedOut now then
      let s := s.lockFailed p
      if (s.ticket p).timedOut now then sweep now l (s, table.erase key) else sweep now l (s, table)
    else sweep now l (s, table)

/-- `drop_ticket()`. -/
def dropTicket (s : Snaplock) (p : Nat) : Option Snaplock := do
  let t := s.ticket p
  let (s, _) ← s.sendMessageToLeaders t.tag
    (.dropTicket { objectName := t.objectName, key := if t.ticketKey = [] then t.enteringKey else t.ticketKey })
  if t.lockFailed then some s
  else some ((s.setTicket p { t with lockFailed := true }).send
    { server := t.serverName, service := t.serviceName, tag := t.tag, payload := .unlocked t.objectName none })

/-! ### The activation -/

/-- `lock_activated()`. -/
def lockActivated (now : Int) (s : Snaplock) (p : Nat) : Snaplock :=
  let t := s.ticket p
  let s' := s.setTicket p (t.activate now)
  if t.activatable && decide (t.owner = s.serverName) then
    s'.send
      { server := t.serverName, service := t.serviceName, tag := t.tag
        payload := .locked t.objectName (t.lockDuration + now) }
  else s'

/-- `activate_lock()`. -/
def activateLock (now : Int) (s : Snaplock) (p : Nat) : Option Snaplock :=
  let t := s.ticket p
  if t.activatable then do
    let (s, wait) ← s.sendMessageToLeaders t.tag (.activateLock { objectName := t.objectName, key := t.ticketKey })
    if wait then some s else some (s.lockActivated now p)
  else some s

/-- `find_first_lock()`. -/
def findFirstLock (now : Int) (s : Snaplock) (objectName : QString) : Snaplock × Option Nat :=
  match s.tickets.find? objectName with
  | none => (s, none)
  | some table =>
    let (s, table) := sweep now table.entries (s, table)
    (s.putTickets objectName table, table.first?.map Prod.snd)

def activateFirstLock (now : Int) (s : Snaplock) (objectName : QString) : Option Snaplock :=
  match s.findFirstLock now objectName with
  | (s, some p) => s.activateLock now p
  | (s, none) => some s

/-! ### The cleanup -/

/-- A LOCK in the cache that timed out fails. -/
def cleanupCache (now : Int) (s : Snaplock) : Snaplock :=
  let failed := s.messageCache.filter fun c => decide (c.timeout ≤ now)
  { s with
    messageCache := s.messageCache.filter fun c => !decide (c.timeout ≤ now)
    sent := s.sent ++ failed.map fun c => c.message.reply (.lockFailed c.message.payload.objectName
      (some (enteringKey c.message.clientServer (int32 c.message.payload.pid))) "timedout".toList) }

/-- The tickets of one object. -/
def cleanupTickets (now : Int) (s : Snaplock) (objectName : QString) : Option Snaplock :=
  let old := s.ticketsOf objectName
  let (s, table) := sweep now old.entries (s, old)
  let s := s.putTickets objectName table
  if !table.isEmpty && decide (table ≠ old) then s.activateFirstLock now objectName else some s

def cleanupEntering (now : Int) (s : Snaplock) (objectName : QString) : Snaplock :=
  let (s, table) := sweep now (s.enteringOf objectName).entries (s, s.enteringOf objectName)
  s.putEntering objectName table

def cleanup (now : Int) (s : Snaplock) : Option Snaplock := do
  let s := s.cleanupCache now
  let s ← (s.tickets.entries.map Prod.fst).foldlM (cleanupTickets now) s
  some ((s.enteringTickets.entries.map Prod.fst).foldl (cleanupEntering now) s)

end Snaplock
end Snapwebsites
