import Snapwebsites.Snaplock.Bakery

/-! # Leaders

The election, the messages about computers and leaders, and the hand-over of tickets to new leaders;
last comes the dispatch of a message to its handler. `date` is the clock in microseconds, `now` the same
in seconds. -/

namespace Snapwebsites
open QString

namespace Snaplock

/-! ### The status -/

def statusText (ready : Bool) : QString := if ready then "LOCKREADY".toList else "NOLOCK".toList

/-- The status has changed; a daemon that is ready now takes up the requests in its cache. -/
def changeStatus (now : Int) (s : Snaplock) (ready : Bool) (currentStatus : QString) : Option Snaplock :=
  let s := { s with lockStatus := currentStatus }.send { service := ['.'], payload := .status currentStatus }
  if ready then s.messageCache.foldlM (fun s c => s.msgLock now c.message) { s with messageCache := [] }
  else some s

/-- `check_lock_status()`. -/
def checkLockStatus (now : Int) (s : Snaplock) : Option Snaplock := do
  let ready := s.ready
  let s := s.checkLeaders now
  let currentStatus := statusText ready
  let s ← (if s.lockStatus ≠ currentStatus then s.changeStatus now ready currentStatus else some s)
  some { s with checks := s.checks ++ [(s.ready, s.messageCache)] }

/-! ### The hand-over of tickets -/

/-- No leader is the owner of the ticket. -/
def orphan (s : Snaplock) (p : Nat) : Bool := s.leaders.all fun l => decide ((s.computer l).name ≠ (s.ticket p).owner)

def leader0Name (s : Snaplock) : QString := ((s.leaders[0]?.map s.computer).getD {}).name

/-- The LOCK that gives the ticket to leader #0. -/
def relockMessage (s : Snaplock) (p : Nat) (serial : Option Int) : Option (LockMessage LockParameters) := do
  let t := s.ticket p
  let pid ← t.getClientPid
  some
    { server := s.leader0Name, service := "snaplock".toList, sentFromServer := t.serverName, sentFromService := t.serviceName
      tag := t.tag
      payload :=
        { objectName := t.objectName, pid, timeout := some t.obtentionTimeout, duration := t.lockDuration
          unlockDuration := some t.unlockDuration, serial } }

/-- The entry is erased, and the table of the object stays. -/
def eraseEntering (objectName key : QString) (s : Snaplock) : Snaplock :=
  { s with enteringTickets := s.enteringTickets.insert objectName ((s.enteringOf objectName).erase key) }

def eraseTicket (objectName key : QString) (s : Snaplock) : Snaplock :=
  { s with tickets := s.tickets.insert objectName ((s.ticketsOf objectName).erase key) }

/-- The LOCK for an orphan: leader #0 takes the ticket out of its table and keeps the message for
    itself, another leader sends it. By then the iterator stands on the `next` entry, and the serial
    number is read there. -/
def relock (leader0 : Bool) (remove : Snaplock → Snaplock) (p : Nat) (next : Option Nat)
    (r : Snaplock × List (LockMessage LockParameters)) : Option (Snaplock × List (LockMessage LockParameters)) :=
  if leader0 then do
    let m ← r.1.relockMessage p none
    some (remove r.1, r.2 ++ [m])
  else do
    let m ← r.1.relockMessage p (next.map fun q => (r.1.ticket q).serial)
    let _ ← next
    some (r.1.send (m.withPayload (.lock m.payload)), r.2)

/-- The entering tickets of one object. -/
def syncEntering (leader0 : Bool) (objectName : QString) : List (QString × Nat) →
    Snaplock × List (LockMessage LockParameters) → Option (Snaplock × List (LockMessage LockParameters))
  | [], r => some r
  | (key, p) :: l, r =>
    if r.1.orphan p then do
      let r ← relock leader0 (eraseEntering objectName key) p (l.head?.map Prod.snd) r
      syncEntering leader0 objectName l r
    else syncEntering leader0 objectName l r

/-- The tickets of one object: one that is locked goes to leader #0 as it is. -/
def syncTickets (leader0 : Bool) (objectName : QString) : List (QString × Nat) →
    (Snaplock × List (LockMessage LockParameters)) × QString → Option ((Snaplock × List (LockMessage LockParameters)) × QString)
  | [], r => some r
  | (key, p) :: l, (r, serialized) =>
    if (r.1.ticket p).locked then
      let s := if r.1.orphan p then r.1.setTicket p { r.1.ticket p with owner := r.1.leader0Name } else r.1
      syncTickets leader0 objectName l ((s, r.2), serialized ++ (s.ticket p).serialize ++ ['\n'])
    else if r.1.orphan p then do
      let r ← relock leader0 (eraseTicket objectName key) p (l.head?.map Prod.snd) r
      syncTickets leader0 objectName l (r, serialized)
    else syncTickets leader0 objectName l (r, serialized)

/-- The locked tickets go to the other leaders. -/
def sendLockTickets (s : Snaplock) (serialized : QString) : Option Snaplock :=
  let message (l : Nat) : LockMessage LockCommand :=
    { server := (s.computer l).name, service := "snaplock".toList, payload := .lockTickets serialized }
  if serialized = [] then some s
  else do
    match ← s.getLeaderA with
    | none => some s
    | some a => match ← s.getLeaderB with
      | none => some (s.send (message a))
      | some b => some ((s.send (message a)).send (message b))

def synchronizeLeaders (now : Int) (s : Snaplock) : Option Snaplock :=
  if s.leaders.length ≤ 1 then some s
  else if !s.isLeader then some s
  else do
    let leader0 := (s.leaders[0]?.map fun l => decide ((s.computer l).id = s.myId)).getD false
    let r ← s.enteringTickets.entries.foldlM (fun r e => syncEntering leader0 e.1 e.2.entries r) (s, [])
    let (r, serialized) ← r.1.tickets.entries.foldlM (fun r e => syncTickets leader0 e.1 e.2.entries r) (r, [])
    let s ← r.2.foldlM (fun s m => s.msgLock now m) r.1
    s.sendLockTickets serialized

/-- One line of LOCKTICKETS. -/
def unserializeLine (now : Int) (s : Snaplock) (line : QString) : Snaplock :=
  let vars := line.splitOn '|'
  match vars.find? ("object_name=".toList.isPrefixOf ·), vars.find? ("entering_key=".toList.isPrefixOf ·) with
  | some objectName, some enteringKey =>
    let objectName := objectName.drop 12
    let enteringKey := enteringKey.drop 13
    match (s.enteringOf objectName).find? enteringKey <|> (s.findEnteringKey (s.ticketsOf objectName) enteringKey).map Prod.snd with
    | some p => s.setTicket p ((s.ticket p).unserialize line)
    | none =>
      let p := s.nextTicket
      let t := (SnaplockTicket.make objectName enteringKey (SnapLock.defaultTimeout + now) SnapLock.defaultTimeout s.serverName
        "snaplock".toList s.serverName 0).unserialize line
      let s := { s.setTicket p t with nextTicket := p + 1 }
      if t.locked && s.leaders.any fun l => decide ((s.computer l).name = t.owner) then s.setTicketIn objectName t.ticketKey p
      else s
  | _, _ => s

def msgLockTickets (now : Int) (s : Snaplock) (tickets : QString) : Snaplock :=
  (tickets.splitOn '\n').foldl (unserializeLine now) s

/-! ### Computers and the election -/

/-- A new computer object. -/
def addComputer (s : Snaplock) (c : Computer) : Snaplock :=
  { s with
    computer := Function.update s.computer s.nextComputer c
    nextComputer := s.nextComputer + 1
    computers := s.computers.insert c.name s.nextComputer }

/-- The computer with the identifier becomes a leader; one that is not known yet is not connected. -/
def addLeader (s : Snaplock) (lockid : QString) : Snaplock :=
  match Computer.setId s.pidMax lockid with
  | none => s
  | some c => match s.computers.find? c.name with
    | some p => { s with leaders := s.leaders ++ [p] }
    | none => { s.addComputer { c with connected := false } with leaders := s.leaders ++ [s.nextComputer] }

/-- The candidates by their identifiers; leaders come before the others. -/
def sortById (s : Snaplock) : SortedMap QString Nat :=
  SortedMap.insertAll ∅ ((s.computers.entries.filter fun e => decide ((s.computer e.2).priority ≠ Computer.priorityOff)).map fun e =>
    (if s.leaders.contains e.2 then '0' :: '0' :: (s.computer e.2).id.drop 2 else (s.computer e.2).id, e.2))

/-- This computer may hold an election now. -/
def mayElect (s : Snaplock) : Bool :=
  let off := s.computers.entries.countP fun e => decide ((s.computer e.2).priority = Computer.priorityOff)
  let size := s.computers.entries.length
  decide (s.neighborsCount ≠ 0) && !(decide (s.neighborsQuorum < 3) && decide (size < s.neighborsCount)) &&
  !decide (size < s.neighborsQuorum) && s.computers.entries.all (fun e => !decide ((s.computer e.2).ipAddress < s.myIpAddress)) &&
  (if size ≤ 3 then decide (off = 0) else !decide (size - off < 3)) &&
  !(decide (s.sortById.entries.length < 3) && decide (s.sortById.entries.length ≠ size))

def electionStatus (date : Int) (s : Snaplock) : Option Snaplock :=
  let now := date / 1000000
  if s.leaders ≠ [] ∧ (s.leaders.length = 3 ∨ (s.neighborsCount < 3 ∧ s.leaders.length = s.neighborsCount)) then s.checkLockStatus now
  else if !s.mayElect then some s
  else
    let leaders := (s.sortById.entries.take 3).map Prod.snd
    let s := { s with leaders, electionDate := date }.send
      { service := ['*'], payload := .lockLeaders { electionDate := date, leaders := leaders.map fun l => (s.computer l).id } }
    s.checkLockStatus now

def msgClusterUp (date : Int) (s : Snaplock) (neighborsCount : Int) : Option Snaplock := do
  let count := (neighborsCount % 0x10000000000000000).toNat
  let s ← { s with neighborsCount := count, neighborsQuorum := count / 2 + 1 }.electionStatus date
  some (s.sendLockstarted (none : Option (LockMessage Unit)))

def msgClusterDown (now : Int) (s : Snaplock) : Option Snaplock := { s with leaders := [] }.checkLockStatus now

/-- The sender of a LOCKSTARTED among the computers, and whether it is a new one; `none` is an
    identifier that is not valid. -/
def meetComputer (s : Snaplock) (p : LockStartedParameters) : Option (Snaplock × Bool) :=
  match s.computers.find? p.serverName with
  | none => (Computer.setId s.pidMax p.lockid).map fun c => (s.addComputer { c with startTime := p.starttime }, true)
  | some q =>
    let c := s.computer q
    some ({ s with computer := Function.update s.computer q { c with connected := true, startTime := p.starttime } },
      !c.connected || decide (c.startTime ≠ p.starttime))

/-- Leaders of an older election are forgotten. -/
def keepNewest (s : Snaplock) : Option Int → Snaplock
  | some electionDate => if electionDate > s.electionDate then { s with electionDate, leaders := [] } else s
  | none => s

/-- A daemon that has no leaders takes those of the message. -/
def setMyLeaders (s : Snaplock) (leaders : List QString) : Snaplock :=
  if s.leaders = [] then (leaders.take 3).foldl addLeader s else s

def msgLockStarted (date : Int) (s : Snaplock) (message : LockMessage LockStartedParameters) : Option Snaplock :=
  let p := message.payload
  if p.serverName = [] then none
  else if p.serverName = s.serverName then some s
  else match s.meetComputer p with
    | none => some s
    | some (s, newComputer) => do
      let s ← ((s.keepNewest p.electionDate).setMyLeaders p.leaders).electionStatus date
      some (if newComputer then s.sendLockstarted (some message) else s)

/-- HANGUP, DISCONNECTED, and a STATUS that says that a connection to another daemon is down. -/
def msgServerGone (date : Int) (s : Snaplock) (serverName : QString) : Option Snaplock :=
  if serverName = [] ∨ serverName = s.serverName then some s
  else match s.computers.find? serverName with
    | none => some s
    | some p =>
      let s := { s with computers := s.computers.erase serverName }
      if s.leaders.contains p then do
        let s ← { s with leaders := s.leaders.erase p }.electionStatus date
        s.checkLockStatus (date / 1000000)
      else some s

/-- LOCKLEADERS; `random` is the byte that chooses the next leader to forward to. -/
def msgLockLeaders (now : Int) (random : Nat) (s : Snaplock) (p : LeadersParameters) : Option Snaplock := do
  let s := (p.leaders.take 3).foldl addLeader { s with electionDate := p.electionDate, leaders := [] }
  let s ← (if s.leaders = [] then some s
    else (s.synchronizeLeaders now).map fun s => { s with nextLeader := random % s.leaders.length })
  s.checkLockStatus now

/-! ### The dispatch -/

/-- A message comes in; the other commands are about the process itself. -/
def processMessage (date : Int) (random : Nat) (s : Snaplock) (m : LockMessage LockCommand) : Option Snaplock :=
  let now := date / 1000000
  match m.payload with
  | .lock p => s.msgLock now (m.withPayload p)
  | .unlock p => s.msgUnlock now (m.withPayload p)
  | .absolutely serial => s.msgAbsolutely now (m.withPayload serial)
  | .lockEntering p => s.msgLockEntering now (m.withPayload p)
  | .lockEntered p => s.msgLockEntered now p
  | .getMaxTicket p => s.msgGetMaxTicket now (m.withPayload p)
  | .maxTicket p ticketId => s.msgMaxTicket now p ticketId
  | .addTicket p _ => s.msgAddTicket (m.withPayload p)
  | .ticketAdded p => s.msgTicketAdded now p
  | .lockExiting p => s.msgLockExiting now p
  | .ticketReady p => s.msgTicketReady p
  | .activateLock p => s.msgActivateLock now (m.withPayload p)
  | .lockActivated p otherKey => s.msgLockActivated now p otherKey
  | .dropTicket p => s.msgDropTicket now p
  | .lockFailed objectName key _ => s.msgLockFailed now m objectName key
  | .clusterUp neighborsCount => s.msgClusterUp date neighborsCount
  | .clusterDown => s.msgClusterDown now
  | .lockStarted p => s.msgLockStarted date (m.withPayload p)
  | .lockLeaders p => s.msgLockLeaders now random p
  | .lockTickets tickets => some (s.msgLockTickets now tickets)
  | .serverGone serverName => s.msgServerGone date serverName
  | .locked .. | .unlocked .. | .alive .. | .status _ => some s

/-- `snaplock_timer::process_timeout()`. -/
def processTimeout (date : Int) (s : Snaplock) : Option Snaplock := s.cleanup (date / 1000000)

end Snaplock
end Snapwebsites
