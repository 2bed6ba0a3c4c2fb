import Snapwebsites.Snaplock.Daemon

/-! # The messages about tickets

The way of a ticket from LOCK to LOCKED and UNLOCKED, as the leaders handle it: the methods of
`snaplock_ticket` that take it one step on, and the handlers of `snaplock` that call them. With one
leader there is nobody to wait for, so a method calls the next one at once; they come in the reverse
order here. -/

namespace Snapwebsites
open QString

namespace Snaplock

/-! ### The way of a ticket -/

/-- `remove_entering()`. -/
def removeEntering (now : Int) (s : Snaplock) (p : Nat) (key : QString) : Option Snaplock :=
  let t := s.ticket p
  if t.addedTicketQuorum && !t.ticketReady && t.stillEntering.contains key then
    let stillEntering := (t.stillEntering.erase key).filter fun e => !(s.ticket e.2).timedOut now
    let t := { t with stillEntering, ticketReady := stillEntering.isEmpty }
    let s := s.setTicket p t
    if stillEntering.isEmpty then do
      let (s, _) ← s.sendMessageToLeaders t.tag (.ticketReady { objectName := t.objectName, key := t.ticketKey })
      some s
    else some s
  else some s

/-- What `msg_lock_exiting()` does about an entering ticket that it finds. -/
def exit (now : Int) (s : Snaplock) (p : KeyParameters) : Option Snaplock := do
  let table := (s.enteringOf p.objectName).erase p.key
  let s := { s with enteringTickets := s.enteringTickets.insert p.objectName table }
  let s ← (s.ticketsOf p.objectName).entries.foldlM (fun s e => s.removeEntering now e.2 p.key) s
  let s ← (if (s.ticketsOf p.objectName).isEmpty then some s else s.activateFirstLock now p.objectName)
  some (s.putEntering p.objectName table)

def msgLockExiting (now : Int) (s : Snaplock) (p : KeyParameters) : Option Snaplock :=
  if p.objectName = [] ∨ p.key = [] then none
  else do
    let s ← (if (s.enteringOf p.objectName).contains p.key then s.exit now p else some s)
    s.cleanup now

/-- `ticket_added()`. -/
def ticketAdded (now : Int) (s : Snaplock) (p : Nat) (stillEntering : SortedMap QString Nat) : Option Snaplock :=
  let t := s.ticket p
  if t.addedTicketQuorum then some s
  else do
    let s := s.setTicket p { t with addedTicketQuorum := true, stillEntering }
    let key : KeyParameters := { objectName := t.objectName, key := t.enteringKey }
    let (s, _) ← s.sendMessageToLeaders t.tag (.lockExiting key)
    s.msgLockExiting now key

def setTicketIn (s : Snaplock) (objectName key : QString) (p : Nat) : Snaplock :=
  { s with tickets := s.tickets.insert objectName ((s.ticketsOf objectName).insert key p) }

/-- `add_ticket()` of a ticket that gets the number `ourTicket`. -/
def addTicket (now : Int) (s : Snaplock) (p : Nat) (ourTicket : UInt32) : Option Snaplock := do
  let t := (s.ticket p).setTicketNumber ourTicket
  let s := (s.setTicket p t).setTicketIn t.objectName t.ticketKey p
  let (s, wait) ← s.sendMessageToLeaders t.tag
    (.addTicket { objectName := t.objectName, key := t.ticketKey } t.obtentionTimeout)
  if wait then some s else s.ticketAdded now p (s.enteringOf t.objectName)

/-- `max_ticket()`. -/
def maxTicket (now : Int) (s : Snaplock) (p : Nat) (newMaxTicket : Int) : Option Snaplock :=
  if (s.ticket p).addedTicket then some s else s.addTicket now p ((s.ticket p).nextNumber newMaxTicket)

/-- The largest number of a ticket of the object. -/
def getLastTicket (s : Snaplock) (objectName : QString) : UInt32 :=
  (s.ticketsOf objectName).entries.foldl (fun last e => if (s.ticket e.2).ourTicket > last then (s.ticket e.2).ourTicket else last) 0

/-- `entered()`. -/
def entered (now : Int) (s : Snaplock) (p : Nat) : Option Snaplock :=
  let t := s.ticket p
  if t.getMaxTicket then some s
  else do
    let last := s.getLastTicket t.objectName
    let s := s.setTicket p { t with getMaxTicket := true, ourTicket := last }
    let (s, wait) ← s.sendMessageToLeaders t.tag (.getMaxTicket { objectName := t.objectName, key := t.enteringKey })
    if wait then some s else s.maxTicket now p last.toNat

/-- `entering()`. -/
def entering (now : Int) (s : Snaplock) (p : Nat) : Option Snaplock := do
  let t := s.ticket p
  let (s, wait) ← s.sendMessageToLeaders t.tag (.lockEntering
    { objectName := t.objectName, key := t.enteringKey, timeout := some t.obtentionTimeout, duration := t.lockDuration
      unlockDuration := if t.lockDuration ≠ t.unlockDuration then some t.unlockDuration else none
      source := t.serverName ++ '/' :: t.serviceName, serial := t.serial })
  if wait then some s else s.entered now p

/-! ### LOCK and UNLOCK -/

def forwardMessageToLeader {γ : Type} (s : Snaplock) (message : LockMessage γ) (payload : LockCommand) : Snaplock :=
  let nextLeader := (s.nextLeader + 1) % s.leaders.length
  { s with nextLeader }.send
    { message.withPayload payload with
      service := "snaplock".toList
      lockProxyServerName := some message.sentFromServer
      lockProxyServiceName := some message.sentFromService
      server := ((s.leaders[nextLeader]?.map s.computer).getD {}).name }

/-- The serial number of the next ticket. -/
def nextSerial (s : Snaplock) : Nat :=
  let serial := (s.ticketSerial + 1) &&& 0x00FFFFFF
  let isMe := fun l => decide ((s.computer l).id = s.myId)
  if (s.leaders[0]?.map isMe).getD true then serial
  else if (s.leaders[1]?.map fun l => !isMe l).getD false then serial ||| (1 <<< 24)
  else if (s.leaders[2]?.map fun l => !isMe l).getD false then serial ||| (2 <<< 24)
  else serial

/-- The timeout of a request. -/
def timeoutOr (now : Int) (timeout : Option Int) : Int := timeout.getD (now + 5)

/-- The parameter `unlock_duration`. -/
def unlockDurationOf (unlockDuration : Option Int) : Int := (unlockDuration.map int32).getD SnapLock.unlockUsesLockTimeout

/-- The ticket that a leader makes for a LOCK. -/
def lockTicket (now : Int) (s : Snaplock) (message : LockMessage LockParameters) : SnaplockTicket :=
  let m := message.payload
  ((SnaplockTicket.make m.objectName (enteringKey message.clientServer (int32 m.pid)) (timeoutOr now m.timeout) (int32 m.duration)
    message.clientServer message.clientService s.serverName message.tag).setUnlockDuration (unlockDurationOf m.unlockDuration)).setSerial
    s.nextSerial

/-- The ALIVE for a ticket that waits for its client to answer. -/
def sendAlive (now : Int) (s : Snaplock) (message : LockMessage LockParameters) : Snaplock :=
  s.send
    { server := message.clientServer, service := message.clientService, tag := message.tag
      payload := .alive (arg (arg "relock/%1/%2".toList message.payload.objectName)
        (enteringKey message.clientServer (int32 message.payload.pid))) now }

/-- The end of `msg_lock()`: a leader makes a ticket. -/
def makeTicket (now : Int) (s : Snaplock) (message : LockMessage LockParameters) : Option Snaplock := do
  let m := message.payload
  let p := s.nextTicket
  let t := s.lockTicket now message
  let s := { s with ticketSerial := s.nextSerial }.newEntering m.objectName t.enteringKey t
  let s ← (if m.serial.isSome then some ((s.setTicket p (t.setAliveTimeout (5 + now))).sendAlive now message)
    else s.entering now p)
  s.cleanup now

/-- The LOCKFAILED that answers a LOCK. -/
def refuse (s : Snaplock) (message : LockMessage LockParameters) (error : String) : Snaplock :=
  s.send (message.reply (.lockFailed message.payload.objectName
    (some (enteringKey message.clientServer (int32 message.payload.pid))) error.toList))

def msgLock (now : Int) (s : Snaplock) (message : LockMessage LockParameters) : Option Snaplock :=
  let m := message.payload
  let key := enteringKey message.clientServer (int32 m.pid)
  let timeout := timeoutOr now m.timeout
  if m.objectName = [] ∨ int32 m.pid < 1 then none
  else do
    let s ← s.cleanup now
    if timeout ≤ now then some (s.refuse message "timedout")
    else if int32 m.duration < SnapLock.minimumTimeout then some (s.refuse message "invalid")
    else if (m.unlockDuration.map fun d => decide (int32 d < SnapLock.unlockMinimumTimeout)).getD false then
      some (s.refuse message "invalid")
    else if !s.ready then
      let s := s.checkLeaders now
      some { s with messageCache := s.messageCache ++ [{ timeout, message }] }
    else if !s.isLeader then some (s.forwardMessageToLeader message (.lock m))
    else match (s.enteringOf m.objectName).find? key with
      | some p =>
        if (m.serial.map fun serial => decide ((s.ticket p).serial = int32 serial)).getD false then some s
        else some (s.refuse message "duplicate")
      | none =>
        if (s.findEnteringKey (s.ticketsOf m.objectName) key).isSome then some (s.refuse message "duplicate")
        else s.makeTicket now message

/-- The ticket with the entering key is dropped and erased. -/
def unlockTicket (s : Snaplock) (objectName key : QString) : Option Snaplock :=
  match s.findEnteringKey (s.ticketsOf objectName) key with
  | some (ticketKey, p) => do
    let s ← s.dropTicket p
    some (s.putTickets objectName ((s.ticketsOf objectName).erase ticketKey))
  | none => some s

def msgUnlock (now : Int) (s : Snaplock) (message : LockMessage UnlockParameters) : Option Snaplock :=
  let m := message.payload
  if !s.ready then some (s.checkLeaders now)
  else if !s.isLeader then some (s.forwardMessageToLeader message (.unlock m))
  else if m.objectName = [] ∨ int32 m.pid < 1 then none
  else do
    let s ← s.unlockTicket m.objectName (enteringKey message.clientServer (int32 m.pid))
    s.cleanup now

/-- The answer to ALIVE lets the ticket enter. -/
def msgAbsolutely (now : Int) (s : Snaplock) (message : LockMessage QString) : Option Snaplock :=
  match message.payload.splitOn '/' with
  | [relock, objectName, serverName, clientPid] =>
    if relock = "relock".toList then
      match (s.enteringOf objectName).find? (arg (arg "%1/%2".toList serverName) clientPid) with
      | some p => (s.setTicket p ((s.ticket p).setAliveTimeout 0)).entering now p
      | none => some s
    else some s
  | relock :: _ =>
    if relock = "relock".toList then
      some (s.send (message.reply (.lockFailed "unknown".toList none "invalid".toList)))
    else some s
  | [] => some s

/-! ### What leaders send to each other -/

/-- The ticket that the other leaders make for a LOCKENTERING. -/
def enteringTicket (now : Int) (message : LockMessage LockEnteringParameters) (serverName serviceName : QString) : SnaplockTicket :=
  let m := message.payload
  ((SnaplockTicket.make m.objectName m.key (timeoutOr now m.timeout) (int32 m.duration) serverName serviceName
    message.sentFromServer message.tag).setUnlockDuration (unlockDurationOf m.unlockDuration)).setSerial (int32 m.serial)

def msgLockEntering (now : Int) (s : Snaplock) (message : LockMessage LockEnteringParameters) : Option Snaplock :=
  let m := message.payload
  let refuse := some (s.send (message.reply (.lockFailed m.objectName (some m.key) "invalid".toList)))
  let reply (s : Snaplock) := (s.send (message.reply (.lockEntered { objectName := m.objectName, key := m.key }))).cleanup now
  if m.objectName = [] ∨ m.key = [] ∨ m.source = [] then none
  else if timeoutOr now m.timeout ≤ now then s.cleanup now
  else if !s.ready then (s.checkLeaders now).cleanup now
  else if (s.enteringOf m.objectName).contains m.key then reply s
  else if int32 m.duration < SnapLock.minimumTimeout then refuse
  else if (m.unlockDuration.map fun d => decide (int32 d ≠ SnapLock.unlockUsesLockTimeout) &&
      decide (int32 d < SnapLock.unlockMinimumTimeout)).getD false then refuse
  else match m.source.splitOn '/' with
    | [serverName, serviceName] => reply (s.newEntering m.objectName m.key (enteringTicket now message serverName serviceName))
    | _ => refuse

def msgLockEntered (now : Int) (s : Snaplock) (p : KeyParameters) : Option Snaplock :=
  if p.objectName = [] ∨ p.key = [] then none
  else match (s.enteringOf p.objectName).find? p.key with
    | some q => s.entered now q
    | none => some s

/-- A ticket key has the number of the ticket in front of the entering key, which is the result. -/
def dropKey (now : Int) (s : Snaplock) (p : KeyParameters) : Option (Snaplock × QString) :=
  match p.key.splitOn '/' with
  | [_, serverName, clientPid] => do
    let s ← (if s.tickets.contains p.objectName then
        (s.putTickets p.objectName ((s.ticketsOf p.objectName).erase p.key)).activateFirstLock now p.objectName
      else some s)
    some (s, arg (arg "%1/%2".toList serverName) clientPid)
  | _ => some (s, p.key)

def msgDropTicket (now : Int) (s : Snaplock) (p : KeyParameters) : Option Snaplock :=
  if p.objectName = [] ∨ p.key = [] then none
  else do
    let (s, key) ← s.dropKey now p
    (s.putEntering p.objectName ((s.enteringOf p.objectName).erase key)).cleanup now

def msgGetMaxTicket (now : Int) (s : Snaplock) (message : LockMessage KeyParameters) : Option Snaplock :=
  let p := message.payload
  if p.objectName = [] ∨ p.key = [] then none
  else do
    let s ← s.cleanup now
    some (s.send (message.reply (.maxTicket p (s.getLastTicket p.objectName).toNat)))

def msgMaxTicket (now : Int) (s : Snaplock) (p : KeyParameters) (ticketId : Int) : Option Snaplock :=
  if p.objectName = [] ∨ p.key = [] then none
  else match (s.enteringOf p.objectName).find? p.key with
    | some q => s.maxTicket now q ticketId
    | none => some s

/-- `toUInt(&ok, 16)`. -/
def toUInt16 (text : QString) : Option UInt32 :=
  let digit (c : Char) : Option Nat :=
    if c.isDigit then some (c.toNat - 48)
    else if 'a' ≤ c.toLower ∧ c.toLower ≤ 'f' then some (c.toLower.toNat - 87)
    else none
  let text := match trimmed text with
    | '+' :: text => text
    | text => text
  let text := match text with
    | '0' :: 'x' :: text | '0' :: 'X' :: text => text
    | text => text
  match text.mapM digit with
  | some (d :: l) =>
    let n := (d :: l).foldl (fun n d => 16 * n + d) 0
    if n < 0x100000000 then some (UInt32.ofNat n) else none
  | _ => none

def msgAddTicket (s : Snaplock) (message : LockMessage KeyParameters) : Option Snaplock :=
  let p := message.payload
  let refuse := some (s.send (message.reply (.lockFailed p.objectName (some p.key) "invalid".toList)))
  if p.objectName = [] ∨ p.key = [] then none
  else match p.key.splitOn '/' with
    | [number, serverName, clientPid] => match toUInt16 number with
      | some number => match (s.enteringOf p.objectName).find? (arg (arg "%1/%2".toList serverName) clientPid) with
        | some q =>
          -- a ticket that already has a number throws
          if (s.ticket q).ourTicket ≠ 0 ∨ (s.ticket q).addedTicket then none
          else some (((s.setTicketIn p.objectName p.key q).setTicket q ((s.ticket q).setTicketNumber number)).send
            (message.reply (.ticketAdded p)))
        | none => refuse
      | none => refuse
    | _ => refuse

def msgTicketAdded (now : Int) (s : Snaplock) (p : KeyParameters) : Option Snaplock :=
  if p.objectName = [] ∨ p.key = [] then none
  else match (s.ticketsOf p.objectName).find? p.key, s.enteringTickets.find? p.objectName with
    | some q, some table => s.ticketAdded now q table
    | _, _ => some s

def msgTicketReady (s : Snaplock) (p : KeyParameters) : Option Snaplock :=
  if p.objectName = [] ∨ p.key = [] then none
  else match (s.ticketsOf p.objectName).find? p.key with
    | some q => some (s.setTicket q { s.ticket q with ticketReady := true })
    | none => some s

def msgActivateLock (now : Int) (s : Snaplock) (message : LockMessage KeyParameters) : Option Snaplock :=
  let p := message.payload
  if p.objectName = [] ∨ p.key = [] then none
  else
    let (s, first) := s.findFirstLock now p.objectName
    let s := match first with
      | some q => if p.key = (s.ticket q).ticketKey then s.lockActivated now q else s
      | none => s
    let firstKey := match first with
      | some q => (s.ticket q).ticketKey
      | none => "no-key".toList
    (s.send (message.reply (.lockActivated p firstKey))).cleanup now

def msgLockActivated (now : Int) (s : Snaplock) (p : KeyParameters) (otherKey : QString) : Option Snaplock :=
  if p.objectName = [] ∨ p.key = [] then none
  else if otherKey = p.key then
    match (s.ticketsOf p.objectName).find? p.key with
    | some q => some (s.lockActivated now q)
    | none => some s
  else some s

/-- The ticket with the key or the entering key is erased; `none` when there is none. -/
def eraseFailed (now : Int) (s : Snaplock) (objectName key : QString) : Option (Snaplock × Option Nat) :=
  let table := s.ticketsOf objectName
  match ((table.find? key).map fun p => (key, p)) <|> s.findEnteringKey table key with
  | some (key, p) => do
    let s := s.putTickets objectName (table.erase key)
    let s ← (if (table.erase key).isEmpty then some s else s.activateFirstLock now objectName)
    some (s, some p)
  | none => some (s.putTickets objectName table, none)

/-- The ticket and the entering ticket go, and the client hears of it. The iterators that the source
    moves on last are not used again. -/
def msgLockFailed (now : Int) (s : Snaplock) (message : LockMessage LockCommand) (objectName : QString) (key : Option QString) :
    Option Snaplock := do
  let key ← key
  if objectName = [] ∨ key = [] then none
  else
    let client (p : Option Nat) := (p.map fun p => ((s.ticket p).serverName, (s.ticket p).serviceName)).getD ([], [])
    let enteringTicket := (s.enteringOf objectName).find? key
    let s := s.putEntering objectName ((s.enteringOf objectName).erase key)
    let (s, ticket) ← s.eraseFailed now objectName key
    let (server, service) := client (ticket <|> enteringTicket)
    (if server ≠ [] ∧ service ≠ [] then s.send { message with server, service } else s).cleanup now

end Snaplock
end Snapwebsites
