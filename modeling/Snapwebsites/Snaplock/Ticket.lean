import Snapwebsites.Communicator.QString
import Snapwebsites.Lib.SortedMap

/-! # Tickets

`snaplock_ticket`: the data of a ticket, its keys and its timeouts. A ticket is held by pointer in
several tables at once, so what a method does to it is a function on tickets here, and the daemon
applies it at the pointer. What the methods send is in `Snaplock.Daemon`. -/

namespace Snapwebsites
open QString

/-! ### Numbers and place markers -/

/-- An `int64_t` that is stored in an `int32_t`. -/
def int32 (n : Int) : Int := n.bmod 0x100000000

namespace QString

/-- The digits of the characters of 16 bits, in rows: the code of the first digit, its value and the number of digits. -/
def digitRows : List (Nat × Nat × Nat) :=
  [(0x0030, 0, 10), (0x00B2, 2, 2), (0x00B9, 1, 1), (0x0660, 0, 10), (0x06F0, 0, 10), (0x07C0, 0, 10), (0x0966, 0, 10),
    (0x09E6, 0, 10), (0x0A66, 0, 10), (0x0AE6, 0, 10), (0x0B66, 0, 10), (0x0BE6, 0, 10), (0x0C66, 0, 10), (0x0CE6, 0, 10),
    (0x0D66, 0, 10), (0x0DE6, 0, 10), (0x0E50, 0, 10), (0x0ED0, 0, 10), (0x0F20, 0, 10), (0x1040, 0, 10), (0x1090, 0, 10),
    (0x1369, 1, 9), (0x17E0, 0, 10), (0x1810, 0, 10), (0x1946, 0, 10), (0x19D0, 0, 10), (0x19DA, 1, 1), (0x1A80, 0, 10),
    (0x1A90, 0, 10), (0x1B50, 0, 10), (0x1BB0, 0, 10), (0x1C40, 0, 10), (0x1C50, 0, 10), (0x2070, 0, 1), (0x2074, 4, 6),
    (0x2080, 0, 10), (0x2460, 1, 9), (0x2474, 1, 9), (0x2488, 1, 9), (0x24EA, 0, 1), (0x24F5, 1, 9), (0x24FF, 0, 1),
    (0x2776, 1, 9), (0x2780, 1, 9), (0x278A, 1, 9), (0xA620, 0, 10), (0xA8D0, 0, 10), (0xA900, 0, 10), (0xA9D0, 0, 10),
    (0xA9F0, 0, 10), (0xAA50, 0, 10), (0xABF0, 0, 10), (0xFF10, 0, 10)]

/-- `QChar::digitValue()`. -/
def digitValue (c : Char) : Option Nat :=
  (digitRows.find? fun r => decide (r.1 ≤ c.toNat ∧ c.toNat < r.1 + r.2.2)).map fun r => r.2.1 + (c.toNat - r.1)

/-- The number of a place marker behind its `%`, and the number of characters it takes. -/
def marker : QString → Option (Nat × Nat)
  | 'L' :: s => (digitPair s).map fun p => (p.1, p.2 + 1)
  | s => digitPair s
where
  digitPair : QString → Option (Nat × Nat)
    | c :: s => (digitValue c).map fun n => (s.head?.bind digitValue).elim (n, 1) fun m => (10 * n + m, 2)
    | [] => none

/-- The smallest number of a place marker. -/
def lowestMarker : QString → Option Nat
  | '%' :: s => match marker s, lowestMarker s with
    | some (n, _), some m => some (min n m)
    | some (n, _), none => some n
    | none, m => m
  | _ :: s => lowestMarker s
  | [] => none

/-- Every marker with the number `lowest` is replaced; the counter is the number of characters left
    to skip. -/
def argFrom (lowest : Nat) (a : QString) : Nat → QString → QString
  | _, [] => []
  | n + 1, _ :: s => argFrom lowest a n s
  | 0, c :: s => match decide (c = '%'), marker s with
    | true, some (n, length) => if n = lowest then a ++ argFrom lowest a length s else c :: argFrom lowest a 0 s
    | _, _ => c :: argFrom lowest a 0 s

/-- `QString::arg()` of a text: the place markers with the lowest number are replaced, wherever they
    come from. -/
def arg (s a : QString) : QString :=
  match lowestMarker s with
  | some lowest => argFrom lowest a 0 s
  | none => s

/-- `QString("%1").arg(n, 8, 16, QChar('0'))`. -/
def hex8 (n : UInt32) : QString :=
  let digits := Nat.toDigits 16 n.toNat
  List.replicate (8 - digits.length) '0' ++ digits

end QString

/-! ### Tickets -/

namespace SnapLock

def defaultTimeout : Int := 5
def minimumTimeout : Int := 3
def unlockMinimumTimeout : Int := 60
def unlockUsesLockTimeout : Int := -1
def maximumTimeout : Int := 7 * 24 * 60 * 60

end SnapLock

/-- A ticket; `tag` is the LOCK request it was made for, which no code reads. -/
structure SnaplockTicket where
  objectName : QString := []
  obtentionTimeout : Int := 0
  aliveTimeout : Int := 0
  lockDuration : Int := 0
  unlockDuration : Int := 0
  serverName : QString := []
  serviceName : QString := []
  owner : QString := []
  serial : Int := -1
  enteringKey : QString := []
  getMaxTicket : Bool := false
  ourTicket : UInt32 := 0
  addedTicket : Bool := false
  ticketKey : QString := []
  addedTicketQuorum : Bool := false
  stillEntering : SortedMap QString Nat := ∅
  ticketReady : Bool := false
  locked : Bool := false
  lockTimeout : Int := 0
  lockFailed : Bool := false
  tag : Nat := 0
  deriving DecidableEq

/-- `QString("%1/%2").arg(server_name).arg(client_pid)`. -/
def enteringKey (serverName : QString) (clientPid : Int) : QString :=
  arg (arg "%1/%2".toList serverName) (number clientPid)

/-- `QString("%1/%2").arg(f_our_ticket, 8, 16, QChar('0')).arg(f_entering_key)`. -/
def ticketKey (ourTicket : UInt32) (enteringKey : QString) : QString :=
  arg (arg "%1/%2".toList (hex8 ourTicket)) enteringKey

namespace SnaplockTicket

/-- The clamping of a duration to what a lock may last. -/
def clamp (duration : Int) : Int :=
  if duration < SnapLock.unlockMinimumTimeout then SnapLock.unlockMinimumTimeout
  else if duration > SnapLock.maximumTimeout then SnapLock.maximumTimeout
  else duration

def setUnlockDuration (t : SnaplockTicket) (duration : Int) : SnaplockTicket :=
  { t with unlockDuration := clamp (if duration = SnapLock.unlockUsesLockTimeout then t.lockDuration else duration) }

def setSerial (t : SnaplockTicket) (serial : Int) : SnaplockTicket := { t with serial }

/-- The constructor; `owner` is the daemon that makes the ticket. -/
def make (objectName enteringKey : QString) (obtentionTimeout lockDuration : Int) (serverName serviceName owner : QString)
    (tag : Nat) : SnaplockTicket :=
  { objectName, enteringKey, obtentionTimeout, lockDuration := clamp lockDuration, unlockDuration := clamp (clamp lockDuration)
    serverName, serviceName, owner, tag }

def setAliveTimeout (t : SnaplockTicket) (timeout : Int) : SnaplockTicket :=
  let timeout := if timeout < 0 then 0 else timeout
  { t with aliveTimeout := if timeout < t.obtentionTimeout then timeout else t.obtentionTimeout }

def getCurrentTimeout (t : SnaplockTicket) : Int :=
  if t.aliveTimeout > 0 then t.aliveTimeout
  else if t.locked then t.lockTimeout
  else t.obtentionTimeout

def timedOut (now : Int) (t : SnaplockTicket) : Bool := decide (t.getCurrentTimeout ≤ now)

/-- The ticket may become the lock: it is ready, and neither locked nor failed. -/
def activatable (t : SnaplockTicket) : Bool := t.ticketReady && !t.locked && !t.lockFailed

/-- What `lock_failed()` does to the ticket. -/
def fail (t : SnaplockTicket) : SnaplockTicket :=
  if t.lockFailed then t
  else { t with lockFailed := true, lockTimeout := if t.locked then t.lockTimeout + t.unlockDuration else t.lockTimeout }

/-- What `lock_activated()` does to the ticket. -/
def activate (now : Int) (t : SnaplockTicket) : SnaplockTicket :=
  if t.activatable then { t with locked := true, lockTimeout := t.lockDuration + now } else t

/-- What `add_ticket()` and `set_ticket_number()` do to the ticket. -/
def setTicketNumber (t : SnaplockTicket) (ourTicket : UInt32) : SnaplockTicket :=
  { t with addedTicket := true, ourTicket, ticketKey := Snapwebsites.ticketKey ourTicket t.enteringKey }

/-- What `max_ticket()` makes of the number of the ticket. -/
def nextNumber (t : SnaplockTicket) (newMaxTicket : Int) : UInt32 :=
  (if newMaxTicket > t.ourTicket.toNat then UInt32.ofInt newMaxTicket else t.ourTicket) + 1

/-- `get_client_pid()`; `none` is the exception. -/
def getClientPid (t : SnaplockTicket) : Option Int :=
  match t.enteringKey.splitOn '/' with
  | [_, pid] => some ((toInt pid).getD 0)
  | _ => none

/-! ### The text of a ticket -/

def boolText (b : Bool) : QString := if b then "true".toList else "false".toList

/-- The fields that `serialize()` writes, in the order of the map. -/
def fields (t : SnaplockTicket) : SortedMap QString QString :=
  SortedMap.insertAll ∅ ([("object_name".toList, t.objectName), ("obtention_timeout".toList, QString.number t.obtentionTimeout),
    ("lock_duration".toList, QString.number t.lockDuration), ("unlock_duration".toList, QString.number t.unlockDuration),
    ("server_name".toList, t.serverName), ("service_name".toList, t.serviceName), ("owner".toList, t.owner)] ++
    (if t.serial ≠ -1 then [("serial".toList, QString.number t.serial)] else []) ++
    [("entering_key".toList, t.enteringKey), ("get_max_ticket".toList, boolText t.getMaxTicket),
    ("our_ticket".toList, QString.number t.ourTicket.toNat), ("added_ticket".toList, boolText t.addedTicket),
    ("ticket_key".toList, t.ticketKey), ("added_ticket_quorum".toList, boolText t.addedTicketQuorum),
    ("ticket_ready".toList, boolText t.ticketReady), ("locked".toList, boolText t.locked),
    ("lock_timeout".toList, QString.number t.lockTimeout), ("lock_failed".toList, boolText t.lockFailed)])

def serialize (t : SnaplockTicket) : QString :=
  (t.fields.entries.map fun e => e.1 ++ '=' :: (replaceMany e.2 [("|".toList, "%7C".toList)] ++ ['|'])).flatten

/-- `toLong(&ok, 10)`, which is zero for a text that is no number. -/
def toLong (value : QString) : Int := (toLongLong value).getD 0

/-- One `name=value` of a serialized ticket. -/
def setField (t : SnaplockTicket) (name value : QString) : SnaplockTicket :=
  let isTrue := decide (value = "true".toList)
  if name = "object_name".toList then { t with objectName := value }
  else if name = "obtention_timeout".toList then { t with obtentionTimeout := toLong value }
  else if name = "lock_duration".toList then { t with lockDuration := int32 (toLong value) }
  else if name = "unlock_duration".toList then { t with unlockDuration := int32 (toLong value) }
  else if name = "server_name".toList then { t with serverName := value }
  else if name = "service_name".toList then { t with serviceName := value }
  else if name = "owner".toList then { t with owner := value }
  else if name = "serial".toList then { t with serial := int32 (toLong value) }
  else if name = "entering_key".toList then { t with enteringKey := value }
  else if name = "get_max_ticket".toList then { t with getMaxTicket := t.getMaxTicket || isTrue }
  else if name = "our_ticket".toList then { t with ourTicket := UInt32.ofInt (toLong value) }
  else if name = "added_ticket".toList then { t with addedTicket := t.addedTicket || isTrue }
  else if name = "ticket_key".toList then { t with ticketKey := value }
  else if name = "added_ticket_quorum".toList then { t with addedTicketQuorum := t.addedTicketQuorum || isTrue }
  else if name = "ticket_ready".toList then { t with ticketReady := t.ticketReady || isTrue }
  else if name = "locked".toList then { t with locked := t.locked || isTrue }
  else if name = "lock_timeout".toList then { t with lockTimeout := max t.lockTimeout (toLong value) }
  else if name = "lock_failed".toList then { t with lockFailed := t.lockFailed || isTrue }
  else t

/-- The name and the value of `name=value`; without the sign, the whole text is both. -/
def nameValue (d : QString) : QString × QString :=
  if d.contains '=' then (d.takeWhile (· ≠ '='), (d.dropWhile (· ≠ '=')).drop 1) else (d, d)

def unserialize (t : SnaplockTicket) (data : QString) : SnaplockTicket :=
  (data.splitOn '|').foldl (fun t d => t.setField (nameValue d).1 (nameValue d).2) t

end SnaplockTicket
end Snapwebsites
