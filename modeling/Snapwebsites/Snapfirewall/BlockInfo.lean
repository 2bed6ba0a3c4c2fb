import Snapwebsites.Communicator.QString
import Snapwebsites.Lib.SortedMap

/-! # Blocked addresses

`block_info_t` is read from a message or from the URI of a scheduled block, and saved in the firewall table: the row
of the server has a cell for the time at which a block ends, with the URI, and the row of an address has what is
known of it. The row of an address is the same whatever the scheme. -/

namespace Snapwebsites
namespace Snapfirewall
open QString

/-- The addresses that may be blocked, and the schemes that `iplock` has a file of. -/
structure Host where
  blockable : QString → Bool
  hasScheme : QString → Bool

/-- A host that blocks every address, with every scheme. -/
def openHost : Host := ⟨fun _ => true, fun _ => true⟩

/-- `BLOCK_INFO_UNDEFINED` and so on. -/
inductive Status
  | undefined | banned | unbanned
deriving DecidableEq

/-- `block_info_t`. -/
structure BlockInfo where
  status : Status := .banned
  scheme : QString := "http".toList
  ip : QString := []
  reason : QString := []
  blockLimit : Int := 0
  banCount : Int := 0
  packetCount : Int := 0
  byteCount : Int := 0
deriving DecidableEq

/-- The parameters of a `BLOCK` or `UNBLOCK` message. -/
structure Message where
  uri : Option QString
  period : Option QString := none
  reason : Option QString := none

/-! ### URIs -/

/-- What stands in front of the first `://`, and behind it. -/
def splitScheme : QString → Option (QString × QString)
  | [] => none
  | c :: s => if "://".toList.isPrefixOf (c :: s) then some ([], s.drop 2) else (splitScheme s).map fun p => (c :: p.1, p.2)

def lowercase (c : Char) : Char := if 'A' ≤ c ∧ c ≤ 'Z' then Char.ofNat (c.toNat + 0x20) else c

def isLetter (c : Char) : Bool := 'a' ≤ c && c ≤ 'z'

def isSchemeCharacter (c : Char) : Bool := isLetter c || ('0' ≤ c && c ≤ '9') || c = '+' || c = '-' || c = '.'

/-- The scheme in lowercase, or the default one. -/
def canonicalScheme (scheme : QString) : QString :=
  let s := scheme.map lowercase
  if s.head?.any isLetter && s.tail.all isSchemeCharacter && s.length ≤ 20 then s else "http".toList

def day : Int := 24 * 60 * 60 * 1000000

/-- The length of a period; an unknown one is a day. -/
def periodOf (period : QString) : Int :=
  if period = "5min".toList then 5 * 60 * 1000000
  else if period = "hour".toList then 60 * 60 * 1000000
  else if period = "day".toList then day
  else if period = "week".toList then 7 * day
  else if period = "month".toList then 31 * day
  else if period = "year".toList then 366 * day
  else if period = "forever".toList then 5 * 366 * day
  else day

namespace BlockInfo
variable (host : Host)

def isValid (b : BlockInfo) : Bool := b.ip ≠ []

/-- The scheme stays what it was where it has no file. -/
def setScheme (b : BlockInfo) (scheme : QString) : BlockInfo :=
  if host.hasScheme (canonicalScheme scheme) then { b with scheme := canonicalScheme scheme } else b

def setIp (b : BlockInfo) (ip : QString) : BlockInfo := if ip ≠ [] ∧ host.blockable ip then { b with ip } else b

def setUri (b : BlockInfo) (uri : QString) : BlockInfo :=
  match splitScheme uri with
  | some (c :: scheme, ip) => (b.setScheme host (c :: scheme)).setIp host ip
  | _ => b.setIp host uri

def setBlockLimit (b : BlockInfo) (now : Int) (period : QString) : BlockInfo := { b with blockLimit := now + periodOf period }

/-- The constructor from a message; the status is the default one. A message without a URI throws. -/
def ofMessage (now : Int) (message : Message) : Option BlockInfo :=
  message.uri.map fun uri =>
    { ((({} : BlockInfo).setUri host uri).setBlockLimit now (message.period.getD "day".toList)) with
      reason := message.reason.getD [], status := .banned }

/-- The constructor from a URI. -/
def ofUri (now : Int) (uri : QString) : BlockInfo := (({} : BlockInfo).setUri host uri).setBlockLimit now []

def canonicalizedUri (b : BlockInfo) : QString :=
  if b.ip.isEmpty then b.ip else if b.scheme.isEmpty then b.ip else b.scheme ++ "://".toList ++ b.ip

def all : QString := "all".toList

/-- `operator ==`: the scheme "all" is equal to every scheme. -/
def same (b c : BlockInfo) : Bool :=
  if b.scheme = all ∨ c.scheme = all then b.ip = c.ip else b.scheme = c.scheme ∧ b.ip = c.ip

/-- What is left in memory behind `iplock_block()` and `iplock_unblock()`. -/
def iplockBlock (b : BlockInfo) : BlockInfo := { b with status := .banned }

def iplockUnblock (b : BlockInfo) : BlockInfo := { b with status := .unbanned }

/-- A block of all schemes is done first, and undone for the scheme that the block had. -/
def keepLongest (b block : BlockInfo) : BlockInfo :=
  let b' := if block.scheme = all ∧ b.scheme ≠ all then
      { ({ ({ b with scheme := all } : BlockInfo).iplockBlock with scheme := b.scheme } : BlockInfo).iplockUnblock with scheme := all }
    else b
  { b' with
    blockLimit := if b'.blockLimit < block.blockLimit then block.blockLimit else b'.blockLimit
    banCount := b'.banCount + block.banCount
    packetCount := b'.packetCount + block.packetCount
    byteCount := b'.byteCount + block.byteCount }

end BlockInfo

/-! ### The table -/

def bannedText : QString := "banned".toList

def unbannedText : QString := "unbanned".toList

/-- The cells of this server in the row of an address. -/
structure InfoRow where
  blockLimit : Option Int := none
  status : Option QString := none
  reason : Option QString := none
  banCount : Option Int := none
  packetCount : Option Int := none
  byteCount : Option Int := none
  created : Option Int := none
  modified : Option Int := none
deriving DecidableEq

/-- The row of the server, a URI for each time, and the rows of the addresses. -/
structure Table where
  ban : SortedMap Int QString := ∅
  info : QString → InfoRow := fun _ => {}

def Table.setInfo (t : Table) (ip : QString) (row : InfoRow) : Table := { t with info := fun i => if i = ip then row else t.info i }

@[simp] theorem Table.ban_setInfo (t : Table) (ip : QString) (row : InfoRow) : (t.setInfo ip row).ban = t.ban := rfl

theorem Table.info_setInfo (t : Table) (ip : QString) (row : InfoRow) (i : QString) :
    (t.setInfo ip row).info i = if i = ip then row else t.info i := rfl

namespace BlockInfo

/-- The reasons with one more; a reason that is a part of the old ones replaces them. -/
def reasons (old : Option QString) (reason : QString) : Option QString :=
  if reason = [] then old
  else
    match old with
    | none => some reason
    | some old =>
      if old = reason then some old
      else if old.tails.any (reason.isPrefixOf ·) then some reason
      else some (old ++ '\n' :: reason)

/-- The row of an address after a block was saved. -/
def saveInfo (b : BlockInfo) (now : Int) (row : InfoRow) : InfoRow where
  blockLimit := some b.blockLimit
  status := some (if b.status = .banned then bannedText else unbannedText)
  reason := reasons row.reason b.reason
  banCount := if 0 < b.banCount then some (b.banCount + row.banCount.getD 0) else row.banCount
  packetCount := if 0 < b.packetCount then some b.packetCount else row.packetCount
  byteCount := if 0 < b.byteCount then some b.byteCount else row.byteCount
  created := some (row.created.getD now)
  modified := some now

/-- The row of the server after a block was saved. -/
def saveBan (b : BlockInfo) (ban : SortedMap Int QString) (old : Option Int) : SortedMap Int QString :=
  let ban := match old with
    | some oldLimit => if oldLimit ≠ b.blockLimit then ban.erase oldLimit else ban
    | none => ban
  if b.status = .banned then ban.insert b.blockLimit b.canonicalizedUri else ban.erase b.blockLimit

/-- `save()`: a block of an address that is blocked for longer is left alone. -/
def save (b : BlockInfo) (now : Int) (t : Table) : BlockInfo × Table :=
  if !b.isValid then (b, t)
  else
    let b := if b.status = .undefined then { b with status := .banned } else b
    let row := t.info b.ip
    if b.status = .banned ∧ row.blockLimit.any (b.blockLimit ≤ ·) then (b, t)
    else ({ b with banCount := if 0 < b.banCount then 0 else b.banCount },
      { t with ban := b.saveBan t.ban row.blockLimit }.setInfo b.ip (b.saveInfo now row))

variable {b : BlockInfo} {t : Table}

theorem save_invalid (h : b.isValid = false) (now : Int) : b.save now t = (b, t) := by
  rw [save, if_pos (by rw [h]; rfl)]

/-- A banned block is scheduled at its time. -/
theorem find?_saveBan (hbanned : b.status = .banned) (ban : SortedMap Int QString) (old : Option Int) :
    (b.saveBan ban old).find? b.blockLimit = some b.canonicalizedUri := by
  unfold saveBan
  simp only [if_pos hbanned]
  exact SortedMap.find?_insert_self _ _ _

/-- The blocks at other times stay, but for the old one of the address. -/
theorem find?_saveBan_of_ne (hbanned : b.status = .banned) (ban : SortedMap Int QString) {old : Option Int} {k : Int}
    (hk : k ≠ b.blockLimit) (hold : some k ≠ old) : (b.saveBan ban old).find? k = ban.find? k := by
  unfold saveBan
  simp only [if_pos hbanned]
  rw [SortedMap.find?_insert_of_ne hk]
  cases old with
  | none => rfl
  | some o =>
    simp only
    split
    · exact SortedMap.find?_erase_of_ne fun h => hold (congrArg some h)
    · rfl

/-- The row of the address has a later time. -/
def Longer (b : BlockInfo) (t : Table) : Prop := (t.info b.ip).blockLimit.any (b.blockLimit ≤ ·) = true

theorem save_longer (hvalid : b.isValid = true) (hbanned : b.status = .banned) (h : b.Longer t) (now : Int) : b.save now t = (b, t) := by
  have hundefined : ¬b.status = .undefined := by rw [hbanned]; decide
  rw [save, if_neg (by rw [hvalid]; decide)]
  simp only [hbanned, true_and, reduceCtorEq, if_false]
  exact if_pos h

/-- A block that is not banned for longer is written in both rows. -/
theorem save_banned (hvalid : b.isValid = true) (hbanned : b.status = .banned) (h : ¬b.Longer t) (now : Int) :
    b.save now t = ({ b with banCount := if 0 < b.banCount then 0 else b.banCount },
      { t with ban := b.saveBan t.ban (t.info b.ip).blockLimit }.setInfo b.ip (b.saveInfo now (t.info b.ip))) := by
  rw [save, if_neg (by rw [hvalid]; decide)]
  simp only [hbanned, true_and, reduceCtorEq, if_false]
  exact if_neg h

end BlockInfo

end Snapfirewall
end Snapwebsites
