import Mathlib.Algebra.Ring.Int.Defs
import Snapwebsites.Snapfirewall.Setup

/-! # Blocks without a database

While the database is away the blocks are kept in memory, sorted by their limits. What they stand for is the `BLOCK`
messages that are alive (`liveOf`): a message is blocked under the scheme "all" if one of its address is, else
under its own (`schemeOf`), and an `UNBLOCK` message ends those that are blocked under a scheme it matches. -/

namespace Snapwebsites
namespace Snapfirewall
open QString

/-- The messages, with the date at which one is handled. -/
inductive Event
  | block (now : Int) (message : Message)
  | unblock (now : Int) (message : Message)

section
variable (host : Host) (sort : List BlockInfo → List BlockInfo)

/-- `std::sort()` with `operator <`. -/
def Sorts : Prop := ∀ l, (sort l).Perm l ∧ (sort l).Pairwise fun a b => a.blockLimit ≤ b.blockLimit

/-- The first equal block is kept for the longest time, or the new one is added. -/
def keepOrAdd (info : BlockInfo) : List BlockInfo → List BlockInfo
  | [] => [info.iplockBlock]
  | b :: l => if b.same info then b.keepLongest info :: l else b :: keepOrAdd info l

/-- The block of a `BLOCK` message. -/
def newBlock (now : Int) (message : Message) : Option BlockInfo :=
  (BlockInfo.ofMessage host now message).map fun info => { info with banCount := 1 }

/-- `block_ip()` without a table. -/
def blockIp (blocks : List BlockInfo) (now : Int) (message : Message) : List BlockInfo :=
  match newBlock host now message with
  | none => blocks
  | some info => sort (keepOrAdd info blocks)

/-- `unblock_ip()` without a table: the first equal block is erased. -/
def unblockIp (blocks : List BlockInfo) (now : Int) (message : Message) : List BlockInfo :=
  match BlockInfo.ofMessage host now message with
  | none => blocks
  | some info => blocks.eraseP fun b => b.same info.iplockUnblock

def handle (blocks : List BlockInfo) : Event → List BlockInfo
  | .block now message => blockIp host sort blocks now message
  | .unblock now message => unblockIp host blocks now message

def run (events : List Event) : List BlockInfo := events.foldl (handle host sort) []

end

/-! ### The messages that are alive -/

open BlockInfo (all)

/-- The scheme under which a message is blocked. -/
def schemeOf (live : List BlockInfo) (m : BlockInfo) : QString :=
  if ∃ x ∈ live, x.ip = m.ip ∧ x.scheme = all then all else m.scheme

/-- An `UNBLOCK` message ends what is blocked under a scheme equal to its own. -/
def Ends (u : BlockInfo) (ip scheme : QString) : Prop := ip = u.ip ∧ (scheme = all ∨ u.scheme = all ∨ scheme = u.scheme)

instance instDecidableEnds (u : BlockInfo) (ip scheme : QString) : Decidable (Ends u ip scheme) :=
  inferInstanceAs (Decidable (_ ∧ _))

def liveStep (host : Host) (live : List BlockInfo) : Event → List BlockInfo
  | .block now message => live ++ (newBlock host now message).toList
  | .unblock now message =>
    match BlockInfo.ofMessage host now message with
    | none => live
    | some u => live.filter fun m => ¬Ends u m.ip (schemeOf live m)

/-- The `BLOCK` messages since the last `UNBLOCK` message for what they block. -/
def liveOf (host : Host) (events : List Event) : List BlockInfo := events.foldl (liveStep host) []

/-- The messages that are blocked under one scheme. -/
def messagesOf (live : List BlockInfo) (ip scheme : QString) : List BlockInfo :=
  live.filter fun m => m.ip = ip ∧ schemeOf live m = scheme

/-- A block stands for messages: it has their greatest limit and the sum of their counters. -/
structure Stands (b : BlockInfo) (messages : List BlockInfo) : Prop where
  le : ∀ m ∈ messages, m.blockLimit ≤ b.blockLimit
  limit : ∃ m ∈ messages, m.blockLimit = b.blockLimit
  count : b.banCount = (messages.map (·.banCount)).sum

/-- The blocks hold each address once for each scheme under which one of its messages is blocked. -/
structure Holds (blocks live : List BlockInfo) : Prop where
  once : (blocks.map fun b => (b.ip, b.scheme)).Nodup
  covers : ∀ m ∈ live, ∃ b ∈ blocks, b.ip = m.ip ∧ b.scheme = schemeOf live m
  stands : ∀ b ∈ blocks, Stands b (messagesOf live b.ip b.scheme)

/-! ### Conditions -/

/-- A `BLOCK` of all schemes finds no other scheme of its address, and an `UNBLOCK` of all schemes at most one. -/
def Orderly (host : Host) (blocks : List BlockInfo) : Event → Prop
  | .block now message => ∀ info ∈ newBlock host now message, info.scheme = all → ∀ b ∈ blocks, b.ip = info.ip → b.scheme = all
  | .unblock now message => ∀ info ∈ BlockInfo.ofMessage host now message, info.scheme = all →
      ∀ b ∈ blocks, ∀ c ∈ blocks, b.ip = info.ip → c.ip = info.ip → b.scheme = c.scheme

/-- Every event of a run is so. -/
def OrderlyRun (host : Host) (sort : List BlockInfo → List BlockInfo) : List BlockInfo → List Event → Prop
  | _, [] => True
  | blocks, e :: events => Orderly host blocks e ∧ OrderlyRun host sort (handle host sort blocks e) events

/-- The addresses of the blocks that are saved differ, and the limits of those that are not over. -/
structure Separate (limit : Int) (blocks : List BlockInfo) : Prop where
  ips : ((blocks.filter (·.isValid)).map (·.ip)).Nodup
  limits : ((blocks.filter fun b => b.isValid ∧ limit < b.blockLimit).map (·.blockLimit)).Nodup

/-- The blocks that are not over are banned, scheduled at their limits, with their counts. -/
structure Saved (limit : Int) (blocks : List BlockInfo) (t : Table) : Prop where
  ban : ∀ b ∈ blocks, b.isValid → limit < b.blockLimit → t.ban.find? b.blockLimit = some b.canonicalizedUri
  status : ∀ b ∈ blocks, b.isValid → limit < b.blockLimit → (t.info b.ip).status = some bannedText
  blockLimit : ∀ b ∈ blocks, b.isValid → limit < b.blockLimit → (t.info b.ip).blockLimit = some b.blockLimit
  banCount : ∀ b ∈ blocks, b.isValid → limit < b.blockLimit → (t.info b.ip).banCount = some b.banCount

end Snapfirewall
end Snapwebsites
