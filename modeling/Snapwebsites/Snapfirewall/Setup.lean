import Snapwebsites.Snapfirewall.BlockInfo

/-! # The setup of the firewall

`setup_firewall()` goes over the row of the server page by page, a cursor in the table as it is by then, saves the
blocks that are over and gathers the others for `iplock`; then it saves the pending blocks. The date is read again
for every block that is created or saved, so the dates are a sequence. -/

namespace Snapwebsites
namespace Snapfirewall
open QString

/-- What `setup_firewall()` works on: the table, the cell that the cursor is behind, the blocks for `iplock`, and how many
    dates were read. -/
structure Setup where
  table : Table
  position : Option Int := none
  wakeup : Option Int := none
  toBlock : List BlockInfo := []
  ticks : Nat := 0

/-- One minute, the precision that is lost. -/
def minute : Int := 60 * 1000000

section
variable (host : Host) (date : Nat → Int)

/-- A cell of the row: its block is over, or it is one for `iplock`. -/
def setupCell (limit : Int) (s : Setup) (e : Int × QString) : Setup :=
  let info := BlockInfo.ofUri host (date s.ticks) ((s.table.ban.find? e.1).getD e.2)
  if e.1 < limit then
    let t := (info.save (date (s.ticks + 1)) s.table).2
    { s with table := { t with ban := t.ban.erase e.1 }, ticks := s.ticks + 2 }
  else { s with wakeup := some (s.wakeup.getD e.1), toBlock := s.toBlock ++ [info], ticks := s.ticks + 1 }

/-- The next cells behind the cursor, at most 100. -/
def page (s : Setup) : List (Int × QString) := (s.table.ban.entries.filter fun e => s.position.all (· < e.1)).take 100

/-- The pages of the row, until one is empty. -/
def setupRow (limit : Int) : Nat → Setup → Option Setup
  | 0, _ => none
  | fuel + 1, s =>
    match page s with
    | [] => some s
    | e :: l => setupRow limit fuel { (e :: l).foldl (setupCell host date limit) s with position := ((e :: l).getLast?).map (·.1) }

/-- A pending block: one that is not over is for `iplock`, and all are saved. -/
def setupBlock (limit : Int) (s : Setup) (info : BlockInfo) : Setup :=
  { s with
    table := (info.save (date s.ticks) s.table).2
    toBlock := if info.blockLimit ≤ limit then s.toBlock else s.toBlock ++ [info]
    ticks := s.ticks + 1 }

/-- The line of a block in the file for `iplock`. -/
def batchLine (info : BlockInfo) : QString := info.ip ++ ' ' :: info.scheme ++ ['\n']

def batch (s : Setup) : QString := s.toBlock.flatMap batchLine

/-- `setup_firewall()` with a table; the first date is that of the start. -/
def setupFirewall (fuel : Nat) (t : Table) (blocks : List BlockInfo) : Option Setup :=
  let limit := date 0 + minute
  (setupRow host date limit fuel { table := t, ticks := 1 }).map fun s => blocks.foldl (setupBlock date limit) s

end

end Snapfirewall
end Snapwebsites
