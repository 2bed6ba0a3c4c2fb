import Snapwebsites.Communicator.Daemon
import Snapwebsites.Lib.Program
import Snapwebsites.SnapUri.Uri

/-! # The list daemon

`snaplistd::list_data()`, the table `snaplist.journal` that it writes to, and what the backend does to that table. Which
SQL steps of a message succeed is given by `SqlSteps`. A statement outside a transaction is saved at once, since the result
of `transaction()` is not looked at. The timer that reconnects to MySQL is left out. -/

namespace Snapwebsites
open QString

/-- A row of `snaplist.journal`. -/
structure JournalRow where
  id : Nat
  domain : QString
  priority : Int
  keyStartDate : Int
  uri : QString
  status : Option Int := none
  deriving DecidableEq

/-- The journal, the rows that a rollback goes back to while a transaction is open, and the messages that were sent. -/
structure Snaplistd where
  journal : List JournalRow := []
  nextId : Nat := 1
  saved : Option (List JournalRow) := none
  sent : List SnapCommunicatorMessage := []
  deriving DecidableEq

/-- What MySQL makes of texts: the number that a text is for a column of integers, and what it compares of a text. -/
structure Mysql (κ : Type) where
  integer : QString → Int
  collate : QString → κ

/-- The steps that succeed. -/
structure SqlSteps where
  isOpen : Bool := true
  transaction : Bool := true
  select : Bool := true
  write : Bool := true
  commit : Bool := true

/-- What happens to the daemon and to its journal. -/
inductive ListEvent
  | listData (steps : SqlSteps) (message : SnapCommunicatorMessage)
  | setStatus (id : Nat) (status : Int)
  | delete (id : Nat)

namespace Snaplistd
section
variable {κ : Type} [DecidableEq κ] (mysql : Mysql κ) (tld getservbyname : QString → Option Nat) (steps : SqlSteps)

/-! ### Statements -/

def transaction : Program Snaplistd Unit :=
  modify fun s => if steps.transaction then { s with saved := some s.journal } else s

/-- The row that `SELECT` finds first. -/
def select (s : Snaplistd) (uri : QString) : Option JournalRow :=
  s.journal.find? fun r => mysql.collate r.uri = mysql.collate uri ∧ r.status = none

def greatest (keyStartDate priority : Int) (r : JournalRow) : JournalRow :=
  { r with keyStartDate := max r.keyStartDate keyStartDate, priority := min r.priority priority }

def update (id : Nat) (keyStartDate priority : QString) : Program Snaplistd Bool :=
  if steps.write then do
    modify fun s => { s with journal := s.journal.map fun r =>
      if r.id = id then greatest (mysql.integer keyStartDate) (mysql.integer priority) r else r }
    pure true
  else pure false

def insert (domain priority keyStartDate uri : QString) : Program Snaplistd Bool :=
  if steps.write then do
    modify fun s => { s with
      journal := s.journal ++ [{ id := s.nextId, domain, priority := mysql.integer priority
                                 keyStartDate := mysql.integer keyStartDate, uri }]
      nextId := s.nextId + 1 }
    pure true
  else pure false

def commit : Program Snaplistd Bool :=
  if steps.commit then do
    modify fun s => { s with saved := none }
    pure true
  else pure false

/-- The server goes back to the rows that were saved, also when `rollback()` fails for a connection that is lost. -/
def rollback : Program Snaplistd Unit :=
  modify fun s => match s.saved with
    | some journal => { s with journal, saved := none }
    | none => s

/-! ### The handler -/

/-- The message has nothing that the row lacks, by the numbers that `toLongLong()` and `toInt()` read. -/
def noUpdateRequired (r : JournalRow) (keyStartDate priority : QString) : Bool :=
  !((toLongLong keyStartDate).getD 0 > r.keyStartDate || (toInt priority).getD 0 < r.priority)

/-- The part of the handler between the transaction and its end. -/
def store (domain priority keyStartDate uri : QString) : Program Snaplistd Bool :=
  if steps.select then do
    let s ← get
    match s.select mysql uri with
    | some r => if noUpdateRequired r keyStartDate priority then pure true else update mysql steps r.id keyStartDate priority
    | none => insert mysql steps domain priority keyStartDate uri
  else pure false

/-- A URI that `set_uri()` refuses leaves a new object; one that cannot be decoded throws. -/
def websiteUri (uri : QString) : Option QString :=
  match SnapUri.setUri tld getservbyname uri with
  | .ok u => some (u.getWebsiteUri getservbyname false)
  | .error .refused => some (SnapUri.getWebsiteUri getservbyname false {})
  | .error .invalidUri => none

/-- What is done when the database is open, and whether it was committed. -/
def save (message : SnapCommunicatorMessage) : Program Snaplistd Bool := do
  let uri ← Program.ofOption (message.getParameter "uri")
  let keyStartDate ← Program.ofOption (message.getParameter "key_start_date")
  let priority ← Program.ofOption (message.getParameter "priority")
  let domain ← Program.ofOption (websiteUri tld getservbyname uri)
  transaction steps
  let success ← store mysql steps domain priority keyStartDate uri
  let committed ← (if success then commit steps else pure false : Program Snaplistd Bool)
  if committed then pure true
  else do
    rollback
    pure false

def reply (command : String) (message : SnapCommunicatorMessage) : Program Snaplistd Unit := do
  let reply ← Program.ofOption (SnapCommunicatorMessage.replyTo { command := command.toList } message)
  let id ← Program.ofOption (message.getParameter "listdata_id")
  modify fun s => { s with sent := s.sent ++ [reply.withParameter "listdata_id" id] }

def listData (message : SnapCommunicatorMessage) : Program Snaplistd Unit := do
  let committed ← (if steps.isOpen then save mysql tld getservbyname steps message else pure false : Program Snaplistd Bool)
  reply (if committed then "GOTLISTDATA" else "LISTDATAFAILED") message

/-! ### Events -/

/-- The backend takes a row by its status and deletes it when it is done. -/
def step (s : Snaplistd) : ListEvent → Snaplistd
  | .listData steps message => (listData mysql tld getservbyname steps message).exec s
  | .setStatus id status =>
    { s with journal := s.journal.map fun r => if r.id = id then { r with status := some status } else r }
  | .delete id => { s with journal := s.journal.filter (·.id ≠ id) }

end
end Snaplistd
end Snapwebsites
