import Snapwebsites.HttpStrings.WeightedHttpString
import Snapwebsites.SnapManager.Status

/-! # The statuses of a server

`server_status`: a map of statuses, as one text for the other computers and as a file. Each status is stored
under the key made of its names by `QString::arg()` (`Statuses`). The system calls on a file succeed; a file
that does not exist cannot be opened for reading. -/

namespace Snapwebsites
namespace SnapManager
open QString HttpStrings

variable {L : Type} {qt : Qt L}

/-- `QString("%1::%2").arg(plugin_name).arg(field_name)`. -/
def key (qt : Qt L) (s : Status) : QString := arg qt (arg qt "%1::%2".toList s.pluginName) s.fieldName

/-- `status_t::map_t`, with each status under its key. -/
@[ext] structure Statuses (qt : Qt L) where
  map : SortedMap QString Status
  keyed : ∀ e ∈ map.entries, e.1 = key qt e.2

namespace Statuses

def empty : Statuses qt := ⟨∅, fun _ he => absurd he List.not_mem_nil⟩

instance : EmptyCollection (Statuses qt) := ⟨empty⟩

def set (m : Statuses qt) (s : Status) : Statuses qt where
  map := m.map.insert (key qt s) s
  keyed e he := by
    rcases SortedMap.mem_insertIn he with rfl | he
    · rfl
    · exact m.keyed e he

def values (m : Statuses qt) : List Status := m.map.entries.map (·.2)

end Statuses

/-- `server_status`: of the open file, what is left to read. -/
structure ServerStatus (qt : Qt L) where
  filename : QString
  statuses : Statuses qt := ∅
  file : Option Bytes := none
  hasError : Bool := false

abbrev Disk := QString → Option Bytes

/-- `g_status_file_magic`. -/
def statusFileMagic : QString := "Snap! Status v3".toList

namespace ServerStatus

def setField (s : ServerStatus qt) (status : Status) : ServerStatus qt := { s with statuses := s.statuses.set status }

def toString (s : ServerStatus qt) : Except String QString :=
  s.statuses.values.foldlM (fun result status => do
    let line ← status.toString
    return result ++ line ++ ['\n']) []

/-- The loop of `from_string()`. -/
def readLines (m : Statuses qt) : List QString → Option (Statuses qt × Bool)
  | [] => some (m, true)
  | l :: lines => do
    let (status, success) ← Status.fromString l
    if !success then return (m, false)
    readLines (m.set status) lines

def fromString (s : ServerStatus qt) (status : QString) : Option (ServerStatus qt × Bool) := do
  let (statuses, success) ← readLines ∅ (splitParts '\n' status)
  return ({ s with statuses }, success)

/-! ### Writing the file -/

def close (s : ServerStatus qt) : ServerStatus qt := { s with file := none, hasError := false }

def writeStatus (status : Status) : Except String Bytes := do
  let line ← status.toString
  return line.utf8 ++ [0x0A]

/-- The loop over the header fields ends at the first other field behind one. -/
def writeHeader (found : Bool) : List Status → Except String Bytes
  | [] => return []
  | s :: l =>
    if s.pluginName = "header".toList then do
      let status ← writeStatus s
      let rest ← writeHeader true l
      return status ++ rest
    else if found then return []
    else writeHeader found l

def writeFields : List Status → Except String Bytes
  | [] => return []
  | s :: l =>
    if s.pluginName ≠ "header".toList then do
      let status ← writeStatus s
      let rest ← writeFields l
      return status ++ rest
    else writeFields l

def write (disk : Disk) (s : ServerStatus qt) : Except String (Disk × ServerStatus qt × Bool) :=
  let s := s.close
  if s.filename.isEmpty then return (disk, { s.close with hasError := true }, false)
  else do
    let header ← writeHeader false s.statuses.values
    let fields ← writeFields s.statuses.values
    let content := statusFileMagic.utf8 ++ [0x0A] ++ header ++ fields
    return (fun name => if name = s.filename then some content else disk name, s.close, true)

/-! ### Reading the file -/

/-- One line: `\r` is dropped, and so is a NUL, which appends an empty C string. -/
def readline (line : Bytes) : Bytes → QString × Bool × Bytes
  | [] => (fromCString line, false, [])
  | c :: b =>
    if c = 0x0A then (fromCString line, true, b)
    else readline (if c ≠ 0x0D ∧ c ≠ 0 then line ++ [c] else line) b

theorem readline_length : ∀ (line b : Bytes), (readline line b).2.1 = true → (readline line b).2.2.length < b.length
  | _, [], h => by cases h
  | line, c :: b, h => by
    unfold readline at h ⊢
    split
    · exact Nat.lt_succ_self _
    · rename_i hc
      rw [if_neg hc] at h
      exact (readline_length _ b h).trans (Nat.lt_succ_self _)

def openForRead (disk : Disk) (s : ServerStatus qt) : ServerStatus qt × Bool :=
  let s := s.close
  match disk s.filename with
  | none => ({ s with hasError := true }, false)
  | some b =>
    let r := readline [] b
    if !r.2.1 then ({ s.close with hasError := true }, false)
    else if r.1 ≠ statusFileMagic then ({ s.close with hasError := true }, false)
    else ({ s with file := some r.2.2 }, true)

/-- The loop of `read_all()`. -/
def readAllFrom (s : ServerStatus qt) (b : Bytes) : Option (ServerStatus qt × Bool) :=
  let r := readline [] b
  let s := { s with file := some r.2.2 }
  if !r.1.isEmpty then
    match Status.fromString r.1 with
    | none => none
    | some (_, false) => some (s, false)
    | some (status, true) => if _h : r.2.1 = true then readAllFrom (s.setField status) r.2.2 else some (s.setField status, true)
  else if _h : r.2.1 = true then readAllFrom s r.2.2
  else some (s, !s.hasError)
termination_by b.length
decreasing_by all_goals exact readline_length [] b _h

def readAll (disk : Disk) (s : ServerStatus qt) : Option (ServerStatus qt × Bool) :=
  match s.file with
  | some b => readAllFrom s b
  | none =>
    if s.filename.isEmpty then some ({ s with hasError := true }, false)
    else
      let (s, success) := openForRead disk s
      if !success then some (s, false) else readAllFrom s (s.file.getD [])

/-- The loop of `read_header()`, which keeps the first field behind the header as well. -/
def readHeaderFrom (s : ServerStatus qt) (b : Bytes) : Option (ServerStatus qt × Bool) :=
  let r := readline [] b
  let s := { s with file := some r.2.2 }
  if !r.1.isEmpty then
    match Status.fromString r.1 with
    | none => none
    | some (_, false) => some (s, false)
    | some (status, true) =>
      if _h : r.2.1 = true ∧ status.pluginName = "header".toList then readHeaderFrom (s.setField status) r.2.2
      else some (s.setField status, true)
  else if _h : r.2.1 = true then readHeaderFrom s r.2.2
  else some (s, true)
termination_by b.length
decreasing_by
  · exact readline_length [] b _h.1
  · exact readline_length [] b _h

def readHeader (disk : Disk) (s : ServerStatus qt) : Option (ServerStatus qt × Bool) :=
  match s.file with
  | some _ => some (s, true)
  | none =>
    if s.filename.isEmpty then some ({ s with hasError := true }, false)
    else
      let (s, success) := openForRead disk s
      if !success then some (s, false) else readHeaderFrom s (s.file.getD [])

end ServerStatus

/-! ### What is to be kept -/

/-- The statuses that a computer may make. -/
structure Written (s : Status) : Prop where
  state : s.state ≠ .undefined
  pluginName : s.pluginName ≠ [] ∧ ':' ∉ s.pluginName
  fieldName : s.fieldName ≠ [] ∧ '[' ∉ s.fieldName ∧ '=' ∉ s.fieldName ∧ '\n' ∉ s.fieldName
  value : nul ∉ s.value

/-- The text and the file give all the statuses back, the file with its header read first as well. -/
structure Survives (s : ServerStatus qt) : Prop where
  transport : ∀ other : ServerStatus qt, ∃ text other', s.toString = .ok text ∧ other.fromString text = some (other', true) ∧
    other'.statuses = s.statuses
  storage : ∀ disk, ∃ disk' s' other, s.write disk = .ok (disk', s', true) ∧
    ServerStatus.readAll disk' ({ filename := s.filename } : ServerStatus qt) = some (other, true) ∧ other.statuses = s.statuses
  header : ∀ disk, ∃ disk' s' other other', s.write disk = .ok (disk', s', true) ∧
    ServerStatus.readHeader disk' ({ filename := s.filename } : ServerStatus qt) = some (other, true) ∧
    other.readAll disk' = some (other', true) ∧ other'.statuses = s.statuses

/-- The texts that go through unchanged. -/
structure Plain (s : Status) : Prop where
  pluginName : '\n' ∉ s.pluginName ∧ '\r' ∉ s.pluginName ∧ nul ∉ s.pluginName ∧ s.pluginName.head? ≠ some bom
  fieldName : '\r' ∉ s.fieldName ∧ nul ∉ s.fieldName
  value : s.value.head? ≠ some bom

/-- No other plugin has a key between two keys of the header. -/
def HeaderTogether (m : Statuses qt) : Prop :=
  ∀ a ∈ m.map.entries, ∀ b ∈ m.map.entries, ∀ c ∈ m.map.entries, a.1 < b.1 → b.1 < c.1 →
    a.2.pluginName = "header".toList → c.2.pluginName = "header".toList → b.2.pluginName = "header".toList

structure Kept (s : ServerStatus qt) : Prop where
  filename : s.filename ≠ []
  plain : ∀ status ∈ s.statuses.values, Plain status
  header : HeaderTogether s.statuses

end SnapManager
end Snapwebsites
