import Snapwebsites.Lib.Trace
import Snapwebsites.SnapConfig.RoundTrip

/-! # Saving flags

`snap_flag::save()`: a flag that is up is written through a configuration file object, of which each process has one, and a flag that
is down is deleted. The object reads the file when the process uses it the first time, and never again. Files can be opened and
deleted. The name of a flag file has a period, so the file is read and written as it is, without an override. -/

namespace Snapwebsites
namespace SnapFlag
open QString SnapConfig

/-! ### Numbers -/

/-- `std::to_string()`. -/
def toString (n : Int) : Bytes := (number n).map fun c => UInt8.ofNat c.toNat

/-- `std::stol()`; nothing when it throws. -/
def stol (s : Bytes) : Option Int :=
  let value := fun u : QString => (digits (u.takeWhile Char.isDigit)).map (Nat.cast : Nat → Int)
  let n := match ((cString s).dropWhile SnapConfig.isSpace).map fun b => Char.ofNat b.toNat with
    | '-' :: u => (value u).map fun n => -n
    | '+' :: u => value u
    | u => value u
  n.filter fun n => -0x8000000000000000 ≤ n ∧ n < 0x8000000000000000

/-! ### Flags -/

/-- The names of a flag and the file that it gets. -/
structure FlagName where
  filename : QString
  unit : Bytes
  section_ : Bytes
  name : Bytes

inductive FlagState
  | up | down
  deriving DecidableEq, Repr

/-- A `snap_flag` of that name. The tags are those of the set, in its order. -/
structure Flag where
  state : FlagState := .up
  sourceFile : Bytes := []
  function : Bytes := []
  line : Int32 := 0
  message : Bytes := []
  priority : Int32 := 5
  manualDown : Bool := false
  tags : List Bytes := []

/-- A call of `save()`: the process that makes it and what it finds there, and what the two saves of the configuration file print. -/
structure Call where
  process : Nat
  flag : Flag
  now : Int64
  hostname : Bytes
  version : Bytes
  first : Stamp × Stamp
  second : Stamp × Stamp

def unitName : Bytes := utf8 "unit".toList
def sectionName : Bytes := utf8 "section".toList
def nameName : Bytes := utf8 "name".toList
def sourceFileName : Bytes := utf8 "source_file".toList
def functionName : Bytes := utf8 "function".toList
def lineName : Bytes := utf8 "line".toList
def messageName : Bytes := utf8 "message".toList
def priorityName : Bytes := utf8 "priority".toList
def manualDownName : Bytes := utf8 "manual_down".toList
def dateName : Bytes := utf8 "date".toList
def modifiedName : Bytes := utf8 "modified".toList
def tagsName : Bytes := utf8 "tags".toList
def hostnameName : Bytes := utf8 "hostname".toList
def versionName : Bytes := utf8 "version".toList
def countName : Bytes := utf8 "count".toList

/-- What `save()` sets, in front of the count. -/
def Call.fields (c : Call) (n : FlagName) (hasDate : Bool) : List (Bytes × Bytes) :=
  [(unitName, n.unit), (sectionName, n.section_), (nameName, n.name), (sourceFileName, c.flag.sourceFile), (functionName, c.flag.function),
   (lineName, toString c.flag.line.toInt), (messageName, c.flag.message), (priorityName, toString c.flag.priority.toInt),
   (manualDownName, utf8 (if c.flag.manualDown then "yes".toList else "no".toList))] ++
  (if hasDate then [] else [(dateName, toString c.now.toInt)]) ++
  [(modifiedName, toString c.now.toInt), (tagsName, [0x2C].intercalate c.flag.tags), (hostnameName, c.hostname), (versionName, c.version)]

/-! ### Processes -/

/-- A `snap_config_file`: `f_exists` and `f_parameters`. -/
structure ConfigFile where
  found : Bool := false
  parameters : Parameters := ∅

/-- The flag file and what the processes remember of it. -/
structure State where
  file : Option Bytes := none
  remembered : Nat → Option ConfigFile := fun _ => none

def State.remember (s : State) (process : Nat) (m : ConfigFile) : State := { s with remembered := Function.update s.remembered process (some m) }

/-- What is read in front of a line that is refused. -/
def readSoFar (r : Reading) : List Bytes → Reading
  | [] => r
  | p :: ps =>
    match parseLine p with
    | .error _ => r
    | .ok l => readSoFar (r.line l) ps

/-- `get_configuration()`, and whether it throws. -/
def getConfiguration (n : FlagName) (s : State) (process : Nat) : ConfigFile × Bool :=
  match s.remembered process with
  | some m => (m, false)
  | none =>
    match actualReadConfigFile n.filename s.file ∅ with
    | .ok (found, parameters) => ({ found, parameters }, false)
    | .error _ => ({ parameters := (readSoFar {} (pieces (s.file.getD []))).parameters }, true)

/-- The count of the file is one more than the one that is there; nothing when it cannot be. -/
def nextCount (count : Bytes) : Option Bytes :=
  (stol count).bind fun n => if n + 1 < 0x8000000000000000 then some (toString (n + 1)) else none

/-- The parameters that are saved, and whether the count is among them. -/
def saved (n : FlagName) (c : Call) (m : ConfigFile) : Parameters × Bool :=
  let parameters := m.parameters.insertAll (c.fields n (m.found && m.parameters.contains dateName))
  let count := if m.found && m.parameters.contains countName then nextCount ((parameters.find? countName).getD []) else some [0x31]
  match count with
  | some count => (parameters.insert countName count, true)
  | none => (parameters, false)

/-- `save()`, with its result; no result when it throws. -/
def save (n : FlagName) (s : State) (c : Call) : State × Option Bool :=
  match c.flag.state with
  | .down => ({ s with file := none }, some true)
  | .up =>
    let r := getConfiguration n s c.process
    let s := s.remember c.process r.1
    if r.2 then (s, none)
    else
      let s := { s with file := some (actualWriteConfigFile c.first.1 c.first.2 r.1.parameters) }
      let p := saved n c r.1
      let s := s.remember c.process { r.1 with parameters := p.1 }
      if p.2 then ({ s with file := some (actualWriteConfigFile c.second.1 c.second.2 p.1) }, some true) else (s, none)

def step (n : FlagName) (s : State) (c : Call) : State := (save n s c).1

end SnapFlag
end Snapwebsites
