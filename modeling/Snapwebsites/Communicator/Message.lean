import Snapwebsites.Lib.SortedMap
import Snapwebsites.Communicator.QString

/-! # Messages of the communicator

`snap_communicator_message`: its fields, its setters, and the line a message is written to and read
from. The cached line is left out: every change of a field clears it. The log texts are left out too;
an exception or a `false` is `none`. -/

namespace Snapwebsites
open QString

structure SnapCommunicatorMessage where
  sentFromServer : QString := []
  sentFromService : QString := []
  server : QString := []
  service : QString := []
  command : QString := []
  parameters : SortedMap QString QString := ∅
  deriving DecidableEq

def isLowercase (c : Char) : Bool := 'a' ≤ c && c ≤ 'z'
def isUppercase (c : Char) : Bool := 'A' ≤ c && c ≤ 'Z'
def isDigit (c : Char) : Bool := '0' ≤ c && c ≤ '9'

/-- `verify_name()`; `false` is the exception. -/
def verifyName (name : QString) (canBeEmpty canBeLowercase : Bool) : Bool :=
  (canBeEmpty || !name.isEmpty) &&
  name.all (fun c => (isLowercase c && canBeLowercase) || isUppercase c || isDigit c || c = '_') &&
  !(name.head?.any isDigit)

namespace SnapCommunicatorMessage

/-! ### Setters -/

def setSentFromServer (m : SnapCommunicatorMessage) (name : QString) : Option SnapCommunicatorMessage :=
  if m.sentFromServer = name then some m
  else if verifyName name true true then some { m with sentFromServer := name }
  else none

def setSentFromService (m : SnapCommunicatorMessage) (name : QString) : Option SnapCommunicatorMessage :=
  if m.sentFromService = name then some m
  else if verifyName name true true then some { m with sentFromService := name }
  else none

def setServer (m : SnapCommunicatorMessage) (name : QString) : Option SnapCommunicatorMessage :=
  if m.server = name then some m
  else if name = ['.'] ∨ name = ['*'] ∨ verifyName name true true then some { m with server := name }
  else none

def setService (m : SnapCommunicatorMessage) (name : QString) : Option SnapCommunicatorMessage :=
  if m.service = name then some m
  else if name = ['*'] ∨ name = ['?'] ∨ name = ['.'] ∨ verifyName name true true then
    some { m with service := name }
  else none

def setCommand (m : SnapCommunicatorMessage) (name : QString) : Option SnapCommunicatorMessage :=
  if verifyName name false false then some { m with command := name } else none

/-- The overloads for integers and C strings differ in how they make the text `value`. -/
def addParameter (m : SnapCommunicatorMessage) (name value : QString) : Option SnapCommunicatorMessage :=
  if verifyName name false true then some { m with parameters := m.parameters.insert name value } else none

def replyTo (m message : SnapCommunicatorMessage) : Option SnapCommunicatorMessage := do
  let m ← m.setServer message.sentFromServer
  m.setService message.sentFromService

/-- The messages a program makes: a new message and successful calls of the setters. -/
inductive Built : SnapCommunicatorMessage → Prop
  | new : Built {}
  | setSentFromServer {m m' name} : Built m → m.setSentFromServer name = some m' → Built m'
  | setSentFromService {m m' name} : Built m → m.setSentFromService name = some m' → Built m'
  | setServer {m m' name} : Built m → m.setServer name = some m' → Built m'
  | setService {m m' name} : Built m → m.setService name = some m' → Built m'
  | setCommand {m m' name} : Built m → m.setCommand name = some m' → Built m'
  | addParameter {m m' name value} : Built m → m.addParameter name value = some m' → Built m'

/-! ### Writing a message -/

def escapes : List (QString × QString) := [(['\\'], ['\\', '\\']), (['\n'], ['\\', 'n']), (['\r'], ['\\', 'r'])]

def unescapes : List (QString × QString) := [(['\\', '\\'], ['\\']), (['\\', 'n'], ['\n']), (['\\', 'r'], ['\r'])]

/-- A parameter is quoted when it holds a semicolon or starts with a quote. -/
def needsQuotes (param : QString) : Bool := param.contains ';' || param.head? = some '"'

def escapeQuotes (param : QString) : QString := param.flatMap fun c => if c = '"' then ['\\', '"'] else [c]

def writeValue (value : QString) : QString :=
  let param := fromUtf8 (replaceMany (constData value) escapes)
  if needsQuotes param then '"' :: escapeQuotes param ++ ['"'] else param

def writeParameter (p : QString × QString) : QString := p.1 ++ '=' :: writeValue p.2

/-- Each parameter is written behind a separator: a space for the first one, semicolons for the others. -/
def writeParameters : List (QString × QString) → QString
  | [] => []
  | p :: ps => ' ' :: writeParameter p ++ ps.flatMap fun q => ';' :: writeParameter q

def writeSentFrom (m : SnapCommunicatorMessage) : QString :=
  if m.sentFromServer ≠ [] ∨ m.sentFromService ≠ [] then
    '<' :: m.sentFromServer ++ ':' :: m.sentFromService ++ [' ']
  else []

def writeDestination (m : SnapCommunicatorMessage) : QString :=
  if m.service ≠ [] then (if m.server ≠ [] then m.server ++ [':'] else []) ++ m.service ++ ['/'] else []

def toMessage (m : SnapCommunicatorMessage) : Option QString :=
  if m.command = [] then none
  else some (writeSentFrom m ++ writeDestination m ++ m.command ++ writeParameters m.parameters.entries)

/-! ### Reading a message -/

/-- The `<server:service ` in front of a message and what follows it. -/
def readSentFrom : QString → Option (QString × QString × QString)
  | '<' :: m =>
    let server := m.takeWhile (· ≠ ':')
    if server.contains ' ' then none
    else
      match m.dropWhile (· ≠ ':') with
      | [] => none
      | _ :: m =>
        match m.dropWhile (· ≠ ' ') with
        | [] => none
        | _ :: rest => some (server.flatMap appendUnit, (m.takeWhile (· ≠ ' ')).flatMap appendUnit, rest)
  | m => some ([], [], m)

/-- What is known of the destination and the command while they are read. -/
structure Header where
  hasServer : Bool := false
  hasService : Bool := false
  server : QString := []
  service : QString := []
  command : QString := []

/-- The loop over the destination and the command, up to a space or the end. -/
def readHeader (h : Header) : QString → Option (Header × QString)
  | [] => some (h, [])
  | c :: m =>
    if c = ' ' then some (h, c :: m)
    else if c = ':' then
      if h.hasServer || h.hasService || h.command.isEmpty then none
      else readHeader { h with hasServer := true, server := h.command, command := [] } m
    else if c = '/' then
      if h.hasService || h.command.isEmpty then none
      else readHeader { h with hasService := true, service := h.command, command := [] } m
    else readHeader { h with command := h.command ++ [c] } m

/-- A quoted value behind its opening quote. Only `\"` is undone here, and any backslash in front of a
    quote is taken for one of these. -/
def readQuoted : QString → Option (QString × QString)
  | [] => none
  | '"' :: m => some ([], m)
  | '\\' :: '"' :: m => (readQuoted m).map fun r => ('"' :: r.1, r.2)
  | c :: m => (readQuoted m).map fun r => (c :: r.1, r.2)

def readRawValue : QString → Option (QString × QString)
  | '"' :: m => readQuoted m
  | m => some (m.takeWhile (· ≠ ';'), m.dropWhile (· ≠ ';'))

def readValue (value : QString) : QString := fromUtf8 (constData (replaceMany (constData value) unescapes))

/-- One parameter and what follows its semicolon. -/
def readParameter (m : QString) : Option ((QString × QString) × QString) :=
  let name := m.takeWhile (· ≠ '=')
  if !verifyName name false true then none
  else
    match m.dropWhile (· ≠ '=') with
    | [] => none
    | _ :: m => do
      let (value, m) ← readRawValue m
      match m with
      | [] => some ((name, readValue value), [])
      | ';' :: m => some ((name, readValue value), m)
      | _ => none

/-- The loop over the parameters. A parameter takes at least one character, so a bound of the length
    of the text is never reached. -/
def readParametersFrom : Nat → QString → SortedMap QString QString → Option (SortedMap QString QString)
  | _, [], parameters => some parameters
  | 0, _ :: _, _ => none
  | n + 1, m, parameters => do
    let (p, m) ← readParameter m
    readParametersFrom n m (parameters.insert p.1 p.2)

def readParameters (m : QString) : Option (SortedMap QString QString) := readParametersFrom m.length m ∅

def fromMessage (message : QString) : Option SnapCommunicatorMessage := do
  let (sentFromServer, sentFromService, m) ← readSentFrom (constData (trimmed message))
  let (h, m) ← readHeader {} m
  if h.command = [] then none
  else
    let parameters ← match m with
      | ' ' :: m => readParameters m
      | _ => some ∅
    some { sentFromServer, sentFromService, server := h.server, service := h.service, command := h.command, parameters }

/-! ### What relaying a message asks for -/

/-- The message goes out as one line, and the line is read back as the same message. -/
def RoundTrips (m : SnapCommunicatorMessage) : Prop :=
  ∃ line, m.toMessage = some line ∧ '\n' ∉ line ∧ fromMessage line = some m

instance (m : SnapCommunicatorMessage) : Decidable (RoundTrips m) :=
  match h : m.toMessage with
  | none => isFalse fun ⟨_, h', _⟩ => by simp [h] at h'
  | some line => decidable_of_iff ('\n' ∉ line ∧ fromMessage line = some m)
      ⟨fun h' => ⟨line, h, h'⟩, fun ⟨_, h', hr⟩ => by rw [h] at h'; cases h'; exact hr⟩

end SnapCommunicatorMessage
end Snapwebsites
