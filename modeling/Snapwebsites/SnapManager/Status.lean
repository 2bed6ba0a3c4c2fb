import Snapwebsites.Communicator.Message

/-! # The status of a field

A `status_t` is written as `plugin::field[state]=value` and read back by a scanner that goes over the
characters of the text up to its terminator. The scanner is what is left of the text and of its terminator;
a function that reads past these has no result. It leaves the text when it skips the bracket behind a known
state and the text ends there (`fromString_eq_none_iff`). -/

namespace Snapwebsites
namespace SnapManager
open QString

/-- `status_t::state_t`. -/
inductive State
  | undefined
  | debug
  | info
  | modified
  | highlight
  | warning
  | error
  | fatalError
deriving DecidableEq

namespace State

def name : State → QString
  | undefined => []
  | debug => "debug".toList
  | info => "info".toList
  | modified => "modified".toList
  | highlight => "highlight".toList
  | warning => "warning".toList
  | error => "error".toList
  | fatalError => "fatal error".toList

/-- The states in the order in which `from_string()` compares their names. -/
def named : List State := [debug, info, modified, highlight, warning, error, fatalError]

end State

def stateNamed (state : QString) : Option State := State.named.find? fun s => s.name = state

/-- `status_t`. -/
@[ext] structure Status where
  state : State := .info
  pluginName : QString := []
  fieldName : QString := []
  value : QString := []
deriving DecidableEq

namespace Status

/-- The state between the field name and the value: `info` is the default and is not written. -/
def stateText : State → Except String QString
  | .undefined => .error "STATUS_STATE_UNDEFINED is for external program."
  | .info => .ok []
  | s => .ok ('[' :: s.name ++ [']'])

def safeValue (value : QString) : QString := fromUtf8 (replaceMany (constData value) SnapCommunicatorMessage.escapes)

def toString (s : Status) : Except String QString :=
  if s.pluginName.isEmpty ∨ s.fieldName.isEmpty then
    .error "libsnapmanager: to_string() expects f_plugin_name and f_name to both be defined."
  else do
    let state ← stateText s.state
    return s.pluginName ++ "::".toList ++ s.fieldName ++ state ++ ['='] ++ safeValue s.value

/-! ### The scanner -/

/-- Characters are read up to one that stops or to the terminator. -/
def scan (stop : Char → Bool) : QString → Option (QString × QString)
  | [] => none
  | c :: s => if c ≠ nul ∧ ¬stop c then (scan stop s).map fun r => (c :: r.1, r.2) else some ([], c :: s)

/-- What is left behind the equal sign, less the terminator, is the value. -/
def readValue (status : Status) (s : QString) : Option (Status × Bool) := do
  let c ← s.head?
  if c = nul ∨ c ≠ '=' then return (status, false)
  return ({ status with value := SnapCommunicatorMessage.readValue s.tail.dropLast }, true)

def readState (status : Status) (s : QString) : Option (Status × Bool) := do
  let c ← s.head?
  if c = '[' then
    let (state, s) ← scan (· == ']') s.tail
    match stateNamed state with
    | none => return (status, false)
    | some state => readValue { status with state } s.tail
  else readValue status s

def readFieldName (status : Status) (s : QString) : Option (Status × Bool) := do
  let (fieldName, s) ← scan (fun c => c == '[' || c == '=') s
  readState { status with fieldName } s

/-- `from_string()`: the object and what the function returns. -/
def fromString (line : QString) : Option (Status × Bool) := do
  let (pluginName, s) ← scan (· == ':') (line ++ [nul])
  let status : Status := { pluginName }
  let c ← s.head?
  if c ≠ ':' then return (status, false)
  let c ← s.tail.head?
  if c = nul ∨ c ≠ ':' then return (status, false)
  readFieldName status (s.drop 2)

end Status

/-! ### Names of states -/

theorem stateNamed_eq_some {state : QString} {s : State} (h : stateNamed state = some s) :
    s ≠ .undefined ∧ state = s.name := by
  have hname := List.find?_some h
  have hmem := List.mem_of_find?_eq_some h
  refine ⟨?_, (of_decide_eq_true hname).symm⟩
  rintro rfl
  exact absurd hmem (by decide)

theorem stateNamed_name {s : State} (h : s ≠ .undefined) : stateNamed s.name = some s := by
  cases s with
  | undefined => exact absurd rfl h
  | _ => decide

theorem name_spec (s : State) : ∀ c ∈ s.name, c ≠ nul ∧ c ≠ ']' := by cases s <;> decide

namespace Status

/-! ### What is scanned -/

/-- Characters that the scanner goes over. -/
def Clean (stop : Char → Bool) (s : QString) : Prop := ∀ c ∈ s, c ≠ nul ∧ stop c = false

section
variable {stop : Char → Bool} {a r : QString} {c : Char}

theorem scan_append (ha : Clean stop a) (hc : c = nul ∨ stop c = true) : scan stop (a ++ c :: r) = some (a, c :: r) := by
  induction a with
  | nil =>
    refine if_neg fun h => ?_
    rcases hc with hc | hc
    · exact h.1 hc
    · exact h.2 hc
  | cons d a ih =>
    obtain ⟨hd, ha⟩ := List.forall_mem_cons.mp ha
    rw [List.cons_append, scan, if_pos ⟨hd.1, by simp [hd.2]⟩, ih ha]
    rfl

/-- A text of which the scanner goes over the front, or over all of it. -/
theorem scan_cases (stop : Char → Bool) (line : QString) :
    (∃ a c r, Clean stop a ∧ (c = nul ∨ stop c = true) ∧ line = a ++ c :: r) ∨ Clean stop line := by
  induction line with
  | nil => exact Or.inr (List.forall_mem_nil _)
  | cons d line ih =>
    by_cases hd : d = nul ∨ stop d = true
    · exact Or.inl ⟨[], d, line, List.forall_mem_nil _, hd, rfl⟩
    · rw [not_or, Bool.not_eq_true] at hd
      rcases ih with ⟨a, c, r, ha, hc, rfl⟩ | hline
      · exact Or.inl ⟨d :: a, c, r, List.forall_mem_cons.mpr ⟨hd, ha⟩, hc, rfl⟩
      · exact Or.inr (List.forall_mem_cons.mpr ⟨hd, hline⟩)

end

/-- Two ways to cut a text at the first of some characters. -/
theorem cut_unique {p : Char → Prop} {a b r t : QString} {c d : Char} (ha : ∀ x ∈ a, ¬p x) (hc : p c)
    (hb : ∀ x ∈ b, ¬p x) (hd : p d) (h : a ++ c :: r = b ++ d :: t) : a = b ∧ c = d ∧ r = t := by
  induction a generalizing b with
  | nil =>
    cases b with
    | nil => exact ⟨rfl, List.cons.inj h⟩
    | cons y b =>
      rw [(List.cons.inj h).1] at hc
      exact absurd hc (hb y List.mem_cons_self)
  | cons x a ih =>
    cases b with
    | nil =>
      rw [← (List.cons.inj h).1] at hd
      exact absurd hd (ha x List.mem_cons_self)
    | cons y b =>
      obtain ⟨hxy, htail⟩ := List.cons.inj h
      obtain ⟨rfl, hrest⟩ := ih (fun z hz => ha z (List.mem_cons_of_mem _ hz)) (fun z hz => hb z (List.mem_cons_of_mem _ hz)) htail
      exact ⟨congrArg (· :: a) hxy, hrest⟩

end Status
end SnapManager
end Snapwebsites
