import Snapwebsites.HttpStrings.WeightedHttpString

/-! # Links between pages

A `link_info` is stored as the text of `data()`, which `QString::arg()` fills in one argument after the other,
and read back by `from_data()`, which splits the text at line ends and equal signs. `create_link()` stores each
of two links in the row of the other one; it checks their names and branches, and nothing of their keys. What
`delete_this_link()` does to the tables, when a unique link is replaced, is a parameter. -/

namespace Snapwebsites
namespace Links
open QString HttpStrings

variable {L : Type} (qt : Qt L)

/-- The arguments of a text, one call of `QString::arg()` for each. -/
def args (s : QString) (l : List QString) : QString := l.foldl (arg qt) s

/-- `snap_version::SPECIAL_VERSION_UNDEFINED`, `SPECIAL_VERSION_INVALID` and `SPECIAL_VERSION_EXTENDED`. -/
def versionUndefined : UInt32 := 0xFFFFFFFF

def versionInvalid : UInt32 := 0xFFFFFFFE

def versionExtended : UInt32 := 0xFFFFFFFD

/-- The exceptions of the plugin, with their messages, and that of `get_unique_number()`. -/
inductive LinksException
  | invalidName (message : QString)
  | invalidDbData (message : QString)
  | logic (message : QString)
  | uniqueNumber

/-- `link_info`, less the names of cells that `next_link()` adds. -/
structure LinkInfo where
  unique : Bool := false
  name : QString := []
  key : QString := []
  branch : UInt32 := versionUndefined
deriving DecidableEq

def branchText (branch : UInt32) : QString := number branch.toNat

/-! ### Names -/

/-- Why a name is refused. -/
inductive NameError
  | linksNamespace
  | endsWithColon
  | operator
  | endsWithOperator
  | colon
  | character (c : Char)
  | noNamespace
  | endsWithLinks

def NameError.text : NameError → QString
  | linksNamespace => "a name cannot make use of the \"links\" namespace.".toList
  | endsWithColon => "a name cannot end with a ':'.".toList
  | operator => "the namespace operator must be '::'.".toList
  | endsWithOperator => "a name cannot end with a namespace operator '::'.".toList
  | colon => "character ':' was not expected here.".toList
  | character c => "character '".toList ++ [c] ++ "' is not valid.".toList
  | noNamespace => "at least one namespace is expected. (key: %2, branch: %3)".toList
  | endsWithLinks => "a link name cannot end with \"links\". (key: %2, branch: %3)".toList

/-- The last two messages are filled in by `arg()`, the others are put together. -/
def NameError.message (vname key : QString) (branch : UInt32) (e : NameError) : QString :=
  match e with
  | noNamespace | endsWithLinks =>
    args qt ("link_info::verify_name: name \"%1\" is not acceptable, ".toList ++ e.text) [vname, key, branchText branch]
  | _ => "link_info::verify_name: name \"".toList ++ vname ++ "\" is not acceptable, ".toList ++ e.text

def isWord (c : Char) : Bool :=
  ('0' ≤ c && c ≤ '9') || ('A' ≤ c && c ≤ 'Z') || ('a' ≤ c && c ≤ 'z') || c = '_'

def checkCharacter (c : Char) : Except NameError Unit :=
  if isWord c then .ok () else if c = ':' then .error .colon else .error (.character c)

/-- `get_name(name_t::SNAP_NAME_LINKS_NAMESPACE)`. -/
def linksNamespace : QString := "links".toList

/-- The loop over a name; a colon is looked at only behind the first character. -/
def verifyNameFrom (first : Bool) (ns : QString) (hasNamespace : Bool) : QString → Except NameError Unit
  | [] =>
    if !hasNamespace then .error .noNamespace
    else if ns = linksNamespace then .error .endsWithLinks
    else .ok ()
  | c :: s =>
    if c = ':' ∧ first = false then
      if ns = linksNamespace then .error .linksNamespace
      else
        match s with
        | [] => .error .endsWithColon
        | [d] => if d ≠ ':' then .error .operator else .error .endsWithOperator
        | d :: e :: s => if d ≠ ':' then .error .operator else (checkCharacter e).bind fun _ => verifyNameFrom false [e] true s
    else (checkCharacter c).bind fun _ => verifyNameFrom false (ns ++ [c]) hasNamespace s

namespace LinkInfo

def verifyName (info : LinkInfo) (vname : QString) : Except LinksException Unit :=
  (verifyNameFrom true [] false vname).mapError fun e => .invalidName (e.message qt vname info.key info.branch)

def setName (info : LinkInfo) (name : QString) (unique : Bool) : Except LinksException LinkInfo :=
  (info.verifyName qt name).map fun _ => { info with name, unique }

/-! ### The text -/

def data (info : LinkInfo) : QString :=
  args qt "k=%1\nn=%2\nb=%3\nu=%4".toList
    [info.key, info.name, branchText info.branch, if info.unique then ['1'] else ['*']]

/-- `QString::toULong(&ok, 10)`. -/
def toULong (s : QString) : Option Nat :=
  ((match trimmed s with
    | '+' :: s => digits s
    | s => digits s)).filter fun n => n < 2 ^ 64

/-- `from_data()`, behind the split at line ends and equal signs. -/
def fromFields (info : LinkInfo) (dbData : QString) : List (List QString) → Except LinksException LinkInfo
  | [[k, key], [n, name], [b, branch], [u, unique]] =>
    if k ≠ ['k'] ∨ n ≠ ['n'] ∨ b ≠ ['b'] ∨ u ≠ ['u'] then
      .error (.invalidDbData (args qt
        "wlink_info::from_data: variables in \"%1\" are not k[ey], n[ame], b[ranch], and u[nique]".toList [dbData]))
    else if unique ≠ ['1'] ∧ unique ≠ ['*'] then
      .error (.invalidDbData (args qt
        "link_info::from_data: unique variable \"%1\" in \"%1\" is not exactly \"1\" or \"*\"".toList [unique, dbData]))
    else
      match toULong branch with
      | none => .error (.invalidDbData (args qt
          "link_info::from_data: branch variable \"%1\" in \"%1\" is not a valid number".toList [branch, dbData]))
      | some n => (({ info with key } : LinkInfo).setName qt name (unique = ['1'])).map fun info =>
          { info with branch := UInt32.ofNat n }
  | _ => .error (.invalidDbData (args qt
      "wlink_info::from_data: variables in \"%1\" are not k[ey], n[ame], b[ranch], and u[nique]".toList [dbData]))

def fromData (info : LinkInfo) (dbData : QString) : Except LinksException LinkInfo :=
  if (dbData.splitOn '\n').length ≠ 4 then
    .error (.invalidDbData (args qt "link_info::from_data: \"%1\" is not exactly 4 lines".toList [dbData]))
  else fromFields qt info dbData ((dbData.splitOn '\n').map (·.splitOn '='))

/-! ### Keys -/

/-- The branches that are refused. -/
def Special (branch : UInt32) : Prop := branch = versionInvalid ∨ branch = versionUndefined ∨ branch = versionExtended

instance instDecidableSpecial (branch : UInt32) : Decidable (Special branch) :=
  inferInstanceAs (Decidable (_ ∨ _ ∨ _))

def cellName (info dst : LinkInfo) : Except LinksException QString :=
  if info.name.isEmpty then .ok info.name
  else if Special info.branch then
    .error (.logic (args qt
      "link_info::cell_name() was requested with the branch still undefined (name: \"%1\", key is \"%2\")".toList [info.name, info.key]))
  else .ok (args qt "%1::%2#%3".toList [linksNamespace, info.name, branchText dst.branch])

/-- `cell_name()` with a unique number. -/
def cellNameNumbered (info dst : LinkInfo) (uniqueNumber : QString) : Except LinksException QString :=
  if info.name.isEmpty then .ok info.name
  else if Special info.branch then
    .error (.logic (args qt
      "link_info::cell_name() was requested with the branch still undefined (name: \"%1\", key is \"%2\")".toList [info.name, info.key]))
  else .ok (args qt "%1::%2-%3#%4".toList [linksNamespace, info.name, uniqueNumber, branchText dst.branch])

def rowKey (info : LinkInfo) : Except LinksException QString :=
  if info.key.isEmpty then
    .error (.logic (args qt "row_key() was requested with the key still undefined (name: \"%1\", branch is \"%2\")".toList
      [info.name, branchText info.branch]))
  else if Special info.branch then
    .error (.logic (args qt "row_key() was requested with the branch still undefined (name: \"%1\", key is \"%2\")".toList
      [info.name, info.key]))
  else .ok (args qt "%1#%2".toList [info.key, branchText info.branch])

def keyWithBranch (info : LinkInfo) : Except LinksException QString :=
  if info.key.isEmpty then
    .error (.logic (args qt
      "link_info::key_with_branch() was requested with the key still undefined (name: \"%1\", branch is \"%2\")".toList
      [info.name, branchText info.branch]))
  else if Special info.branch then
    .error (.logic (args qt
      "link_info::key_with_branch() was requested with the branch of the destination still undefined (name: \"%1\", key is \"%2\")".toList
      [info.name, info.key]))
  else .ok (args qt "%1#%2".toList [info.key, branchText info.branch])

def linkKey (info : LinkInfo) : Except LinksException QString :=
  if info.name.isEmpty then
    .error (.logic (args qt "link_info::link_key() was requested with the name still undefined (key: \"%1\", branch: \"%2\"".toList
      [info.key, branchText info.branch]))
  else if info.key.isEmpty then
    .error (.logic (args qt "link_info::link_key() was requested with the key still undefined (name: \"%1\", branch: \"%2\"".toList
      [info.name, branchText info.branch]))
  else if Special info.branch then
    .error (.logic (args qt "link_info::link_key() was requested with the branch still undefined (name: \"%1\", key: \"%2\")".toList
      [info.name, info.key]))
  else .ok (args qt "%1#%2/%3".toList [info.key, branchText info.branch, info.name])

end LinkInfo

/-! ### Tables -/

/-- A table of texts by row and cell. -/
abbrev Cells := QString → QString → Option QString

def setCell (t : Cells) (row cell value : QString) : Cells := fun r c => if r = row ∧ c = cell then some value else t r c

/-- The two tables, and the counter of `get_unique_number()` unless its file cannot be used. -/
structure Tables where
  links : Cells := fun _ _ => none
  branch : Cells := fun _ _ => none
  counter : Option Nat := none

section
variable (serverName : QString) (deleteThisLink : Tables → LinkInfo → LinkInfo → Except LinksException Tables)

def getUniqueNumber (t : Tables) : Except LinksException (QString × Tables) :=
  match t.counter with
  | none => .error .uniqueNumber
  | some c =>
    let c : Nat := (c + 1) % 2 ^ 64
    .ok (args qt "%1-%2".toList [serverName, number c], { t with counter := some c })

/-- The column for the link `a` to `b`; the links table remembers that of a link that is not unique. -/
def column (t : Tables) (a b : LinkInfo) : Except LinksException (QString × Tables) :=
  if a.unique then (a.cellName qt b).map fun col => (col, t)
  else do
    let keyWithBranch ← b.keyWithBranch qt
    let linkKey ← a.linkKey qt
    let value := (t.links linkKey keyWithBranch).getD []
    if value.isEmpty then
      let (uniqueNumber, t) ← getUniqueNumber qt serverName t
      let col ← a.cellNameNumbered qt b uniqueNumber
      return (col, { t with links := setCell t.links linkKey keyWithBranch col })
    else return (value, t)

/-- A unique link that exists is deleted, unless it is the very same link: then there is nothing to do. -/
def replaceExisting (t : Tables) (a b : LinkInfo) (col : QString) : Except LinksException (Option Tables) :=
  if a.unique then do
    let row ← a.rowKey qt
    match t.branch row col with
    | none => return some t
    | some cell => do
      let existing ← ({} : LinkInfo).fromData qt cell
      if existing.key = b.key ∧ existing.unique = b.unique ∧ existing.name = b.name then return none
      else
        let t ← deleteThisLink t a existing
        return some t
  else return some t

def linkBack : QString := "permissions::link_back".toList

def createLink (t : Tables) (src dst : LinkInfo) : Except LinksException Tables :=
  if src.name = linkBack ∨ dst.name = linkBack then
    .error (.invalidName (args qt
      ("the link name must be more precise (\"%1\" or \"%2\" cannot just be \"permissions::link_back\").".toList ++
        " Error found while manipulating \"%3\" and \"%4\".".toList) [src.name, dst.name, src.key, dst.key]))
  else if src.key = dst.key ∧ src.name = dst.name then
    .error (.invalidName (args qt
      "when the source and destination are the same key (%1), then each must use a different name (%2)".toList [src.key, src.name]))
  else do
    let (srcCol, t) ← column qt serverName t src dst
    let (dstCol, t) ← column qt serverName t dst src
    match ← replaceExisting qt deleteThisLink t src dst srcCol with
    | none => return t
    | some t =>
      match ← replaceExisting qt deleteThisLink t dst src dstCol with
      | none => return t
      | some t =>
        let srcRow ← src.rowKey qt
        let t := { t with branch := setCell t.branch srcRow srcCol (dst.data qt) }
        let dstRow ← dst.rowKey qt
        return { t with branch := setCell t.branch dstRow dstCol (src.data qt) }

/-- A link that `create_link()` takes as the source or as the destination. -/
def Stored (info : LinkInfo) : Prop :=
  ∃ t other t', createLink qt serverName deleteThisLink t info other = .ok t' ∨
    createLink qt serverName deleteThisLink t other info = .ok t'

end

end Links
end Snapwebsites
