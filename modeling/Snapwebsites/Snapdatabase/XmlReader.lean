import Snapwebsites.SnapConfig.ConfigFile
import Snapwebsites.Snapdatabase.XmlLexer

/-! # Reading a table file

`xml_parser::read_xml()` as a machine that calls `get_token()`. A phase is a place of the code where the next token is read. The nodes
that are not closed yet are a list, the innermost first; a node is put under its parent when it is closed. -/

namespace Snapwebsites.Snapdatabase

open scoped SnapConfig

structure XmlNode where
  name : Bytes
  attributes : SortedMap Bytes Bytes := ∅
  text : Bytes := []
  children : List XmlNode := []

/-- `is_token()` -/
def isToken (s : Bytes) : Bool :=
  match s with
  | [] => false
  | c :: rest =>
    XmlParser.isAlpha c && rest.all (fun c => XmlParser.isAlpha c || XmlParser.isDigit c || c = 0x2D) &&
      (c :: rest).getLast? ≠ some 0x2D

namespace XmlNode

/-- The constructor. -/
def new (name : Bytes) : Except XmlError XmlNode :=
  if isToken name then .ok { name } else .error (.invalidToken ("\"" ++ printed name ++ "\" is not a valid token as a tag name."))

def appendText (n : XmlNode) (text : Bytes) : XmlNode := { n with text := n.text ++ text }

/-- `attribute()` -/
def attributeOf (n : XmlNode) (name : Bytes) : Bytes := (n.attributes.find? name).getD []

def setAttribute (n : XmlNode) (name value : Bytes) : Except XmlError XmlNode :=
  if isToken name then .ok { n with attributes := n.attributes.insert name value }
  else .error (.invalidToken ("\"" ++ printed name ++ "\" is not a valid token as an attribute name."))

def appendChild (n child : XmlNode) : XmlNode := { n with children := n.children ++ [child] }

/-- The root of a node whose parents are not closed. -/
def root (n : XmlNode) (parents : List XmlNode) : XmlNode := parents.foldl (fun child parent => parent.appendChild child) n

end XmlNode

/-- Where a token is read. -/
inductive XmlPhase
  /-- In front of the root, or of what may be behind a processor tag. -/
  | prolog (processor : Bool)
  /-- In `read_tag_attributes()`, a name or the end of the tag. -/
  | tag (node : XmlNode) (parents : List XmlNode)
  | equal (node : XmlNode) (parents : List XmlNode) (name : Bytes)
  | value (node : XmlNode) (parents : List XmlNode) (name : Bytes)
  | content (node : XmlNode) (parents : List XmlNode)
  /-- Behind the root. -/
  | epilog (root : XmlNode)
  /-- In `skip_empty()`, behind the root. -/
  | skipEmpty (root : XmlNode)

namespace XmlPhase

/-- What `get_token()` is told. -/
def parsingAttributes : XmlPhase → Bool
  | tag _ _ => true
  | equal _ _ _ => true
  | value _ _ _ => true
  | _ => false

end XmlPhase

namespace XmlParser

open Machine (Step)

section
variable (filename : String)

def textBeforeRoot : XmlError :=
  .unexpectedToken ("File \"" ++ filename ++ "\" cannot include text data before the root tag.")

def notRoot : XmlError :=
  .unexpectedToken ("File \"" ++ filename ++
    "\" cannot be empty or include anything other than a processor tag and comments before the root tag.")

/-- Nothing is left of a text by `boost::trim()`. -/
def isEmptyText (text : Bytes) : Bool := text.all isSpace

/-- A node whose tag is read. -/
def openNode (name : Bytes) (parents : List XmlNode) : Step XmlPhase (Except XmlError XmlNode) :=
  match XmlNode.new name with
  | .error e => .done (.error e)
  | .ok node => .next (.tag node parents)

def acceptProlog (processor : Bool) (token : XmlToken) : Step XmlPhase (Except XmlError XmlNode) :=
  match token.type with
  | .text => if isEmptyText token.value then .next (.prolog processor) else .done (.error (textBeforeRoot filename))
  | .processor => if processor then .done (.error (notRoot filename)) else .next (.prolog true)
  | .openTag => openNode token.value []
  | _ => .done (.error (notRoot filename))

def acceptTag (node : XmlNode) (parents : List XmlNode) (token : XmlToken) : Step XmlPhase (Except XmlError XmlNode) :=
  match token.type with
  | .endTag => .next (.content node parents)
  | .emptyTag =>
    match parents with
    | [] => .done (.error (.unexpectedToken ("File \"" ++ filename ++ "\" root tag cannot be an empty tag.")))
    | parent :: parents => .next (.content (parent.appendChild node) parents)
  | .identifier => .next (.equal node parents token.value)
  | _ => .done (.error (.invalidXml "Expected the end of the tag (>) or an attribute name."))

def acceptEqual (node : XmlNode) (parents : List XmlNode) (name : Bytes) (token : XmlToken) :
    Step XmlPhase (Except XmlError XmlNode) :=
  match token.type with
  | .equal => .next (.value node parents name)
  | _ => .done (.error (.invalidXml "Expected the '=' character between the attribute name and value."))

def acceptValue (node : XmlNode) (parents : List XmlNode) (name : Bytes) (token : XmlToken) :
    Step XmlPhase (Except XmlError XmlNode) :=
  match token.type with
  | .string =>
    if node.attributeOf name ≠ [] then
      .done (.error (.invalidXml ("Attribute \"" ++ printed name ++ "\" defined twice. We do not allow such.")))
    else
      match node.setAttribute name token.value with
      | .error e => .done (.error e)
      | .ok node => .next (.tag node parents)
  | _ => .done (.error (.invalidXml "Expected a value of the attribute after the '=' sign."))

def acceptContent (node : XmlNode) (parents : List XmlNode) (token : XmlToken) : Step XmlPhase (Except XmlError XmlNode) :=
  match token.type with
  | .eof => .done (.ok (node.root parents))
  | .openTag => openNode token.value (node :: parents)
  | .closeTag =>
    if node.name ≠ token.value then
      .done (.error (.unexpectedToken ("Unexpected token name \"" ++ printed token.value ++ "\" in this closing tag. Expected \"" ++
        printed node.name ++ "\" instead.")))
    else
      match parents with
      | [] => .next (.epilog node)
      | parent :: parents => .next (.content (parent.appendChild node) parents)
  | .text => .next (.content (node.appendText token.value) parents)
  | _ => .done (.error (.logicError "Received an unexpected token in the switch handler."))

def skipEmptyText (root : XmlNode) (value : Bytes) : Step XmlPhase (Except XmlError XmlNode) :=
  if isEmptyText value then .next (.skipEmpty root) else .done (.error (textBeforeRoot filename))

def acceptEpilog (root : XmlNode) (token : XmlToken) : Step XmlPhase (Except XmlError XmlNode) :=
  match token.type with
  | .eof => .done (.ok root)
  | .text => skipEmptyText filename root token.value
  | .processor => .next (.epilog root)
  | type =>
    .done (.error (.unexpectedToken ("We reached the end of the XML file, but still found a token of type " ++ toString type.ctorIdx ++
      " instead of the end of the file.")))

/-- The token that ends `skip_empty()` is not looked at. -/
def acceptSkipEmpty (root : XmlNode) (token : XmlToken) : Step XmlPhase (Except XmlError XmlNode) :=
  match token.type with
  | .text => skipEmptyText filename root token.value
  | _ => .next (.epilog root)

/-- What `read_xml()` does with a token. -/
def accept (phase : XmlPhase) (token : XmlToken) : Step XmlPhase (Except XmlError XmlNode) :=
  match phase with
  | .prolog processor => acceptProlog filename processor token
  | .tag node parents => acceptTag filename node parents token
  | .equal node parents name => acceptEqual node parents name token
  | .value node parents name => acceptValue node parents name token
  | .content node parents => acceptContent node parents token
  | .epilog root => acceptEpilog filename root token
  | .skipEmpty root => acceptSkipEmpty filename root token

/-- The token, and the next call of `get_token()`. -/
def afterToken (phase : XmlPhase) (read : XmlRead) : Step (XmlPhase × XmlCall) (Except XmlError XmlNode) :=
  match read with
  | .error e => .done (.error e)
  | .ok (token, input) =>
    match accept filename phase token with
    | .next phase => .next (phase, getToken phase.parsingAttributes input)
    | .done result => .done result

/-- `read_xml()`. -/
def readXml (toU8string : UInt32 → Option Bytes) : XmlPhase × XmlCall → Step (XmlPhase × XmlCall) (Except XmlError XmlNode) :=
  Machine.calling (tokenStep toU8string) (afterToken filename)

end

/-- The first call, on a file that has been opened. -/
def openedFile (file : Bytes) : XmlPhase × XmlCall := (.prolog false, getToken false ⟨[], file⟩)

end XmlParser

end Snapwebsites.Snapdatabase
