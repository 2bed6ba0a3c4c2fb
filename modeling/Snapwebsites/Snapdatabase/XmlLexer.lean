import Snapwebsites.Snapdatabase.XmlEntities

/-! # The tokens of a table file

`xml_parser::get_token()` as a machine that reads one character a step. A mode is a place of the code where `getc()` is called; what
follows there, up to the next call, is one action. -/

namespace Snapwebsites.Snapdatabase

inductive XmlTokenType
  | closeTag | emptyTag | endTag | eof | equal | identifier | openTag | processor | string | text
  deriving DecidableEq

/-- A token, and `f_value`. -/
structure XmlToken where
  type : XmlTokenType
  value : Bytes
  deriving DecidableEq

/-! ### Characters -/

/-- The characters that were given back, the next one first, and what the file still has. -/
structure XmlInput where
  ungot : Bytes
  rest : Bytes
  deriving DecidableEq

namespace XmlParser

def isAlpha (c : UInt8) : Bool := (0x61 ≤ c && c ≤ 0x7A) || (0x41 ≤ c && c ≤ 0x5A) || c = 0x5F

def isDigit (c : UInt8) : Bool := (0x30 ≤ c && c ≤ 0x39) || c = 0x2D

/-- `getc()`: a line may end with `\r`, `\n` or both. -/
def getc (i : XmlInput) : Option UInt8 × XmlInput :=
  match i.ungot with
  | c :: ungot => (some c, ⟨ungot, i.rest⟩)
  | [] =>
    match i.rest with
    | [] => (none, i)
    | c :: rest =>
      if c = 0x0D then
        match rest with
        | [] => (some 0x0A, ⟨[], []⟩)
        | c :: rest => if c = 0x0A then (some 0x0A, ⟨[], rest⟩) else (some 0x0A, ⟨[c], rest⟩)
      else (some c, ⟨[], rest⟩)

/-- `ungetc()`: the end of the file is not given back. -/
def ungetc (c : Option UInt8) (i : XmlInput) : Except XmlError XmlInput :=
  match c with
  | none => .ok i
  | some c =>
    if 4 ≤ i.ungot.length then .error (.logicError "Somehow the f_ungetc buffer was overflowed.") else .ok ⟨c :: i.ungot, i.rest⟩

/-- The characters that `getc()` will give. -/
def lines : Bytes → Bytes
  | [] => []
  | c :: rest =>
    if c = 0x0D then
      match rest with
      | [] => [0x0A]
      | c :: rest => if c = 0x0A then 0x0A :: lines rest else 0x0A :: c :: lines rest
    else c :: lines rest

end XmlParser

namespace XmlInput

def characters (i : XmlInput) : Bytes := i.ungot ++ XmlParser.lines i.rest

end XmlInput

/-! ### Modes -/

/-- What has been read where the next character is. -/
inductive XmlMode
  | start
  /-- `<` -/
  | markup
  /-- `<?` -/
  | processor
  /-- `<?` and a `?` -/
  | processorMark
  /-- `<!` -/
  | declaration
  /-- `<![` and `j` characters of `CDATA[` -/
  | cdataOpen (j : Nat)
  | cdata
  /-- `]` -/
  | cdataBracket
  /-- `]]` -/
  | cdataBrackets
  /-- `<!-` -/
  | declarationDash
  | comment
  /-- `-` in a comment -/
  | commentDash
  /-- `--` in a comment -/
  | commentDashes
  /-- `</` and spaces -/
  | closeSpace
  | closeName
  | closeEnd
  /-- `<` and spaces -/
  | openSpace
  | openName
  | openEnd
  /-- `/` within a tag -/
  | slash
  | value (quote : UInt8)
  | identifier
  | text
  deriving DecidableEq

/-- What is done with a character: to read the next one, or to return; the character may be given back first. -/
inductive XmlAction
  | go (mode : XmlMode) (value : Bytes)
  | goBack (mode : XmlMode) (value : Bytes)
  | give (type : XmlTokenType) (value : Except XmlError Bytes)
  | giveBack (type : XmlTokenType) (value : Except XmlError Bytes)
  | fail (e : XmlError)

namespace XmlParser

open Machine (Step)

/-- `static_cast<char>()`, also of `EOF`. -/
def charOf (c : Option UInt8) : UInt8 := c.getD 0xFF

/-- The characters of `CDATA[`. -/
def cdataName : Bytes := [0x43, 0x44, 0x41, 0x54, 0x41, 0x5B]

def isBlank (c : UInt8) : Bool := c = 0x20 || c = 0x09 || c = 0x0B || c = 0x0C || c = 0x0A

section
variable (toU8string : UInt32 → Option Bytes) (parsingAttributes : Bool)

/-- The first switch of `get_token()`, and what follows it for the other characters. -/
def actStart (value : Bytes) (c : Option UInt8) : XmlAction :=
  match c with
  | none => .give .eof (.ok value)
  | some c =>
    if parsingAttributes && isBlank c then .go .start value
    else if c = 0x3C then .go .markup value
    else if parsingAttributes && c = 0x3E then .give .endTag (.ok value)
    else if parsingAttributes && c = 0x2F then .go .slash value
    else if parsingAttributes && c = 0x3D then .give .equal (.ok value)
    else if parsingAttributes && (c = 0x22 || c = 0x27) then .go (.value c) value
    else if parsingAttributes && isAlpha c then .go .identifier (value ++ [c])
    else .go .text (value ++ [c])

def noName (c : Option UInt8) : XmlAction :=
  match c with
  | none => .fail (.unexpectedEof "Expected a tag name after \"</\", not EOF.")
  | some c => .fail (.invalidToken ("Character '" ++ printed [c] ++ "' is not valid for a tag name."))

/-- Behind `<` and spaces. -/
def actOpenSpace (value : Bytes) (c : Option UInt8) : XmlAction :=
  if isSpace (charOf c) then .go .openSpace value
  else if isAlpha (charOf c) then .go .openName (value ++ [charOf c])
  else noName c

def actMarkup (value : Bytes) (c : Option UInt8) : XmlAction :=
  if c = some 0x3F then .go .processor value
  else if c = some 0x21 then .go .declaration value
  else if c = some 0x2F then .go .closeSpace value
  else actOpenSpace value c

def actProcessor (value : Bytes) (c : Option UInt8) : XmlAction :=
  match c with
  | none => .fail (.unexpectedEof "Found an unexpected sequence of character in a processor (\"<?...?>\") sequence.")
  | some c => if c = 0x3F then .go .processorMark value else .go .processor (value ++ [c])

def actProcessorMark (value : Bytes) (c : Option UInt8) : XmlAction :=
  if c = some 0x3E then .give .processor (.ok value)
  else if c = some 0x3F then .go .processorMark (value ++ [0x3F])
  else .go .processor (value ++ [0x3F, charOf c])

def notDeclaration (c : Option UInt8) : XmlAction :=
  .fail (.invalidToken ("Character '" ++ printed [charOf c] ++ "' was not expected after a \"<!\" sequence."))

def actDeclaration (value : Bytes) (c : Option UInt8) : XmlAction :=
  if isAlpha (charOf c) then
    .fail (.invalidXml "Found an element definition (such as an \"<!ELEMENT...>\" sequence, which is not supported.")
  else if c = some 0x5B then .go (.cdataOpen 0) value
  else if c = some 0x2D then .go .declarationDash value
  else notDeclaration c

def actCdataOpen (j : Nat) (value : Bytes) (c : Option UInt8) : XmlAction :=
  if c ≠ some (cdataName.getD j 0) then .fail (.invalidXml "Found an unexpected sequence of character in a \"<![CDATA[...\" sequence.")
  else if j + 1 < 6 then .go (.cdataOpen (j + 1)) value
  else .go .cdata value

def actCdata (value : Bytes) (c : Option UInt8) : XmlAction :=
  match c with
  | none => .fail (.unexpectedEof "Found EOF while parsing a \"<![CDATA[...]]>\" sequence.")
  | some c => if c = 0x5D then .go .cdataBracket value else .go .cdata (value ++ [c])

def actCdataBracket (value : Bytes) (c : Option UInt8) : XmlAction :=
  if c = some 0x5D then .go .cdataBrackets value else .go .cdata (value ++ [0x5D, charOf c])

def actCdataBrackets (value : Bytes) (c : Option UInt8) : XmlAction :=
  if c = some 0x5D then .go .cdataBrackets (value ++ [0x5D])
  else if c = some 0x3E then .give .text (.ok value)
  else .go .cdata (value ++ [0x5D, 0x5D, charOf c])

def actComment (value : Bytes) (c : Option UInt8) : XmlAction :=
  match c with
  | none => .fail (.unexpectedEof "Found EOF while parsing a comment (\"<!--...-->\") sequence.")
  | some c => if c = 0x2D then .go .commentDash value else .go .comment value

def actCommentDashes (value : Bytes) (c : Option UInt8) : XmlAction :=
  if c = some 0x3E then .go .start value
  else if c = some 0x2D then .go .commentDashes value
  else .go .comment value

def actCloseSpace (value : Bytes) (c : Option UInt8) : XmlAction :=
  if isSpace (charOf c) then .go .closeSpace value
  else if isAlpha (charOf c) then .go .closeName (value ++ [charOf c])
  else noName c

def actCloseEnd (value : Bytes) (c : Option UInt8) : XmlAction :=
  if isSpace (charOf c) then .go .closeEnd value
  else if c = some 0x3E then .give .closeTag (.ok value)
  else
    match c with
    | none => .fail (.unexpectedEof "Expected '>', not EOF.")
    | some c => .fail (.invalidXml ("Found an unexpected '" ++ printed [c] ++ "' in a closing tag, expected '>' instead."))

def actOpenName (value : Bytes) (c : Option UInt8) : XmlAction :=
  if isAlpha (charOf c) || isDigit (charOf c) then .go .openName (value ++ [charOf c])
  else if isSpace (charOf c) then .go .openEnd value
  else if c ≠ some 0x3E ∧ c ≠ some 0x2F then
    .fail (.invalidToken ("Character '" ++ printed [charOf c] ++ "' is not valid right after a tag name."))
  else .giveBack .openTag (.ok value)

/-- A value has no end but its quote and `>`. -/
def actValue (quote : UInt8) (value : Bytes) (c : Option UInt8) : XmlAction :=
  if c = some quote then .give .string (unescapeEntities toU8string value)
  else if c = some 0x3E then
    .fail (.invalidToken "Character '>' not expected inside a tag value. Please use \"&gt;\" instead.")
  else .go (.value quote) (value ++ [charOf c])

/-- What `get_token()` does with a character. -/
def act (mode : XmlMode) (value : Bytes) (c : Option UInt8) : XmlAction :=
  match mode with
  | .start => actStart parsingAttributes value c
  | .markup => actMarkup value c
  | .processor => actProcessor value c
  | .processorMark => actProcessorMark value c
  | .declaration => actDeclaration value c
  | .cdataOpen j => actCdataOpen j value c
  | .cdata => actCdata value c
  | .cdataBracket => actCdataBracket value c
  | .cdataBrackets => actCdataBrackets value c
  | .declarationDash => if c = some 0x2D then .go .comment value else notDeclaration c
  | .comment => actComment value c
  | .commentDash => if c = some 0x2D then .go .commentDashes value else .go .comment value
  | .commentDashes => actCommentDashes value c
  | .closeSpace => actCloseSpace value c
  | .closeName => if isAlpha (charOf c) || isDigit (charOf c) then .go .closeName (value ++ [charOf c]) else actCloseEnd value c
  | .closeEnd => actCloseEnd value c
  | .openSpace => actOpenSpace value c
  | .openName => actOpenName value c
  | .openEnd => if isSpace (charOf c) then .go .openEnd value else .giveBack .openTag (.ok value)
  | .slash => if c = some 0x3E then .give .emptyTag (.ok value) else .goBack .text (value ++ [0x2F])
  | .value quote => actValue toU8string quote value c
  | .identifier =>
    if isAlpha (charOf c) || isDigit (charOf c) then .go .identifier (value ++ [charOf c]) else .giveBack .identifier (.ok value)
  | .text =>
    if c = some 0x3C ∨ c = none then .giveBack .text (unescapeEntities toU8string value) else .go .text (value ++ [charOf c])

end

end XmlParser

/-- A call of `get_token()`. -/
structure XmlCall where
  parsingAttributes : Bool
  mode : XmlMode
  value : Bytes
  input : XmlInput

/-- What `get_token()` gives, and the input behind it. -/
abbrev XmlRead := Except XmlError (XmlToken × XmlInput)

namespace XmlParser

open Machine (Step)

/-- `get_token()` up to its next character. -/
def tokenStep (toU8string : UInt32 → Option Bytes) (s : XmlCall) : Step XmlCall XmlRead :=
  let (c, input) := getc s.input
  match act toU8string s.parsingAttributes s.mode s.value c with
  | .go mode value => .next { s with mode, value, input }
  | .goBack mode value =>
    match ungetc c input with
    | .error e => .done (.error e)
    | .ok input => .next { s with mode, value, input }
  | .give type value => .done (value.map fun value => (⟨type, value⟩, input))
  | .giveBack type value =>
    match ungetc c input with
    | .error e => .done (.error e)
    | .ok input => .done (value.map fun value => (⟨type, value⟩, input))
  | .fail e => .done (.error e)

/-- `get_token()` where it is called. -/
def getToken (parsingAttributes : Bool) (input : XmlInput) : XmlCall := ⟨parsingAttributes, .start, [], input⟩

end XmlParser

end Snapwebsites.Snapdatabase
