import Snapwebsites.SnapChild.ReadEnv

/-! # Forms in several parts

What a browser sends for a form (`body`) and what the reader should store of it (`Decoded`). The browser writes names between
quotes, with the escapes that keep a name on its line and between its quotes. -/

namespace Snapwebsites
open QString SnapUri

namespace SnapChild

/-! ### The parts of a form -/

/-- A file of a form. Its name has no quote, and the type that the browser gives it is printable ASCII. -/
structure FormFile where
  filename : QString
  contentType : QString
  content : Bytes
  noQuote : '"' ∉ filename
  printable : ∀ c ∈ contentType, 0x20 ≤ c.toNat ∧ c.toNat < 0x7F

inductive FormData
  | field (text : QString)
  | file (file : FormFile)

structure FormPart where
  name : QString
  data : FormData

namespace FormPart

/-- The text of a field and the bytes of a file. -/
def content (p : FormPart) : Bytes :=
  match p.data with
  | .field text => text.utf8
  | .file f => f.content

/-- What is stored under the name of a part: its text, or the name of its file. -/
def posted (p : FormPart) : QString :=
  match p.data with
  | .field text => text
  | .file f => f.filename

end FormPart

/-- Between its parts a form has a line with the boundary, which is printable. -/
structure Boundary where
  text : QString
  nonempty : text ≠ []
  plain : ∀ c ∈ text, 0x20 < c.toNat ∧ c.toNat < 0x7F ∧ c ≠ ';'

/-! ### What a browser sends -/

def crlf : Bytes := [0x0D, 0x0A]

/-- A name is kept on its line and between its quotes. -/
def escapeName (s : QString) : QString :=
  s.flatMap fun c =>
    if c = '"' then "%22".toList else if c = '\r' then "%0D".toList else if c = '\n' then "%0A".toList else [c]

namespace FormPart

/-- The value of Content-Disposition. -/
def disposition (p : FormPart) : QString :=
  " form-data; name=\"".toList ++ escapeName p.name ++ '"' ::
    match p.data with
    | .field _ => []
    | .file f => "; filename=\"".toList ++ escapeName f.filename ++ ['"']

def headerLines (p : FormPart) : List QString :=
  ("Content-Disposition:".toList ++ p.disposition) ::
    match p.data with
    | .field _ => []
    | .file f => ["Content-Type: ".toList ++ f.contentType]

/-- A part behind its boundary. -/
def encoded (p : FormPart) : Bytes := p.headerLines.flatMap (utf8 · ++ crlf) ++ crlf ++ p.content ++ crlf

end FormPart

def Boundary.delimiter (boundary : Boundary) : Bytes := utf8 ("--".toList ++ boundary.text)

/-- The line behind the last part. -/
def Boundary.close (boundary : Boundary) : Bytes := boundary.delimiter ++ [0x2D, 0x2D]

def Boundary.contentType (boundary : Boundary) : QString := "multipart/form-data; boundary=".toList ++ boundary.text

def body (boundary : Boundary) (parts : List FormPart) : Bytes :=
  parts.flatMap (fun p => boundary.delimiter ++ crlf ++ p.encoded) ++ boundary.close ++ crlf

/-- The boundary is not a line of the content. -/
def Boundary.NotLine (boundary : Boundary) (content : Bytes) : Prop :=
  ∀ line ∈ (content ++ [0x0D]).splitOn 0x0A, line ≠ boundary.delimiter ++ [0x0D] ∧ line ≠ boundary.close ++ [0x0D]

/-! ### What the reader should store -/

/-- A reader that has read the environment of a form and nothing of the form. -/
structure BeforePost (boundary : Boundary) (r : ReadEnv) : Prop where
  noPost : r.hasPost = false
  contentType : r.env.find? "CONTENT_TYPE".toList = some boundary.contentType
  posted : r.posted = {}
  first : r.postFirst = true
  header : r.postHeader = true
  line : r.postLine = []
  content : r.postContent = []
  environment : r.postEnvironment = ∅

/-- The reader stores each field with its text, each file with its name and its bytes, and nothing else. -/
structure Stores (parts : List FormPart) (d : Posted) : Prop where
  post : ∀ name value, d.post.find? name = some value ↔ ∃ p ∈ parts, p.name = name ∧ p.posted = value
  files : ∀ name filename bytes, (∃ file, d.files.find? name = some file ∧ file.filename = filename ∧ file.data = bytes) ↔
    ∃ p ∈ parts, p.name = name ∧ ∃ f, p.data = .file f ∧ f.filename = filename ∧ f.content = bytes

/-- The reader reads a form up to its end and stores what is in it. -/
def Decoded (L : Library) (boundary : Boundary) (r : ReadEnv) (s : Bytes) (parts : List FormPart) : Prop :=
  ∃ r', ReadEnv.processPost L r (body boundary parts ++ s) = .ok (r', s) ∧ Stores parts r'.posted

/-! ### What the reader can read -/

/-- A name of ASCII without the separators of a disposition, the characters that a browser escapes and the end of a C string. -/
def Plain (s : QString) : Prop :=
  ∀ c ∈ s, c.toNat < 128 ∧ c ≠ nul ∧ c ≠ ';' ∧ c ≠ '=' ∧ c ≠ '"' ∧ c ≠ '\r' ∧ c ≠ '\n'

instance decidablePlain (s : QString) : Decidable (Plain s) :=
  inferInstanceAs (Decidable (∀ c ∈ s, c.toNat < 128 ∧ c ≠ nul ∧ c ≠ ';' ∧ c ≠ '=' ∧ c ≠ '"' ∧ c ≠ '\r' ∧ c ≠ '\n'))

/-- A part with a plain name, and either a text without a byte order mark in front or a plain file name that is not empty. -/
structure FormPart.Readable (p : FormPart) : Prop where
  name : Plain p.name
  field : ∀ text, p.data = .field text → text.head? ≠ some bom
  file : ∀ f, p.data = .file f → Plain f.filename ∧ f.filename ≠ []

end SnapChild
end Snapwebsites
