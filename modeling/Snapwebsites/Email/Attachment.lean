import Snapwebsites.Lib.Fallible
import Snapwebsites.Lib.SortedMap
import Snapwebsites.SnapUri.Codec

/-! # Attachments

An email has headers, whose names are compared without case, and attachments. An attachment can have related ones,
which carry a flag so that they get no related ones of their own; the flag is not written when an attachment is
serialized. What `QtSerialization` writes is a tree of tags. -/

namespace Snapwebsites
namespace Email
open QString

/-- The exceptions, with their messages. -/
inductive EmailException
  | tooManyLevels (message : QString)
  | invalidParameter (message : QString)
  | missingParameter (message : QString)
  | outOfRange (message : QString)
  | archive

/-! ### Headers -/

/-- `header_map_t`: a map with the case folded names as keys, that keeps the first spelling of a name. -/
@[ext] structure Headers (fold : QString → QString) where
  map : SortedMap QString (QString × QString) := ∅
  keys : ∀ e ∈ map.entries, e.1 = fold e.2.1 := by simp

namespace Headers
variable {fold : QString → QString} (h : Headers fold)

/-- The names and values, in the order of the map. -/
def list : List (QString × QString) := h.map.entries.map Prod.snd

def find? (name : QString) : Option QString := (h.map.find? (fold name)).map Prod.snd

/-- The spelling of a name in the map. -/
def spelling (name : QString) : QString := ((h.map.find? (fold name)).map Prod.fst).getD name

theorem fold_spelling (name : QString) : fold (h.spelling name) = fold name := by
  rw [spelling]
  cases hfind : h.map.find? (fold name) with
  | none => rfl
  | some e => exact (h.keys _ (SortedMap.find?_eq_some.mp hfind)).symm

/-- `h[name] = value`. -/
def insert (name value : QString) : Headers fold where
  map := h.map.insert (fold name) (h.spelling name, value)
  keys := fun e he => by
    rcases SortedMap.mem_insertIn he with rfl | hmem
    · exact (h.fold_spelling name).symm
    · exact h.keys e hmem

def erase (name : QString) : Headers fold where
  map := h.map.erase (fold name)
  keys := fun e he => h.keys e (List.mem_of_mem_filter he)

/-- `operator ==` of the maps: the spelling of a name does not count. -/
def equal (h h' : Headers fold) : Bool := h.map.entries.map (fun e => (e.1, e.2.2)) = h'.map.entries.map (fun e => (e.1, e.2.2))

theorem equal_self : h.equal h = true := decide_eq_true rfl

end Headers

/-! ### Archives -/

/-- The names of the tags. -/
inductive TagName
  | email | branding | cumulative | siteKey | emailPath | emailKey | header | attachment | subAttachment | parameter | name | value | data
deriving DecidableEq

/-- A sequence of tags: flags, texts, and tags with tags inside. -/
inductive Tags
  | nil
  | flag (tag : TagName) (b : Bool) (rest : Tags)
  | field (tag : TagName) (text : QString) (rest : Tags)
  | group (tag : TagName) (inner rest : Tags)
deriving DecidableEq

/-- What the code relies on of other libraries: the comparison of names, the archives of `QtSerialization` and base64. -/
structure Library where
  fold : QString → QString
  write : Tags → Bytes
  read : Bytes → Option Tags
  toBase64 : Bytes → QString
  fromBase64 : QString → Bytes

/-- Archives and base64 are read as they were written, and an archive is a text without NUL and byte order mark. -/
structure Library.Inverse (lib : Library) : Prop where
  read_write : ∀ tags, lib.read (lib.write tags) = some tags
  fromBase64_toBase64 : ∀ b, lib.fromBase64 (lib.toBase64 b) = b
  text : ∀ tags, ∃ s : QString, lib.write tags = s.utf8 ∧ nul ∉ s ∧ s.head? ≠ some bom

/-! ### Attachments -/

inductive Attachment (fold : QString → QString)
  | mk (headers : Headers fold) (data : Bytes) (isSubAttachment : Bool) (related : List (Attachment fold))

namespace Attachment
variable {fold : QString → QString}

def headers : Attachment fold → Headers fold | mk h _ _ _ => h

def data : Attachment fold → Bytes | mk _ d _ _ => d

def isSubAttachment : Attachment fold → Bool | mk _ _ s _ => s

def related : Attachment fold → List (Attachment fold) | mk _ _ _ l => l

/-- A new attachment. -/
def new : Attachment fold := mk {} [] false []

def withHeaders (a : Attachment fold) (h : Headers fold) : Attachment fold := mk h a.data a.isSubAttachment a.related

def withData (a : Attachment fold) (d : Bytes) : Attachment fold := mk a.headers d a.isSubAttachment a.related

def contentType : QString := "Content-Type".toList

/-- `set_data()`; an empty type is found by the magic library. -/
def setData (getMimeType : Bytes → QString) (a : Attachment fold) (d : Bytes) (mimeType : QString) : Attachment fold :=
  (a.withData d).withHeaders (a.headers.insert contentType (if mimeType.isEmpty then getMimeType d else mimeType))

def addHeader (a : Attachment fold) (name value : QString) : Except EmailException (Attachment fold) :=
  if name.isEmpty then
    .error (.invalidParameter "email::attachment::add_header(): When adding a header, the name cannot be empty.".toList)
  else .ok (a.withHeaders (a.headers.insert name value))

def removeHeader (a : Attachment fold) (name : QString) : Attachment fold := a.withHeaders (a.headers.erase name)

def getHeader (a : Attachment fold) (name : QString) : Except EmailException QString :=
  if name.isEmpty then
    .error (.invalidParameter "email::attachment::get_header(): Cannot retrieve a header with an empty name".toList)
  else .ok ((a.headers.find? name).getD [])

/-- The message for an attachment that has related ones itself. -/
def relatedHasRelated : EmailException :=
  .tooManyLevels ("email::attachment::add_related(): you cannot add a related sub-attachment to an attachment when that related ".toList
    ++ "sub-attachment has itself a related sub-attachment".toList)

def addRelated (a data : Attachment fold) : Except EmailException (Attachment fold) :=
  if a.isSubAttachment then
    .error (.tooManyLevels ("email::attachment::add_related(): this attachment is already a related sub-attachment, ".toList
      ++ "you cannot add more levels".toList))
  else if data.related.length ≠ 0 then .error relatedHasRelated
  else .ok (mk a.headers a.data a.isSubAttachment (a.related ++ [mk data.headers data.data true data.related]))

/-- `get_related()`; a negative index is a large one. -/
def getRelated (a : Attachment fold) (index : Int) : Except EmailException (Attachment fold) :=
  match if 0 ≤ index then a.related[index.toNat]? else none with
  | some b => .ok b
  | none => .error (.outOfRange "email::attachment::get_related() called with an invalid index".toList)

/-- What is assigned to the reference that `get_related()` returns. -/
def setRelated (a : Attachment fold) (index : Nat) (b : Attachment fold) : Attachment fold :=
  mk a.headers a.data a.isSubAttachment (a.related.set index b)

/-! ### Comparing -/

mutual

/-- `operator ==`. -/
def equal : Attachment fold → Attachment fold → Bool
  | mk h d s l, mk h' d' s' l' => h.equal h' && d = d' && s = s' && equalAll l l'

def equalAll : List (Attachment fold) → List (Attachment fold) → Bool
  | [], [] => true
  | a :: l, b :: l' => a.equal b && equalAll l l'
  | _, _ => false

end

/-! ### Writing -/

/-- Tags with a name and a value in front of others. -/
def pairTags (tag : TagName) (l : List (QString × QString)) (rest : Tags) : Tags :=
  l.foldr (fun e rest => .group tag (.field .name e.1 (.field .value e.2 .nil)) rest) rest

end Attachment

section
variable (lib : Library)

mutual

/-- `serialize()`, in front of other tags. -/
def Attachment.serialize (isSub : Bool) : Attachment lib.fold → Tags → Tags
  | .mk h d _ l, rest =>
    .group (if isSub then .subAttachment else .attachment)
      (Attachment.pairTags .header h.list (Attachment.serializeRelated l (.field .data (lib.toBase64 d) .nil))) rest

def Attachment.serializeRelated : List (Attachment lib.fold) → Tags → Tags
  | [], rest => rest
  | a :: l, rest => a.serialize true (Attachment.serializeRelated l rest)

end

/-! ### Reading -/

/-- The name and the value of a header or a parameter. -/
def readPair : Tags → QString × QString → QString × QString
  | .nil, p => p
  | .flag _ _ rest, p => readPair rest p
  | .group _ _ rest, p => readPair rest p
  | .field .name text rest, p => readPair rest (text, p.2)
  | .field .value text rest, p => readPair rest (p.1, text)
  | .field _ _ rest, p => readPair rest p

namespace Attachment

/-- The composite of `unserialize()` with `readTag()`: the attachment, and the text of its data. -/
def readTags : Tags → Attachment lib.fold × QString → Except EmailException (Attachment lib.fold × QString)
  | .nil, r => .ok r
  | .flag _ _ rest, r => readTags rest r
  | .field .data text rest, r => readTags rest (r.1, text)
  | .field _ _ rest, r => readTags rest r
  | .group .header inner rest, r =>
    let (name, value) := readPair inner ([], [])
    readTags rest (r.1.withHeaders (r.1.headers.insert name value), r.2)
  | .group .subAttachment inner rest, r => do
    let (a, text) ← readTags inner (new, [])
    let b ← r.1.addRelated (a.withData (lib.fromBase64 text))
    readTags rest (b, r.2)
  | .group _ _ rest, r => readTags rest r

def unserialize (a : Attachment lib.fold) (tags : Tags) : Except EmailException (Attachment lib.fold) :=
  (readTags lib tags (a, [])).map fun r => r.1.withData (lib.fromBase64 r.2)

end Attachment
end

end Email
end Snapwebsites
