import Snapwebsites.Email.Attachment

/-! # Emails

What an email holds, how it is serialized in an archive and read back into a new email, and how two emails compare:
the time at which an email was created does not count. -/

namespace Snapwebsites
open QString

structure Email (fold : QString → QString) where
  branding : Bool := true
  cumulative : QString := []
  siteKey : QString := []
  emailPath : QString := []
  emailKey : QString := []
  time : Int
  headers : Email.Headers fold := {}
  attachments : List (Email.Attachment fold) := []
  parameters : SortedMap QString QString := ∅

namespace Email

section
variable {fold : QString → QString} (e : Email fold)

/-! ### Building -/

/-- The body comes first. -/
def setBodyAttachment (data : Attachment fold) : Email fold := { e with attachments := data :: e.attachments }

def addAttachment (data : Attachment fold) : Email fold := { e with attachments := e.attachments ++ [data] }

def getAttachment (index : Int) : Except EmailException (Attachment fold) :=
  match if 0 ≤ index then e.attachments[index.toNat]? else none with
  | some a => .ok a
  | none => .error (.outOfRange "email::get_attachment() called with an invalid index".toList)

/-- What is assigned to the reference that `get_attachment()` returns. -/
def setAttachment (index : Nat) (a : Attachment fold) : Email fold := { e with attachments := e.attachments.set index a }

def addParameter (name value : QString) : Except EmailException (Email fold) :=
  if name.isEmpty then
    .error (.invalidParameter "email::add_parameter(): Cannot add a parameter with an empty name.".toList)
  else .ok { e with parameters := e.parameters.insert name value }

/-- `operator ==`. -/
def equal (e e' : Email fold) : Bool :=
  e.branding = e'.branding && e.cumulative = e'.cumulative && e.siteKey = e'.siteKey && e.emailPath = e'.emailPath &&
    e.emailKey = e'.emailKey && e.headers.equal e'.headers && Attachment.equalAll e.attachments e'.attachments &&
    e.parameters = e'.parameters

end

variable (lib : Library)

/-! ### Writing -/

/-- The attachments, in front of other tags. -/
def attachmentTags (l : List (Attachment lib.fold)) (rest : Tags) : Tags := l.foldr (fun a rest => a.serialize lib false rest) rest

/-- The tags of an email. -/
def tags (e : Email lib.fold) : Tags :=
  let lists := Attachment.pairTags .header e.headers.list
    (attachmentTags lib e.attachments (Attachment.pairTags .parameter e.parameters.entries .nil))
  let keys := Tags.field .siteKey e.siteKey (.field .emailPath e.emailPath (.field .emailKey e.emailKey lists))
  .group .email (.flag .branding e.branding (if e.cumulative.isEmpty then keys else .field .cumulative e.cumulative keys)) .nil

def serialize (e : Email lib.fold) : QString := fromCString (lib.write (tags lib e))

/-! ### Reading -/

/-- The composite of `readTag()` for the tag of the email. -/
def readTags : Tags → Email lib.fold → Except EmailException (Email lib.fold)
  | .nil, e => .ok e
  | .flag .branding b rest, e => readTags rest { e with branding := b }
  | .flag _ _ rest, e => readTags rest e
  | .field .cumulative text rest, e => readTags rest { e with cumulative := text }
  | .field .siteKey text rest, e => readTags rest { e with siteKey := text }
  | .field .emailPath text rest, e => readTags rest { e with emailPath := text }
  | .field .emailKey text rest, e => readTags rest { e with emailKey := text }
  | .field _ _ rest, e => readTags rest e
  | .group .header inner rest, e =>
    let (name, value) := readPair inner ([], [])
    readTags rest { e with headers := e.headers.insert name value }
  | .group .attachment inner rest, e => do
    let a ← Attachment.unserialize lib .new inner
    readTags rest (e.addAttachment a)
  | .group .parameter inner rest, e =>
    let (name, value) := readPair inner ([], [])
    readTags rest { e with parameters := e.parameters.insert name value }
  | .group _ _ rest, e => readTags rest e

/-- The tags of an archive. -/
def readArchive : Tags → Email lib.fold → Except EmailException (Email lib.fold)
  | .nil, e => .ok e
  | .flag _ _ rest, e => readArchive rest e
  | .field _ _ rest, e => readArchive rest e
  | .group .email inner rest, e => do
    let e ← readTags lib inner e
    readArchive rest e
  | .group _ _ rest, e => readArchive rest e

def unserialize (e : Email lib.fold) (data : QString) : Except EmailException (Email lib.fold) :=
  match lib.read (data.utf8.takeWhile (· ≠ 0)) with
  | none => .error .archive
  | some tags => readArchive lib tags e

end Email
end Snapwebsites
