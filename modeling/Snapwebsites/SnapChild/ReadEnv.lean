import Snapwebsites.Lib.SortedMap
import Snapwebsites.SnapUri.Relax

/-! # The environment reader

The class `read_env` of `snap_child::read_environment()`: the lines of the environment with their cookies, and the data of a post,
which is read up to the end boundary when it is in several parts. What the reader asks of other code is `Library`. -/

namespace Snapwebsites
open QString SnapUri

namespace SnapChild

/-- What the reader uses: `libutf8`, which is not part of the repository, `string_to_date()`, `get_mime_type()` and the width, the
    height and the type that `snap_image` finds in a file. -/
structure Library where
  isValidAscii : Bytes → Bool
  isValidUtf8 : Bytes → Bool
  stringToDate : QString → Int
  getMimeType : Bytes → QString
  imageInfo : Bytes → Option (Nat × Nat × QString)
  isValidAscii_iff : ∀ b, isValidAscii b = true ↔ ∀ x ∈ b, x < 0x80
  isValidUtf8_utf8 : ∀ s : QString, isValidUtf8 s.utf8 = true

/-- A library for which no file is an image. -/
def Library.plain : Library where
  isValidAscii b := b.all fun x => x < 0x80
  isValidUtf8 b := decide ((decodeUtf8 0 b).utf8 = b)
  stringToDate _ := 0
  getMimeType _ := "application/octet-stream".toList
  imageInfo _ := none
  isValidAscii_iff b := by simp only [List.all_eq_true, decide_eq_true_eq]
  isValidUtf8_utf8 s := decide_eq_true (by rw [decodeUtf8_utf8])

/-- `post_file_t`. -/
structure PostFile where
  name : QString := []
  filename : QString := []
  originalMimeType : QString := []
  mimeType : QString := []
  creationTime : Int := 0
  modificationTime : Int := 0
  data : Bytes := []
  size : Nat := 0
  index : Nat := 0
  imageWidth : Nat := 0
  imageHeight : Nat := 0
deriving DecidableEq

/-- Why the reader does not return: it dies, or the command has another answer than a page. -/
inductive Stop
  | die (details : QString)
  | badRequest (message details : QString)
  | command (name : QString)
deriving DecidableEq

/-- What a post fills: `f_post` and `f_files`, and the number of files that are stored. -/
structure Posted where
  post : SortedMap QString QString := ∅
  files : SortedMap QString PostFile := ∅
  postIndex : Nat := 0

/-- The members of `read_env`, and the flag of the child that `#INIT` sets. -/
structure ReadEnv where
  isBeingInitialized : Bool := false
  running : Bool := true
  started : Bool := false
  env : SortedMap QString QString := ∅
  browserCookies : SortedMap QString QString := ∅
  name : QString := []
  value : QString := []
  hasPost : Bool := false
  posted : Posted := {}
  postFirst : Bool := true
  postHeader : Bool := true
  postLine : Bytes := []
  postContent : Bytes := []
  boundary : Bytes := []
  endBoundary : Bytes := []
  postEnvironment : SortedMap QString QString := ∅

namespace ReadEnv

variable (L : Library)

def die {α : Type} (details : String) : Except Stop α := .error (.die details.toList)

/-- `QString(...).arg(...)` with the header of a part that is not valid. -/
def dieWith {α : Type} (details : String) (text : QString) (rest : String) : Except Stop α :=
  .error (.die (details.toList ++ text ++ rest.toList))

/-! ### The parts of a post -/

/-- The quotes around the value of a parameter are removed; a single quote is both of them. -/
def withoutQuotes (s : QString) : QString :=
  if s.head? = some '"' ∧ s.getLast? = some '"' then (s.drop 1).take (s.length - 2) else s

/-- The loop over the parameters of a disposition, from parameter `i` on. -/
def readParameters (disposition : QString) :
    Nat → List QString → SortedMap QString QString → Except Stop (SortedMap QString QString)
  | _, [], params => .ok params
  | i, parameter :: rest, params =>
    match parameter.splitOn '=' with
    | [n, v] =>
      readParameters disposition (i + 1) rest (params.insert ((trimmed n).map Char.toLower) (withoutQuotes (trimmed v)))
    | _ => .error (.die ("parameter ".toList ++ number i ++
        " in this multipart posts Content-Disposition does not include an equal character so \"".toList ++ disposition ++
        "\" is not valid.".toList))

/-- The parameters of a disposition, which has a name among them. -/
def readDisposition (disposition : QString) : Except Stop (SortedMap QString QString) :=
  match disposition.splitOn ';' with
  | type :: parameter :: rest =>
    if trimmed type ≠ "form-data".toList then
      dieWith "multipart posts Content-Disposition must be a \"form-data\", \"" disposition "\" is not valid."
    else
      match readParameters disposition 1 (parameter :: rest) ∅ with
      | .error e => .error e
      | .ok params =>
        if (params.find? "name".toList).isNone then
          dieWith "multipart posts Content-Disposition must include a name=\"...\" parameter, \"" disposition "\" is not valid."
        else .ok params
  | _ => dieWith "multipart posts Content-Disposition must at least include \"form-data\" and a name parameter, \"" disposition
      "\" is not valid."

/-- The line end behind the content is removed. -/
def withoutLineEnd (content : Bytes) : Bytes :=
  if [0x0D, 0x0A] <:+ content then content.dropLast.dropLast
  else if content.getLast? = some 0x0A ∨ content.getLast? = some 0x0D then content.dropLast
  else content

/-- The file that is stored. -/
def postFile (params : SortedMap QString QString) (contentType : Option QString) (name filename : QString) (index : Nat)
    (content : Bytes) : PostFile where
  name
  filename
  index
  data := content
  size := content.length
  creationTime := ((params.find? "creation-date".toList).map L.stringToDate).getD 0
  modificationTime := ((params.find? "modification-date".toList).map L.stringToDate).getD 0
  originalMimeType := contentType.getD []
  imageWidth := ((L.imageInfo content).map (·.1)).getD 0
  imageHeight := ((L.imageInfo content).map (·.2.1)).getD 0
  mimeType := ((L.imageInfo content).map (·.2.2)).getD (L.getMimeType content)

def definedTwice {α : Type} (name : QString) : Except Stop α :=
  dieWith "multipart post variable \"" name "\" defined twice"

/-- What `process_post_variable()` does with the parameters and the content: a file or a simple parameter. -/
def storeVariable (environment params : SortedMap QString QString) (content : Bytes) (d : Posted) : Except Stop Posted :=
  let name := (params.find? "name".toList).getD []
  match params.find? "filename".toList with
  | some filename =>
    if (d.post.find? name).isSome then definedTwice name
    else if filename.isEmpty then .ok { d with post := d.post.insert name filename }
    else .ok {
      post := d.post.insert name filename
      postIndex := d.postIndex + 1
      files := d.files.insert name
        (postFile L params (environment.find? "CONTENT-TYPE".toList) name filename (d.postIndex + 1) content) }
  | none =>
    if (environment.find? "CONTENT-TYPE".toList).isSome then
      die "multipart posts Content-Type is not allowed with simple parameters."
    else if (d.post.find? name).isSome then definedTwice name
    else if !L.isValidUtf8 (content.takeWhile (· ≠ 0)) then
      .error (.badRequest ("Your form includes characters that are not compatible with the UTF-8 encoding. ".toList ++
        "Try to avoid special characters and try again. If you are using Internet Explorer, ".toList ++
        "know that older versions may not be compatible with international characters.".toList)
        "is_valid_utf8() returned false against the user's content".toList)
    else .ok { d with post := d.post.insert name (fromUtf8 (decodeUtf8 0 content)) }

/-- The parameters in the header of a part. -/
def readParams (environment : SortedMap QString QString) : Except Stop (SortedMap QString QString) :=
  match environment.find? "CONTENT-DISPOSITION".toList with
  | none => die "multipart posts must have a Content-Disposition header to be considered valid."
  | some disposition => readDisposition disposition

/-- `process_post_variable()`; a NUL is put behind the content of a simple parameter. -/
def processPostVariable (r : ReadEnv) : Except Stop ReadEnv :=
  match readParams r.postEnvironment with
  | .error e => .error e
  | .ok params =>
    let content := withoutLineEnd r.postContent
    (storeVariable L r.postEnvironment params content r.posted).map fun posted => { r with
      name := (params.find? "name".toList).getD []
      posted
      postContent := if (params.find? "filename".toList).isSome then content else content ++ [0] }

/-- A line of the header of a part; `line` is what a `QString` takes of the bytes. -/
def processPostHeader (r : ReadEnv) : Except Stop ReadEnv :=
  let line := fromCString r.postLine
  if !L.isValidAscii (r.postLine.takeWhile (· ≠ 0)) then
    .error (.badRequest "Your multi-part form header includes characters that are not compatible with the ASCII encoding.".toList
      "is_valid_ascii() returned false against a line of the user's multipart form header".toList)
  else if (line.head?.map isSpace).getD false then
    .ok { r with
      postLine := r.postLine ++ [0]
      postEnvironment := r.postEnvironment.insert r.name ((r.postEnvironment.find? r.name).getD [] ++ ' ' :: trimmed line) }
  else if ':' ∉ line then die "invalid header variable name/value pair, no ':' found."
  else
    let name := (trimmed (line.takeWhile (· ≠ ':'))).map Char.toUpper
    .ok { r with
      name
      postLine := r.postLine ++ [0]
      postEnvironment := r.postEnvironment.insert name (trimmed ((line.dropWhile (· ≠ ':')).drop 1)) }

/-- `process_post_line()`; the flag is set at the end boundary. -/
def processPostLine (r : ReadEnv) : Except Stop (Bool × ReadEnv) :=
  if r.postLine.length ≥ r.boundary.length ∧ r.postLine = r.endBoundary then
    if r.postFirst then die "got end boundary without a start"
    else (processPostVariable L r).map fun r => (true, r)
  else if r.postLine.length ≥ r.boundary.length ∧ r.postLine = r.boundary then
    if r.postFirst then .ok (false, { r with postFirst := false })
    else (processPostVariable L r).map fun r =>
      (false, { r with postHeader := true, postEnvironment := ∅, postContent := [] })
  else if r.postFirst then die "the first POST boundary is missing."
  else if r.postHeader then
    if r.postLine = [] ∨ r.postLine = [0x0D] then .ok (false, { r with postHeader := false })
    else (processPostHeader L r).map fun r => (false, r)
  else .ok (false, { r with postContent := r.postContent ++ r.postLine ++ [0x0A] })

/-- The loop of `process_post()` over what is still to read. -/
def readPost (r : ReadEnv) : Bytes → Except Stop (ReadEnv × Bytes)
  | [] => die "I/O error"
  | c :: s =>
    if c = 0x0A then
      match processPostLine L r with
      | .error e => .error e
      | .ok (true, r) => .ok (r, s)
      | .ok (false, r) => readPost { r with postLine := [] } s
    else readPost { r with postLine := r.postLine ++ [c] } s

/-- `QString::toLatin1()`. -/
def toLatin1 (s : QString) : Bytes := (s.flatMap utf16).map fun u => if u < 0x100 then UInt8.ofNat u else 0x3F

/-- The boundary of a content type: its first parameter of that name. -/
def boundaryOf (contentType : QString) : QString :=
  match ((contentType.splitOn ';').drop 1).find? fun p => "boundary=".toList.isPrefixOf (trimmed p) with
  | some p => trimmed ((trimmed p).drop 9)
  | none => []

/-- `process_post()`, on what is still to read. -/
def processPost (r : ReadEnv) (s : Bytes) : Except Stop (ReadEnv × Bytes) :=
  if r.hasPost then die "at most 1 #POST is accepted in the environment."
  else
    match r.env.find? "CONTENT_TYPE".toList with
    | none => .ok ({ r with hasPost := true }, s)
    | some contentType =>
      if !"multipart/form-data".toList.isPrefixOf contentType then .ok ({ r with hasPost := true }, s)
      else if (boundaryOf contentType).isEmpty then die "multipart POST does not include a valid boundary."
      else
        let boundary := toLatin1 ("--".toList ++ boundaryOf contentType)
        readPost L { r with hasPost := true, boundary := boundary ++ [0x0D], endBoundary := boundary ++ [0x2D, 0x2D, 0x0D] } s

/-! ### The lines of the environment -/

/-- What the line HTTP_COOKIE adds to the cookies of the browser. -/
def readCookie (cookies : SortedMap QString QString) (nameValue : QString) : SortedMap QString QString :=
  match splitParts '=' (trimmed nameValue) with
  | [n, v] => cookies.insert (urldecodeRelax n) (urldecodeRelax v)
  | _ => cookies

def startProcess (r : ReadEnv) : Except Stop ReadEnv :=
  if r.name = "#INFO".toList ∨ r.name = "#STATS".toList then .error (.command r.name)
  else if r.name ≠ "#INIT".toList ∧ r.name ≠ "#START".toList then die "#START or other supported command missing."
  else .ok { r with
    isBeingInitialized := r.isBeingInitialized || r.name = "#INIT".toList
    started := true
    name := []
    value := [] }

/-- `process_line()`, and what is left to read behind it. -/
def processLine (r : ReadEnv) (s : Bytes) : Except Stop (ReadEnv × Bytes) :=
  if !r.started then (startProcess r).map fun r => (r, s)
  else if r.name = "#END".toList then .ok ({ r with running := false }, s)
  else if r.name = "#POST".toList then processPost L r s
  else if r.name.isEmpty then die "empty lines are not accepted in the child environment."
  else if r.hasPost then .ok ({ r with posted.post := r.posted.post.insert r.name (urldecodeRelax r.value) }, s)
  else if r.name = "HTTP_COOKIE".toList then
    .ok ({ r with browserCookies := (splitParts ';' r.value).foldl readCookie r.browserCookies }, s)
  else .ok ({ r with env := r.env.insert r.name r.value }, s)

end ReadEnv
end SnapChild
end Snapwebsites
