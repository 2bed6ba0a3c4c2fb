import Mathlib.Algebra.Ring.Int.Defs
import Snapwebsites.SnapUri.Codec

/-! # Cookies

`http_cookie`: what the constructor and the setters store, and the `Set-Cookie` header that `to_http_header()` makes of it. The
constructor checks the name, so a cookie with another one cannot be built; it takes the domain from the child without a check.
Dates are `QDateTime`, which is not part of the repository (`Dates`). -/

namespace Snapwebsites
open QString

namespace HttpCookie

/-- A control character of Unicode. -/
def isControl (c : Char) : Bool := c.toNat < 0x20 || (0x7F ≤ c.toNat && c.toNat < 0xA0)

/-- `QDateTime`: dates, some of them not valid, and how one is printed with "ddd, dd MMM yyyy hh:mm:ss' GMT'". The names of days
    and months are words, so what is printed has neither a control character nor a semicolon. -/
structure Dates (D : Type) where
  null : D
  isValid : D → Bool
  fromMSecsSinceEpoch : Int → D
  toTimeT : D → Int
  isBefore : D → D → Bool
  toHttp : D → QString
  toHttp_words : ∀ d, ∀ c ∈ toHttp d, isControl c = false ∧ c ≠ ';'

/-- Milliseconds since the epoch, all of them printed as the epoch. -/
def Dates.milliseconds : Dates (Option Int) where
  null := none
  isValid d := d.isSome
  fromMSecsSinceEpoch := some
  toTimeT d := (d.getD 0).tdiv 1000
  isBefore d e := decide (d.getD 0 < e.getD 0)
  toHttp _ := "Thu, 01 Jan 1970 00:00:00 GMT".toList
  toHttp_words _ := by decide

/-- The time at which a function is called: `time()`, `snap_child::get_current_date()` in microseconds and
    `QDateTime::currentDateTimeUtc()`. -/
structure Now (D : Type) where
  time : Int
  currentDate : Int
  currentDateTimeUtc : D

/-- What a cookie asks the child that creates it. -/
structure Snap where
  startTime : Int
  startDate : Int
  cookieDomain : Option QString := none
  websiteKey : QString := []

/-- The characters of `http_token`. -/
def httpToken : QString :=
  "!#$%&'*+-.0123456789ABCDEFGHIJKLMNOPQRSTUVWXYZ^_`abcdefghijklmnopqrstuvwxyz|~".toList

def isToken (c : Char) : Bool := !(c ≤ ' ') && c.toNat < 127 && httpToken.contains c

/-- The checks that the constructor makes of a name, with the texts of `http_cookie_parse_exception`. -/
def checkName (name : QString) : Except QString Unit := do
  if name.isEmpty then throw "the name of a cookie cannot be empty".toList
  if let some c := name.find? fun c => !isToken c then
    throw ("the name of a cookie must only include token compatible characters (offensive character: ".toList ++ [c, ')'])
  if name.head? = some '$' then
    throw "cookie name cannot start with '$'; those are reserved by the HTTP protocol".toList

end HttpCookie

open HttpCookie in
/-- An `http_cookie` that is not the invalid one of the default constructor. -/
structure HttpCookie (D : Type) where
  snap : Option Snap
  name : QString
  value : Bytes
  domain : QString
  path : QString
  expire : D
  secure : Bool := false
  httpOnly : Bool := false
  comment : QString := []
  commentUrl : QString := []
  nameOk : checkName name = .ok ()

namespace HttpCookie

variable {D : Type} (Q : Dates D) (now : Now D)

/-! ### The setters -/

def setValue (c : HttpCookie D) (value : Bytes) : HttpCookie D := { c with value }

/-- What `set_domain()` has stored when it is done, whether it throws or not: a period in front is removed. -/
def storedDomain (domain : QString) : QString := if domain.head? = some '.' then domain.tail else domain

def isDomainCharacter (c : Char) : Bool :=
  ('A' ≤ c && c ≤ 'Z') || ('a' ≤ c && c ≤ 'z') || ('0' ≤ c && c ≤ '9') || c = '.' || c = '-' || c = '_'

/-- The checks of `set_domain()`, of what it has stored. -/
def checkDomain (domain : QString) : Except QString Unit := do
  if domain.isEmpty then throw "the domain of a cookie cannot be empty".toList
  if !domain.all isDomainCharacter then
    throw "the domain of a cookie must only include domain name compatible characters".toList

/-- `set_domain()`: what it throws, if it does, and the cookie it leaves. -/
def setDomain (c : HttpCookie D) (domain : QString) : Except QString Unit × HttpCookie D :=
  (checkDomain (storedDomain domain), { c with domain := storedDomain domain })

/-- `QCharRef::unicode()`: the first unit of a character, and 0 behind the end of the text. -/
def unicodeAt (s : QString) (i : Nat) : Nat := (s.flatMap utf16).getD i 0

def refusesUnit (u : Nat) : Bool := (u < 0x20 || 0x7E < u) && u ≠ 0x2C && u ≠ 0x3B

/-- The loop of `set_path()`: it goes over the length of the path and looks at the domain. -/
def checkPath (domain path : QString) : Except QString Unit := do
  if (List.range (units path)).any fun i => refusesUnit (unicodeAt domain i) then
    throw "the path of a cookie must only include ASCII characters except controls, ',' and ';'.".toList

def setPath (c : HttpCookie D) (path : QString) : Except QString Unit × HttpCookie D :=
  match checkPath c.domain path with
  | .ok _ => (.ok (), { c with path })
  | .error e => (.error e, c)

def setDelete (c : HttpCookie D) : HttpCookie D := { c with expire := Q.fromMSecsSinceEpoch 0 }

def setSession (c : HttpCookie D) : HttpCookie D := { c with expire := Q.null }

/-- The time at which the request started. -/
def startTime (c : HttpCookie D) : Int := (c.snap.map (·.startTime)).getD now.time

def startDate (c : HttpCookie D) : Int := (c.snap.map (·.startDate)).getD now.currentDate

def setExpire (c : HttpCookie D) (dateTime : D) : HttpCookie D :=
  if Q.toTimeT dateTime - c.startTime now > 86400 * 365 then
    { c with expire := Q.fromMSecsSinceEpoch ((c.startDate now).tdiv 1000 + 86400 * 1000) }
  else { c with expire := dateTime }

def setExpireIn (c : HttpCookie D) (seconds : Int) : HttpCookie D :=
  { c with expire := Q.fromMSecsSinceEpoch ((c.startDate now).tdiv 1000 + min seconds (86400 * 365) * 1000) }

def setSecure (c : HttpCookie D) (secure : Bool) : HttpCookie D := { c with secure }

def setHttpOnly (c : HttpCookie D) (httpOnly : Bool) : HttpCookie D := { c with httpOnly }

def setComment (c : HttpCookie D) (comment : QString) : HttpCookie D := { c with comment }

def setCommentUrl (c : HttpCookie D) (commentUrl : QString) : HttpCookie D := { c with commentUrl }

/-- The constructor. -/
def create (snap : Option Snap) (name value : QString) : Except QString (HttpCookie D) :=
  match hname : checkName name with
  | .error e => .error e
  | .ok _ => .ok {
      snap, name
      value := value.utf8
      domain := match snap with
        | none => []
        | some s => s.cookieDomain.getD s.websiteKey
      path := ['/']
      expire := Q.null
      nameOk := hname }

/-! ### The header -/

/-- `http_cookie_type_t`. -/
inductive HttpCookieType
  | permanent | session | delete
deriving DecidableEq

def getType (c : HttpCookie D) : HttpCookieType :=
  if !Q.isValid c.expire then .session
  else if Q.isBefore c.expire now.currentDateTimeUtc then .delete
  else .permanent

/-- The bytes of a value that are written as they are. -/
def isDirect (b : UInt8) : Bool :=
  b = 0x21 || (0x23 ≤ b && b ≤ 0x2B) || (0x2D ≤ b && b ≤ 0x3A) || (0x3C ≤ b && b ≤ 0x5B) || (0x5D ≤ b && b ≤ 0x7E)

/-- `QString("%%%1").arg(c, 2, 16, QChar('0'))`: Qt has no escape for `%`, so there are two of them, and a `char` from 128 on is a
    negative integer, of which all 64 bits are written. -/
def escapedByte (b : UInt8) : QString :=
  '%' :: '%' :: (Nat.toDigits 16 (if b.toNat < 128 then b.toNat else 2 ^ 64 - 256 + b.toNat)).leftpad 2 '0'

def encodedByte (b : UInt8) : QString := if isDirect b then [Char.ofNat b.toNat] else escapedByte b

def encodedValue (value : Bytes) : QString := value.flatMap encodedByte

def expires (c : HttpCookie D) : QString :=
  match c.getType Q now with
  | .permanent => "; Expires=".toList ++ Q.toHttp c.expire ++
      if Q.toTimeT c.expire - now.time > 0 then "; Max-Age=".toList ++ number (Q.toTimeT c.expire - now.time) else []
  | .session => []
  | .delete => "; Expires=Thu, 01-Jan-1970 00:00:01 GMT".toList

/-- An attribute between quotes, without the quotes of its text. -/
def quoted (label : String) (text : QString) : QString :=
  if text.isEmpty then [] else label.toList ++ '"' :: text.filter (· ≠ '"') ++ ['"']

/-- What is behind the name and the value. -/
def attributes (c : HttpCookie D) : QString :=
  c.expires Q now ++ (if c.domain.isEmpty then [] else "; Domain=".toList ++ c.domain) ++
    (if c.path.isEmpty then [] else "; Path=".toList ++ c.path) ++ (if c.secure then "; Secure".toList else []) ++
    (if c.httpOnly then "; HttpOnly".toList else []) ++ quoted "; Comment=" c.comment ++ quoted "; CommentURL=" c.commentUrl

/-- `to_http_header()`. -/
def toHttpHeader (c : HttpCookie D) : QString :=
  "Set-Cookie: ".toList ++ c.name ++ '=' :: encodedValue c.value ++ c.attributes Q now

/-! ### Names and values -/

theorem lt_of_isDirect {x : UInt8} (hx : isDirect x = true) : 0x20 < x.toNat ∧ x.toNat < 0x7F := by
  simp only [isDirect, Bool.or_eq_true, Bool.and_eq_true, decide_eq_true_eq, ← UInt8.toNat_inj, UInt8.le_iff_toNat_le] at hx
  simp at hx
  omega

variable {c : HttpCookie D}

theorem name_ne_nil (c : HttpCookie D) : c.name ≠ [] := by
  intro h
  have := c.nameOk
  rw [h] at this
  cases this

theorem isToken_of_mem_name {x : Char} (hx : x ∈ c.name) : isToken x = true := by
  have h := c.nameOk
  by_contra hx'
  cases hfind : c.name.find? fun c => !isToken c with
  | none => exact List.find?_eq_none.mp hfind x hx (by simpa using hx')
  | some y =>
    simp only [checkName, hfind] at h
    split at h <;> cases h

end HttpCookie
end Snapwebsites
