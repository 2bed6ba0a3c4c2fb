import Snapwebsites.Lib.SortedMap
import Snapwebsites.SnapUri.Codec

/-! # URIs

`snap_uri`: how a text is parsed, on a new object, and how the text of a URI is put together again. The library that
finds the top level domain and the table of the services of the system are not part of the repository: `tld` gives the
offset of the top level domain in a name, `getservbyname` the port of a service. The original text and the options,
which no parsing sets, are left out. -/

namespace Snapwebsites
open QString

structure SnapUri where
  protocol : QString := "http".toList
  username : QString := []
  password : QString := []
  port : Nat := 80
  domain : QString := []
  topLevelDomain : QString := []
  subDomains : List QString := []
  path : List QString := []
  queryStrings : SortedMap QString QString := ∅
  anchor : QString := []
  deriving DecidableEq

/-- `set_uri()` returns false, or throws. -/
inductive SetUriError
  | refused
  | invalidUri
  deriving DecidableEq

namespace SnapUri

/-- The parts of a text, as they stand in it. -/
structure Raw where
  protocol : QString
  username : QString
  password : QString
  fullDomainName : QString
  port : Option Nat
  path : QString
  query : Option QString
  anchor : Option QString

section
variable (tld getservbyname : QString → Option Nat)

def protocolToPort (protocol : QString) : Option Nat :=
  if protocol = "http".toList then some 80
  else if protocol = "https".toList then some 443
  else if protocol = "ftp".toList then some 21
  else if protocol = "ssh".toList then some 22
  else if protocol = "telnet".toList then some 23
  else if protocol = "smtp".toList then some 25
  else if protocol = "gopher".toList then some 70
  else getservbyname protocol

/-! ### Splitting a text -/

/-- The positions of the colons and of the at sign in front of the path. -/
structure Marks where
  colon1 : Option Nat := none
  colon2 : Option Nat := none
  sign : Option Nat := none

/-- The loop over the characters between the protocol and the path, from position `i` on. -/
def scanAuthority : Nat → Marks → QString → Option Marks
  | _, m, [] => some m
  | i, m, c :: s =>
    if c = ':' then
      if m.colon1.isNone then scanAuthority (i + 1) { m with colon1 := some i } s
      else if m.sign.isNone || m.colon2.isSome then none
      else scanAuthority (i + 1) { m with colon2 := some i } s
    else if c = '@' then
      if m.sign.isSome then none else scanAuthority (i + 1) { m with sign := some i } s
    else scanAuthority (i + 1) m s

/-- One digit more of a port. -/
def portDigit (port : Nat) (d : Char) : Option Nat :=
  if '0' ≤ d ∧ d ≤ '9' then
    let port := port * 10 + (d.toNat - '0'.toNat)
    if port > 65535 then none else some port
  else none

def readPort (s : QString) : Option Nat := if s.isEmpty then none else s.foldlM portDigit 0

/-- The name, the password, the domain and the port in front of the path. -/
def splitAuthority (protocol authority : QString) : Option (QString × QString × QString × Option Nat) := do
  let m ← scanAuthority 0 {} authority
  -- without an at (@) colon1 indicates a port
  let m := if m.sign.isNone then { m with colon1 := none, colon2 := m.colon1 } else m
  let username := match m.colon1 with | some colon => authority.take colon | none => []
  let s := match m.colon1 with | some colon => colon + 1 | none => 0
  let password := match m.sign with | some sign => (authority.take sign).drop s | none => []
  let s := match m.sign with | some sign => sign + 1 | none => s
  let fullDomainName := (authority.take (m.colon2.getD authority.length)).drop s
  let port ← match m.colon2 with
    | some colon => (readPort (authority.drop (colon + 1))).map some
    | none => some (protocolToPort getservbyname protocol)
  if fullDomainName.isEmpty then none
  else if username.isEmpty != password.isEmpty then none
  else some (username, password, fullDomainName, port)

/-- What follows the first `c`, if there is one. -/
def behind (c : Char) (s : QString) : Option QString :=
  match s.dropWhile (· ≠ c) with
  | [] => none
  | _ :: rest => some rest

/-- The part of `set_uri()` that decodes nothing. -/
def split (uri : QString) : Option Raw :=
  let u := constData uri
  let protocol := u.takeWhile (· ≠ ':')
  match u.dropWhile (· ≠ ':') with
  | ':' :: '/' :: '/' :: u =>
    if protocol.isEmpty then none
    else do
      let (username, password, fullDomainName, port) ← splitAuthority getservbyname protocol (u.takeWhile (· ≠ '/'))
      let u := (u.dropWhile (· ≠ '/')).drop 1
      let beforeAnchor := u.takeWhile (· ≠ '#')
      some { protocol, username, password, fullDomainName, port
             path := beforeAnchor.takeWhile (· ≠ '?'), query := behind '?' beforeAnchor, anchor := behind '#' u }
  | _ => none

/-! ### Decoding the parts -/

def decode (s : QString) : Except SetUriError QString :=
  match urldecode s with
  | some t => .ok t
  | none => .error .invalidUri

/-- `process_domain()`: the sub-domains, the domain and the top level domain. -/
def processDomain (fullDomainName : QString) : Except SetUriError (List QString × QString × QString) :=
  match tld fullDomainName with
  | none => .error .refused
  | some offset => do
    let topLevelDomain ← decode (fullDomainName.drop offset)
    let domain ← decode ((fullDomainName.take offset).rtakeWhile (· ≠ '.'))
    let allSubDomains := ((fullDomainName.take offset).rdropWhile (· ≠ '.')).dropLast
    if allSubDomains.isEmpty then pure ([[]], domain, topLevelDomain)
    else do
      let subDomains ← (allSubDomains.splitOn '.').mapM fun s => if s.isEmpty then .error .refused else decode s
      pure (subDomains, domain, topLevelDomain)

def readPath (path : QString) : Except SetUriError (List QString) := (splitParts '/' path).mapM decode

/-- The parameters of a query string. -/
def queryParameters (query : QString) : List QString :=
  let query := query.dropWhile (· = '&')
  if query.isEmpty then [[]] else splitParts '&' query

/-- The name and the value of a parameter. The first character of all but the first one is not looked at. -/
def nameAndValue (first : Bool) (parameter : QString) : QString × QString :=
  let skip := if first then 0 else 1
  let e := skip + ((parameter.drop skip).takeWhile (· ≠ '=')).length
  (parameter.take e, parameter.drop (e + 1))

/-- The loop over the parameters of a query string. -/
def readQuery : Bool → List QString → SortedMap QString QString → Except SetUriError (SortedMap QString QString)
  | _, [], queryStrings => .ok queryStrings
  | first, parameter :: rest, queryStrings => do
    let (name, value) := nameAndValue first parameter
    let name ← decode (if name.isEmpty then ['*'] else name)
    if queryStrings.contains name then .error .refused
    else do
      let value ← decode value
      readQuery false rest (queryStrings.insert name value)

/-- The anchor, or what a hash bang adds to the path. -/
def readAnchor (path : List QString) : Option QString → Except SetUriError (List QString × QString)
  | none => .ok (path, [])
  | some anchor => do
    let p ← decode anchor
    if p.head? = some '!' then do
      let more ← (splitParts '/' p).mapM decode
      pure (path ++ more, [])
    else pure (path, p)

/-- Each ".." takes the segment in front of it away. The segments in front of the loop are in reverse order. -/
def removeParents : List QString → List QString → Option (List QString)
  | front, [] => some front.reverse
  | front, s :: rest =>
    if s = "..".toList then
      match front with
      | [] => none
      | _ :: front => removeParents front rest
    else removeParents (s :: front) rest

/-- The part of `set_uri()` behind `split`. -/
def Raw.decode (raw : Raw) : Except SetUriError SnapUri := do
  let (subDomains, domain, topLevelDomain) ← processDomain tld raw.fullDomainName
  let path ← readPath raw.path
  let queryStrings ← readQuery true (raw.query.elim [] queryParameters) ∅
  let (path, anchor) ← readAnchor path raw.anchor
  match removeParents [] path with
  | none => .error .refused
  | some path => do
    let username ← SnapUri.decode raw.username
    let password ← SnapUri.decode raw.password
    pure { protocol := raw.protocol, username, password, port := raw.port.getD 80, domain, topLevelDomain, subDomains
           path, queryStrings, anchor }

/-- `set_uri()` on a new object. -/
def setUri (uri : QString) : Except SetUriError SnapUri :=
  match split getservbyname uri with
  | none => .error .refused
  | some raw => raw.decode tld

/-! ### Writing a URI -/

def fullDomain (u : SnapUri) : QString :=
  let fullDomains := join '.' u.subDomains
  (if fullDomains.isEmpty then [] else fullDomains ++ ['.']) ++ u.domain ++ u.topLevelDomain

/-- `path()`, encoded. -/
def encodedPath (u : SnapUri) : QString := join '/' (u.path.map (urlencode · ['~']))

def writeOption (p : QString × QString) : QString :=
  urlencode p.1 [] ++ if p.2.isEmpty then [] else '=' :: urlencode p.2 [',']

def queryString (u : SnapUri) : QString :=
  u.queryStrings.entries.foldl (fun result p => (if result.isEmpty then [] else result ++ ['&']) ++ writeOption p) []

def userInfo (u : SnapUri) : QString :=
  if u.username.isEmpty then []
  else urlencode u.username [] ++ (if u.password.isEmpty then [] else ':' :: urlencode u.password []) ++ ['@']

def writePort (u : SnapUri) : QString :=
  if some u.port ≠ protocolToPort getservbyname u.protocol then ':' :: number u.port else []

/-- `get_uri()`; nothing when it throws. -/
def getUri (useHashBang : Bool) (u : SnapUri) : Option QString :=
  if useHashBang && !u.anchor.isEmpty then none
  else
    let p := u.encodedPath
    let q := u.queryString
    some (u.protocol ++ "://".toList ++ u.userInfo ++ urlencode u.fullDomain [] ++ u.writePort getservbyname ++ ['/']
      ++ (if useHashBang then [] else if p.head? = some '/' then p.tail else p)
      ++ (if q.isEmpty then [] else '?' :: q)
      ++ (if u.anchor.isEmpty then [] else '#' :: urlencode u.anchor "!/~".toList)
      ++ (if useHashBang && !p.isEmpty then "#!/".toList ++ p else []))

def getWebsiteUri (includePort : Bool) (u : SnapUri) : QString :=
  u.protocol ++ "://".toList ++ u.fullDomain ++ (if includePort then u.writePort getservbyname else []) ++ ['/']

end
end SnapUri
end Snapwebsites
