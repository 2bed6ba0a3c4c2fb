import Mathlib.Data.List.GetD
import Snapwebsites.HttpCookie.Cookie
import Snapwebsites.SnapUri.Parts

/-! # Cookie headers

`to_http_header()` writes the name and the value and a list of attributes, each behind a semicolon (`toHttpHeader_eq`). The setters
are to keep semicolons and control characters out of their texts. `set_domain()` has changed the cookie when it refuses a domain,
`set_path()` checks the domain in place of the path and nothing checks the comments; where a run of setters escapes all three, the
header has the attributes that were set and no other (`notSplit_of_proper`). -/

namespace Snapwebsites
open QString SnapUri

namespace HttpCookie

/-! ### The characters of a cookie -/

/-- The printable characters of ASCII but for the blank and the semicolon. -/
structure Safe (c : Char) : Prop where
  lower : 0x20 < c.toNat
  upper : c.toNat < 0x7F
  semicolon : c ≠ ';'

section Safe
variable {c : Char}

theorem Safe.ascii (h : Safe c) : c.toNat < 128 := by
  have := h.upper
  omega

theorem Safe.space (h : Safe c) : isSpace c = false := by
  have hlower := h.lower
  have hupper := h.upper
  simp only [isSpace, Bool.or_eq_false_iff, Bool.and_eq_false_iff, decide_eq_false_iff_not]
  omega

theorem Safe.control (h : Safe c) : isControl c = false := by
  have hlower := h.lower
  have hupper := h.upper
  simp only [isControl, Bool.or_eq_false_iff, Bool.and_eq_false_iff, decide_eq_false_iff_not]
  omega

theorem Safe.ne_nul (h : Safe c) : c ≠ nul := by
  rintro rfl
  exact absurd h.lower (by decide)

end Safe

theorem exists_digit_of_mem_toDigits {n : Nat} (h : c ∈ Nat.toDigits 16 n) : ∃ d < 16, c = Nat.digitChar d := by
  induction n using Nat.strongRecOn with
  | ind n ih =>
    rw [Nat.toDigits_eq_if (by decide)] at h
    split at h
    · exact ⟨n, ‹_›, List.mem_singleton.mp h⟩
    · rcases List.mem_append.mp h with h | h
      · exact ih (n / 16) (by omega) h
      · exact ⟨n % 16, Nat.mod_lt _ (by decide), List.mem_singleton.mp h⟩

theorem escapedByte_safe : ∀ n < 256, ∀ c ∈ escapedByte (UInt8.ofNat n),
    (0x20 < c.toNat ∧ c.toNat < 0x7F) ∧ c ≠ ';' ∧ c ≠ '=' := by
  have hdigit : ∀ d < 16, (0x20 < (Nat.digitChar d).toNat ∧ (Nat.digitChar d).toNat < 0x7F) ∧ Nat.digitChar d ≠ ';' ∧
      Nat.digitChar d ≠ '=' := by decide
  intro n _ c hc
  rcases List.mem_cons.mp hc with rfl | hc
  · decide
  rcases List.mem_cons.mp hc with rfl | hc
  · decide
  rcases List.mem_append.mp hc with hc | hc
  · rw [List.eq_of_mem_replicate hc]
    decide
  · obtain ⟨d, hd, rfl⟩ := exists_digit_of_mem_toDigits hc
    exact hdigit d hd

theorem directByte_ne_semicolon : ∀ n < 256, isDirect (UInt8.ofNat n) = true → Char.ofNat n ≠ ';' := by
  decide +kernel

theorem encodedValue_safe {v : Bytes} {c : Char} (hc : c ∈ encodedValue v) : Safe c := by
  obtain ⟨b, -, hc⟩ := List.mem_flatMap.mp hc
  unfold encodedByte at hc
  split at hc
  · rename_i hdirect
    rw [List.mem_singleton.mp hc]
    obtain ⟨hlower, hupper⟩ := lt_of_isDirect hdirect
    rw [← UInt8.ofNat_toNat (x := b)] at hdirect
    refine ⟨?_, ?_, directByte_ne_semicolon b.toNat b.toNat_lt hdirect⟩
    · rwa [toNat_ofNat_byte]
    · rwa [toNat_ofNat_byte]
  · rw [← UInt8.ofNat_toNat (x := b)] at hc
    obtain ⟨⟨hlower, hupper⟩, hsemicolon, -⟩ := escapedByte_safe b.toNat b.toNat_lt c hc
    exact ⟨hlower, hupper, hsemicolon⟩

variable {D : Type} {c : HttpCookie D}

theorem name_safe {x : Char} (hx : x ∈ c.name) : Safe x ∧ x ≠ '=' := by
  have htoken := isToken_of_mem_name hx
  simp only [isToken, Bool.and_eq_true, Bool.not_eq_true', decide_eq_false_iff_not, decide_eq_true_eq, List.contains_iff_mem] at htoken
  obtain ⟨⟨hlower, hupper⟩, hmem⟩ := htoken
  have hnot : ';' ∉ httpToken ∧ '=' ∉ httpToken := by decide
  exact ⟨⟨Char.not_le.mp hlower, hupper, fun h => hnot.1 (h ▸ hmem)⟩, fun h => hnot.2 (h ▸ hmem)⟩

/-- The name and the value, as the browser sends them. -/
def nameValue (c : HttpCookie D) : QString := c.name ++ '=' :: encodedValue c.value

theorem nameValue_safe {x : Char} (hx : x ∈ c.nameValue) : Safe x := by
  rcases List.mem_append.mp hx with hx | hx
  · exact (name_safe hx).1
  · rcases List.mem_cons.mp hx with rfl | hx
    · exact ⟨by decide, by decide, by decide⟩
    · exact encodedValue_safe hx

/-! ### The attributes -/

variable (Q : Dates D) (now : Now D)

/-- The attributes that are set, in the order of the header. -/
def attributeList (c : HttpCookie D) : List QString :=
  (match c.getType Q now with
    | .permanent => ("Expires=".toList ++ Q.toHttp c.expire) ::
        if Q.toTimeT c.expire - now.time > 0 then ["Max-Age=".toList ++ number (Q.toTimeT c.expire - now.time)] else []
    | .session => []
    | .delete => ["Expires=Thu, 01-Jan-1970 00:00:01 GMT".toList]) ++
    (if c.domain.isEmpty then [] else ["Domain=".toList ++ c.domain]) ++
    (if c.path.isEmpty then [] else ["Path=".toList ++ c.path]) ++
    (if c.secure then ["Secure".toList] else []) ++
    (if c.httpOnly then ["HttpOnly".toList] else []) ++
    (if c.comment.isEmpty then [] else ["Comment=\"".toList ++ c.comment.filter (· ≠ '"') ++ ['"']]) ++
    (if c.commentUrl.isEmpty then [] else ["CommentURL=\"".toList ++ c.commentUrl.filter (· ≠ '"') ++ ['"']])

theorem attributes_eq (c : HttpCookie D) : c.attributes Q now = (c.attributeList Q now).flatMap ("; ".toList ++ ·) := by
  have hexpires : c.expires Q now = (match c.getType Q now with
      | .permanent => ("Expires=".toList ++ Q.toHttp c.expire) ::
          if Q.toTimeT c.expire - now.time > 0 then ["Max-Age=".toList ++ number (Q.toTimeT c.expire - now.time)] else []
      | .session => []
      | .delete => ["Expires=Thu, 01-Jan-1970 00:00:01 GMT".toList]).flatMap ("; ".toList ++ ·) := by
    unfold expires
    cases c.getType Q now with
    | permanent => dsimp only; split <;> simp
    | session => rfl
    | delete => rfl
  have hunless : ∀ (p : Prop) [Decidable p] (s : QString),
      (if p then [] else [s]).flatMap ("; ".toList ++ ·) = if p then [] else "; ".toList ++ s := by
    intro p _ s
    split <;> simp
  have hwhen : ∀ (p : Prop) [Decidable p] (s : QString),
      (if p then [s] else []).flatMap ("; ".toList ++ ·) = if p then "; ".toList ++ s else [] := by
    intro p _ s
    split <;> simp
  rw [attributes, attributeList, hexpires]
  simp only [List.flatMap_append, hunless, hwhen, quoted]
  rfl

theorem toHttpHeader_eq (c : HttpCookie D) :
    c.toHttpHeader Q now = "Set-Cookie: ".toList ++ c.nameValue ++ (c.attributeList Q now).flatMap ("; ".toList ++ ·) := by
  unfold toHttpHeader nameValue
  rw [attributes_eq]
  generalize "Set-Cookie: ".toList = start
  simp only [List.append_assoc]

/-- Texts behind semicolons come apart there, each with the blank in front. -/
theorem splitOn_flatMap {p : QString} {parts : List QString} (hp : ';' ∉ p) (hparts : ∀ s ∈ parts, ';' ∉ s) :
    (p ++ parts.flatMap ("; ".toList ++ ·)).splitOn ';' = p :: parts.map (' ' :: ·) := by
  induction parts generalizing p with
  | nil =>
    rw [List.flatMap_nil, List.append_nil, List.splitOn_eq_singleton hp]
    rfl
  | cons s parts ih =>
    have hrest := ih (p := ' ' :: s) (by simpa using hparts s List.mem_cons_self) fun t ht => hparts t (List.mem_cons_of_mem _ ht)
    have hcons : p ++ (s :: parts).flatMap ("; ".toList ++ ·) = p ++ ';' :: (' ' :: s ++ parts.flatMap ("; ".toList ++ ·)) := by
      rw [List.flatMap_cons]
      rfl
    rw [hcons, List.splitOn_append_cons_self_of_not_mem hp, hrest]
    rfl

/-! ### Runs of setters -/

/-- A setter and what it is called with. -/
inductive Setter (D : Type)
  | value (value : Bytes)
  | valueText (value : QString)
  | domain (domain : QString)
  | path (path : QString)
  | delete
  | session
  | expire (dateTime : D) (now : Now D)
  | expireIn (seconds : Int) (now : Now D)
  | secure (secure : Bool)
  | httpOnly (httpOnly : Bool)
  | comment (comment : QString)
  | commentUrl (commentUrl : QString)

/-- What a setter stores that does not refuse. -/
def store (c : HttpCookie D) : Setter D → HttpCookie D
  | .value v => c.setValue v
  | .valueText v => c.setValue v.utf8
  | .domain d => { c with domain := storedDomain d }
  | .path p => { c with path := p }
  | .delete => c.setDelete Q
  | .session => c.setSession Q
  | .expire d now => c.setExpire Q now d
  | .expireIn s now => c.setExpireIn Q now s
  | .secure b => c.setSecure b
  | .httpOnly b => c.setHttpOnly b
  | .comment t => c.setComment t
  | .commentUrl t => c.setCommentUrl t

/-- What a setter throws, if it does, and the cookie that it leaves. -/
def call (c : HttpCookie D) : Setter D → Except QString Unit × HttpCookie D
  | .domain d => c.setDomain d
  | .path p => c.setPath p
  | s => (.ok (), c.store Q s)

def run (c : HttpCookie D) (setters : List (Setter D)) : HttpCookie D := setters.foldl (fun c s => (c.call Q s).2) c

def isPathCharacter (c : Char) : Bool := 0x20 ≤ c.toNat && c.toNat ≤ 0x7E && c ≠ ',' && c ≠ ';'

/-- The texts that a setter is to accept. -/
def accepts : Setter D → Bool
  | .domain d => !(storedDomain d).isEmpty && (storedDomain d).all isDomainCharacter
  | .path p => p.all isPathCharacter
  | _ => true

/-- A setter that changes nothing when it refuses. -/
def intended (c : HttpCookie D) (s : Setter D) : HttpCookie D := if accepts s then c.store Q s else c

/-- The header is one line with the attributes that were set, and the setters refuse what they are to refuse. -/
structure NotSplit (c : HttpCookie D) (setters : List (Setter D)) : Prop where
  stored : c.run Q setters = setters.foldl (intended Q) c
  accepted : ∀ before s, before ++ [s] <+: setters → (((c.run Q before).call Q s).1 = .ok () ↔ accepts s = true)
  oneLine : ∀ x ∈ (c.run Q setters).toHttpHeader Q now, isControl x = false
  attributes : ((c.run Q setters).toHttpHeader Q now).splitOn ';' =
    ("Set-Cookie: ".toList ++ (setters.foldl (intended Q) c).nameValue) ::
      ((setters.foldl (intended Q) c).attributeList Q now).map (' ' :: ·)

/-- Where the check of a path passes: the domain is as long, and its first units are printable. -/
structure Covers (domain path : QString) : Prop where
  length : units path ≤ units domain
  printable : ∀ u ∈ (domain.flatMap utf16).take (units path), 0x20 ≤ u ∧ u ≤ 0x7E

def Clean (s : QString) : Prop := ∀ x ∈ s, isControl x = false ∧ x ≠ ';'

instance decidableClean (s : QString) : Decidable (Clean s) :=
  inferInstanceAs (Decidable (∀ x ∈ s, isControl x = false ∧ x ≠ ';'))

/-- The calls that do not reach what the setters miss: a domain that is accepted, or leaves the domain as it is; a path for which
    the domain happens to give the right answer; a comment without control characters and semicolons. -/
def Proper (c : HttpCookie D) : Setter D → Prop
  | .domain d => accepts (.domain d : Setter D) = true ∨ storedDomain d = c.domain
  | .path p => (accepts (.path p : Setter D) = true ↔ Covers c.domain p)
  | .comment t => Clean t
  | .commentUrl t => Clean t
  | _ => True

def ProperRun (c : HttpCookie D) : List (Setter D) → Prop
  | [] => True
  | s :: setters => c.Proper s ∧ ProperRun (c.call Q s).2 setters

/-! ### What one setter keeps -/

/-- The texts of a cookie. -/
structure CleanTexts (c : HttpCookie D) : Prop where
  domain : Clean c.domain
  path : Clean c.path
  comment : Clean c.comment
  commentUrl : Clean c.commentUrl

variable {Q now} {s : Setter D}

theorem checkDomain_eq_ok {d : QString} : checkDomain d = .ok () ↔ d.isEmpty = false ∧ d.all isDomainCharacter = true := by
  unfold checkDomain
  cases d.isEmpty with
  | true => exact iff_of_false nofun fun h => by cases h.1
  | false =>
    cases d.all isDomainCharacter with
    | true => exact iff_of_true rfl ⟨rfl, rfl⟩
    | false => exact iff_of_false nofun fun h => by cases h.2

/-- The check of `set_path()` looks at as many units of the domain as the path has. -/
theorem checkPath_eq_ok {d p : QString} : checkPath d p = .ok () ↔ Covers d p := by
  have hunit : ∀ u, refusesUnit u = false ↔ 0x20 ≤ u ∧ u ≤ 0x7E := by
    intro u
    simp only [refusesUnit, Bool.and_eq_false_iff, Bool.or_eq_false_iff, decide_eq_false_iff_not]
    omega
  have hany : checkPath d p = .ok () ↔ ∀ i < units p, 0x20 ≤ unicodeAt d i ∧ unicodeAt d i ≤ 0x7E := by
    have hall : (List.range (units p)).any (fun i => refusesUnit (unicodeAt d i)) = false ↔
        ∀ i < units p, 0x20 ≤ unicodeAt d i ∧ unicodeAt d i ≤ 0x7E := by
      simp only [List.any_eq_false, List.mem_range, Bool.not_eq_true, hunit]
    rw [← hall]
    unfold checkPath
    cases (List.range (units p)).any fun i => refusesUnit (unicodeAt d i) with
    | true => exact iff_of_false nofun nofun
    | false => exact iff_of_true rfl rfl
  rw [hany]
  constructor
  · intro h
    refine ⟨?_, fun u hu => ?_⟩
    · by_contra! hshort
      have hend := (h _ hshort).1
      rw [unicodeAt, units, List.getD_eq_default _ _ (le_refl _)] at hend
      omega
    · obtain ⟨i, hi, rfl⟩ := List.mem_take_iff_getElem.mp hu
      have hin := h i (by omega)
      rwa [unicodeAt, List.getD_eq_getElem _ _ (by omega)] at hin
  · intro h i hi
    have hlength := h.length
    rw [unicodeAt, List.getD_eq_getElem _ _ (lt_of_lt_of_le hi hlength)]
    exact h.printable _ (List.mem_take_iff_getElem.mpr ⟨i, lt_min hi (lt_of_lt_of_le hi hlength), rfl⟩)

theorem call_domain (c : HttpCookie D) (d : QString) :
    (c.call Q (.domain d)).1 = .ok () ↔ accepts (.domain d : Setter D) = true := by
  rw [call, setDomain, checkDomain_eq_ok, accepts, Bool.and_eq_true, Bool.not_eq_true']

theorem call_path (c : HttpCookie D) (p : QString) : (c.call Q (.path p)).1 = .ok () ↔ Covers c.domain p := by
  rw [call, setPath, ← checkPath_eq_ok]
  cases checkPath c.domain p <;> simp

/-- A proper call does what is intended. -/
theorem call_of_proper (h : c.Proper s) :
    ((c.call Q s).1 = .ok () ↔ accepts s = true) ∧ (c.call Q s).2 = c.intended Q s := by
  cases s with
  | domain d =>
    refine ⟨call_domain c d, ?_⟩
    unfold intended
    split
    · rfl
    · rename_i hrefused
      -- the domain that is refused is the one that the cookie has
      have hsame : storedDomain d = c.domain := h.resolve_left hrefused
      rw [call, setDomain, hsame]
  | path p =>
    have haccepted : (c.call Q (.path p)).1 = .ok () ↔ accepts (.path p : Setter D) = true := (call_path c p).trans h.symm
    refine ⟨haccepted, ?_⟩
    unfold intended
    rw [call, setPath] at haccepted ⊢
    cases hcheck : checkPath c.domain p with
    | ok u =>
      rw [hcheck] at haccepted
      rw [if_pos (haccepted.mp rfl)]
      rfl
    | error e =>
      rw [hcheck] at haccepted
      rw [if_neg fun h => nomatch haccepted.mpr h]
  | _ => exact ⟨iff_of_true rfl rfl, rfl⟩

theorem clean_of_all {s : QString} {p : Char → Bool} (hs : s.all p = true) (hp : ∀ x, p x = true → isControl x = false ∧ x ≠ ';') :
    Clean s := fun x hx => hp x (List.all_eq_true.mp hs x hx)

theorem isDomainCharacter_clean (x : Char) (hx : isDomainCharacter x = true) : isControl x = false ∧ x ≠ ';' := by
  have hnat : 0x2D ≤ x.toNat ∧ x.toNat < 0x7F ∧ x.toNat ≠ 0x3B := by
    simp only [isDomainCharacter, Bool.or_eq_true, Bool.and_eq_true, decide_eq_true_eq] at hx
    rcases hx with ((((⟨hlower, hupper⟩ | ⟨hlower, hupper⟩) | ⟨hlower, hupper⟩) | rfl) | rfl) | rfl
    · have hlower : 65 ≤ x.toNat := hlower
      have hupper : x.toNat ≤ 90 := hupper
      omega
    · have hlower : 97 ≤ x.toNat := hlower
      have hupper : x.toNat ≤ 122 := hupper
      omega
    · have hlower : 48 ≤ x.toNat := hlower
      have hupper : x.toNat ≤ 57 := hupper
      omega
    all_goals decide
  obtain ⟨hlower, hupper, hsemicolon⟩ := hnat
  refine ⟨?_, fun h => hsemicolon (h ▸ rfl)⟩
  simp only [isControl, Bool.or_eq_false_iff, Bool.and_eq_false_iff, decide_eq_false_iff_not]
  omega

theorem isPathCharacter_clean (x : Char) (hx : isPathCharacter x = true) : isControl x = false ∧ x ≠ ';' := by
  simp only [isPathCharacter, Bool.and_eq_true, decide_eq_true_eq] at hx
  refine ⟨?_, hx.2⟩
  simp only [isControl, Bool.or_eq_false_iff, Bool.and_eq_false_iff, decide_eq_false_iff_not]
  omega

/-- What is intended keeps the texts clean. -/
theorem CleanTexts.intended (hc : c.CleanTexts) (h : c.Proper s) : (c.intended Q s).CleanTexts := by
  unfold HttpCookie.intended
  split
  · rename_i haccepted
    cases s with
    | domain d =>
      rw [accepts, Bool.and_eq_true] at haccepted
      exact { hc with domain := clean_of_all haccepted.2 isDomainCharacter_clean }
    | path p => exact { hc with path := clean_of_all haccepted isPathCharacter_clean }
    | comment t => exact { hc with comment := h }
    | commentUrl t => exact { hc with commentUrl := h }
    | expire d now =>
      show (c.setExpire Q now d).CleanTexts
      unfold setExpire
      split <;> exact { hc with }
    | _ => exact { hc with }
  · exact hc

/-! ### The header -/

theorem Clean.append {s t : QString} (hs : Clean s) (ht : Clean t) : Clean (s ++ t) := fun x hx =>
  (List.mem_append.mp hx).elim (hs x) (ht x)

theorem Clean.filter {s : QString} (hs : Clean s) (p : Char → Bool) : Clean (s.filter p) := fun x hx =>
  hs x (List.mem_of_mem_filter hx)

theorem clean_number (n : Int) : Clean (number n) := by
  have hdigits : ∀ n : Nat, Clean (Nat.toDigits 10 n) := fun n x hx => by
    have hdigit := Nat.isDigit_of_mem_toDigits (by decide) (by decide) hx
    simp only [Char.isDigit, Bool.and_eq_true, decide_eq_true_eq] at hdigit
    refine isDomainCharacter_clean x ?_
    have hrange : '0' ≤ x ∧ x ≤ '9' := hdigit
    simp [isDomainCharacter, hrange]
  unfold number
  split
  · exact Clean.append (s := ['-']) (by decide) (hdigits _)
  · exact hdigits _

theorem clean_quoted {s : QString} (label : String) (hlabel : Clean label.toList) (hs : Clean s) :
    Clean (label.toList ++ s.filter (· ≠ '"') ++ ['"']) :=
  (hlabel.append (hs.filter _)).append (by decide)

theorem attributeList_clean (Q : Dates D) (now : Now D) (hc : c.CleanTexts) : ∀ s ∈ c.attributeList Q now, Clean s := by
  have hunless : ∀ {p : Prop} [Decidable p] {t : QString}, Clean t → ∀ s ∈ (if p then [] else [t]), Clean s := by
    intro p _ t ht s hs
    split at hs
    · cases hs
    · rwa [List.mem_singleton.mp hs]
  have hwhen : ∀ {p : Prop} [Decidable p] {t : QString}, Clean t → ∀ s ∈ (if p then [t] else []), Clean s := by
    intro p _ t ht s hs
    split at hs
    · rwa [List.mem_singleton.mp hs]
    · cases hs
  have hexpires : Clean ("Expires=".toList ++ Q.toHttp c.expire) := Clean.append (by decide) (Q.toHttp_words c.expire)
  unfold attributeList
  simp only [List.forall_mem_append]
  refine ⟨⟨⟨⟨⟨⟨?_, hunless (Clean.append (by decide) hc.domain)⟩, hunless (Clean.append (by decide) hc.path)⟩,
    hwhen (by decide)⟩, hwhen (by decide)⟩, hunless (clean_quoted "Comment=\"" (by decide) hc.comment)⟩,
    hunless (clean_quoted "CommentURL=\"" (by decide) hc.commentUrl)⟩
  cases c.getType Q now with
  | permanent => exact List.forall_mem_cons.mpr ⟨hexpires, hwhen (Clean.append (by decide) (clean_number _))⟩
  | session => exact fun _ hs => absurd hs List.not_mem_nil
  | delete => exact List.forall_mem_singleton.mpr (by decide)

/-- The header of a cookie with clean texts is one line that comes apart into its attributes. -/
theorem CleanTexts.header (hc : c.CleanTexts) (Q : Dates D) (now : Now D) :
    (∀ x ∈ c.toHttpHeader Q now, isControl x = false) ∧ (c.toHttpHeader Q now).splitOn ';' =
      ("Set-Cookie: ".toList ++ c.nameValue) :: (c.attributeList Q now).map (' ' :: ·) := by
  have hattributes := attributeList_clean Q now hc
  have hstart : Clean ("Set-Cookie: ".toList ++ c.nameValue) :=
    Clean.append (by decide) fun x hx => ⟨(nameValue_safe hx).control, (nameValue_safe hx).semicolon⟩
  rw [toHttpHeader_eq]
  constructor
  · intro x hx
    rcases List.mem_append.mp hx with hx | hx
    · exact (hstart x hx).1
    · obtain ⟨s, hs, hx⟩ := List.mem_flatMap.mp hx
      rcases List.mem_append.mp hx with hx | hx
      · have hseparator : ∀ x ∈ "; ".toList, isControl x = false := by decide
        exact hseparator x hx
      · exact (hattributes s hs x hx).1
  · exact splitOn_flatMap (fun hmem => (hstart _ hmem).2 rfl) fun s hs hmem => (hattributes s hs _ hmem).2 rfl

/-- Setters that are called properly do what is intended, one after the other. -/
theorem run_of_proper {setters : List (Setter D)} (hrun : c.ProperRun Q setters) (hc : c.CleanTexts) :
    c.run Q setters = setters.foldl (intended Q) c ∧ (c.run Q setters).CleanTexts := by
  induction setters generalizing c with
  | nil => exact ⟨rfl, hc⟩
  | cons s setters ih =>
    obtain ⟨hproper, hrun⟩ := hrun
    have hcall := (call_of_proper (Q := Q) hproper).2
    obtain ⟨hstored, htexts⟩ := ih hrun (hcall ▸ hc.intended hproper)
    refine ⟨?_, htexts⟩
    rw [List.foldl_cons, ← hcall]
    exact hstored

theorem proper_of_front {setters before : List (Setter D)} {s : Setter D} (hrun : c.ProperRun Q setters)
    (hfront : before ++ [s] <+: setters) : (c.run Q before).Proper s := by
  induction before generalizing c setters with
  | nil =>
    obtain ⟨rest, rfl⟩ := hfront
    exact hrun.1
  | cons b before ih =>
    obtain ⟨rest, rfl⟩ := hfront
    exact ih hrun.2 ⟨rest, rfl⟩

/-- In a run of proper calls no text gets out of its place in the header. -/
theorem notSplit_of_proper (Q : Dates D) (now : Now D) {snap : Option Snap} {name value : QString} {c : HttpCookie D}
    (hcreate : create Q snap name value = .ok c) (hdomain : Clean c.domain) {setters : List (Setter D)}
    (hrun : c.ProperRun Q setters) : NotSplit Q now c setters := by
  have hroot : Clean ['/'] := by decide
  have hempty : Clean [] := by decide
  have hc : c.CleanTexts := by
    unfold create at hcreate
    split at hcreate
    · cases hcreate
    · cases hcreate
      exact ⟨hdomain, hroot, hempty, hempty⟩
  obtain ⟨hstored, htexts⟩ := run_of_proper hrun hc
  obtain ⟨honeLine, hattributes⟩ := htexts.header Q now
  exact ⟨hstored, fun before s hfront => (call_of_proper (proper_of_front hrun hfront)).1, honeLine, by rw [hattributes, hstored]⟩

/-! ### A path with a semicolon -/

/-- A cookie of the website `snap.net`. -/
def ofSnapNet : HttpCookie (Option Int) where
  snap := some ⟨0, 0, none, "snap.net".toList⟩
  name := "lang".toList
  value := utf8 "en".toList
  domain := "snap.net".toList
  path := ['/']
  expire := none
  nameOk := rfl

theorem notSplit_of_proper_snapNet : NotSplit .milliseconds ⟨0, 0, none⟩ ofSnapNet [.path "/a".toList, .comment "language".toList] :=
  notSplit_of_proper .milliseconds ⟨0, 0, none⟩
    (rfl : create .milliseconds (some ⟨0, 0, none, "snap.net".toList⟩) "lang".toList "en".toList = .ok ofSnapNet)
    (by decide) ⟨iff_of_true (by decide) ⟨by decide, by decide⟩, (by decide : Clean "language".toList), trivial⟩

/-- The path is as long as the domain and has an attribute in it. -/
theorem not_notSplit :
    create .milliseconds (some ⟨0, 0, none, "snap.net".toList⟩) "lang".toList "en".toList = .ok ofSnapNet ∧
      ¬ NotSplit .milliseconds ⟨0, 0, none⟩ ofSnapNet [.path "/;Secure".toList] := by
  refine ⟨rfl, fun h => ?_⟩
  have haccepted := (h.accepted [] _ (List.prefix_refl _)).mp rfl
  exact absurd haccepted (by decide)

end HttpCookie
end Snapwebsites
