import Snapwebsites.SnapUri.Uri

/-! # Splitting what was written

The text of `get_uri()` is split into the parts that were written, unless it is refused: `split_textOf`. -/

namespace Snapwebsites
open QString
namespace SnapUri

variable {tld getservbyname : QString → Option Nat} {u : SnapUri} {protocol s t : QString} {c : Char}

/-! ### Splitting a text that was put together -/

theorem behind_append (h : c ∉ s) (t : QString) : behind c (s ++ c :: t) = some t := by
  rw [behind, dropWhile_ne_append h, dropWhile_ne_cons]

theorem behind_eq_none (h : c ∉ s) : behind c s = none := by
  have hdrop := dropWhile_ne_append h []
  rw [List.append_nil, List.dropWhile_nil] at hdrop
  rw [behind, hdrop]

theorem takeWhile_ne_self (h : c ∉ s) : s.takeWhile (· ≠ c) = s := by
  have htake := takeWhile_ne_append h []
  rwa [List.append_nil, List.takeWhile_nil, List.append_nil] at htake

theorem split_text {authority tail : QString} (hprotocol : protocol ≠ []) (hcolon : ':' ∉ protocol)
    (hslash : '/' ∉ authority) (hnul : nul ∉ protocol ∧ nul ∉ authority ∧ nul ∉ tail) :
    split getservbyname (protocol ++ "://".toList ++ authority ++ '/' :: tail) =
      (splitAuthority getservbyname protocol authority).map fun a =>
        { protocol, username := a.1, password := a.2.1, fullDomainName := a.2.2.1, port := a.2.2.2
          path := (tail.takeWhile (· ≠ '#')).takeWhile (· ≠ '?'), query := behind '?' (tail.takeWhile (· ≠ '#'))
          anchor := behind '#' tail } := by
  have htext : protocol ++ "://".toList ++ authority ++ '/' :: tail =
      protocol ++ ':' :: '/' :: '/' :: (authority ++ '/' :: tail) := by simp
  have hconst : constData (protocol ++ ':' :: '/' :: '/' :: (authority ++ '/' :: tail)) =
      protocol ++ ':' :: '/' :: '/' :: (authority ++ '/' :: tail) := by
    refine constData_eq_self fun h => ?_
    simp only [List.mem_append, List.mem_cons] at h
    obtain h | h | h | h | h | h | h := h
    · exact hnul.1 h
    · exact absurd h (by decide)
    · exact absurd h (by decide)
    · exact absurd h (by decide)
    · exact hnul.2.1 h
    · exact absurd h (by decide)
    · exact hnul.2.2 h
  have hempty : protocol.isEmpty = false := List.isEmpty_eq_false_iff.mpr hprotocol
  rw [htext, split, hconst]
  simp only [takeWhile_ne_append hcolon, dropWhile_ne_append hcolon, takeWhile_ne_append hslash, dropWhile_ne_append hslash,
    takeWhile_ne_cons, dropWhile_ne_cons, List.append_nil, hempty, List.drop_succ_cons, List.drop_zero]
  cases splitAuthority getservbyname protocol authority <;> rfl

theorem scanAuthority_append (hcolon : ':' ∉ s) (hsign : '@' ∉ s) : ∀ (i : Nat) (m : Marks) (t : QString),
    scanAuthority i m (s ++ t) = scanAuthority (i + s.length) m t := by
  induction s with
  | nil => exact fun _ _ _ => rfl
  | cons c s ih =>
    intro i m t
    have hc : c ≠ ':' := fun h => hcolon (h ▸ List.mem_cons_self)
    have hs : c ≠ '@' := fun h => hsign (h ▸ List.mem_cons_self)
    rw [List.cons_append, scanAuthority, if_neg hc, if_neg hs,
      ih (fun h => hcolon (List.mem_cons_of_mem _ h)) (fun h => hsign (List.mem_cons_of_mem _ h)), List.length_cons]
    congr 1
    omega

/-- The text behind a domain: nothing, or a port. -/
def portText (digits : QString) : QString := if digits.isEmpty then [] else ':' :: digits

/-- What `splitAuthority` makes of a port. -/
def portOf (getservbyname : QString → Option Nat) (protocol digits : QString) : Option (Option Nat) :=
  if digits.isEmpty then some (protocolToPort getservbyname protocol) else (readPort digits).map some

/-- A text with none of the marks of an authority. -/
def Unmarked (s : QString) : Prop := ':' ∉ s ∧ '@' ∉ s

theorem scanAuthority_unmarked (h : Unmarked s) (i : Nat) (m : Marks) (t : QString) :
    scanAuthority i m (s ++ t) = scanAuthority (i + s.length) m t := scanAuthority_append h.1 h.2 i m t

theorem scanAuthority_end (h : Unmarked s) (i : Nat) (m : Marks) : scanAuthority i m s = some m := by
  have hscan := scanAuthority_unmarked h i m []
  rw [List.append_nil] at hscan
  exact hscan

variable {username password domain digits : QString}

theorem drop_append_cons (s : QString) (c : Char) (t : QString) : (s ++ c :: t).drop (s.length + 1) = t := by
  rw [← List.drop_drop, List.drop_left]
  rfl

theorem splitAuthority_domain (hdomain : Unmarked domain) (hdigits : Unmarked digits) :
    splitAuthority getservbyname protocol (domain ++ portText digits) =
      (portOf getservbyname protocol digits).bind fun port => if domain.isEmpty then none else some ([], [], domain, port) := by
  unfold splitAuthority portText portOf
  rw [scanAuthority_unmarked hdomain]
  cases hd : digits.isEmpty with
  | true => simp [scanAuthority]
  | false =>
    have hscan : scanAuthority (0 + domain.length) {} (':' :: digits) = some { colon1 := some domain.length } := by
      simp [scanAuthority, scanAuthority_end hdigits]
    simp only [Bool.false_eq_true, if_false, hscan, Option.bind_eq_bind, Option.bind_some, Option.isNone_none, if_true,
      Option.getD_some, List.take_left, List.drop_zero, drop_append_cons]
    cases readPort digits <;> simp

theorem splitAuthority_password (husername : Unmarked username) (hpassword : Unmarked password) (hdomain : Unmarked domain)
    (hdigits : Unmarked digits) (hu : username ≠ []) (hp : password ≠ []) :
    splitAuthority getservbyname protocol (username ++ ':' :: (password ++ '@' :: (domain ++ portText digits))) =
      (portOf getservbyname protocol digits).bind fun port =>
        if domain.isEmpty then none else some (username, password, domain, port) := by
  have hscan : scanAuthority 0 {} (username ++ ':' :: (password ++ '@' :: (domain ++ portText digits))) =
      some { colon1 := some username.length, sign := some (username.length + 1 + password.length)
             colon2 := if digits.isEmpty then none else some (username.length + 1 + password.length + 1 + domain.length) } := by
    rw [scanAuthority_unmarked husername]
    simp only [scanAuthority, scanAuthority_unmarked hpassword, scanAuthority_unmarked hdomain, portText]
    cases digits.isEmpty <;> simp [scanAuthority, scanAuthority_end hdigits]
  have hpassword' : ((username ++ ':' :: (password ++ '@' :: (domain ++ portText digits))).take
      (username.length + 1 + password.length)).drop (username.length + 1) = password := by
    rw [List.drop_take, drop_append_cons, Nat.add_sub_cancel_left, List.take_left]
  have hdrop : (username ++ ':' :: (password ++ '@' :: (domain ++ portText digits))).drop
      (username.length + 1 + password.length + 1) = domain ++ portText digits := by
    rw [Nat.add_assoc, ← List.drop_drop, drop_append_cons, drop_append_cons]
  have hue : List.isEmpty username = false := List.isEmpty_eq_false_iff.mpr hu
  have hpe : List.isEmpty password = false := List.isEmpty_eq_false_iff.mpr hp
  unfold splitAuthority portOf
  rw [hscan]
  simp only [Option.bind_eq_bind, Option.bind_some, Option.isNone_some, Bool.false_eq_true, if_false, List.take_left,
    hpassword']
  cases hd : digits.isEmpty with
  | true =>
    simp only [if_true, Option.getD_none, List.take_length, hdrop]
    simp [portText, hd, hue, hpe]
  | false =>
    have hport : (username ++ ':' :: (password ++ '@' :: (domain ++ portText digits))).drop
        (username.length + 1 + password.length + 1 + domain.length + 1) = digits := by
      rw [Nat.add_assoc _ domain.length, ← List.drop_drop, hdrop, portText, hd]
      exact drop_append_cons ..
    simp only [Bool.false_eq_true, if_false, hport, Option.getD_some, List.drop_take, hdrop]
    cases readPort digits <;> simp [portText, hd, hue, hpe]

/-- A name without a password is refused. -/
theorem splitAuthority_username (husername : Unmarked username) (hdomain : Unmarked domain) (hdigits : Unmarked digits)
    (hu : username ≠ []) :
    splitAuthority getservbyname protocol (username ++ '@' :: (domain ++ portText digits)) = none := by
  have hscan : scanAuthority 0 {} (username ++ '@' :: (domain ++ portText digits)) =
      some { colon1 := if digits.isEmpty then none else some (username.length + 1 + domain.length), sign := some username.length } := by
    rw [scanAuthority_unmarked husername]
    simp only [scanAuthority, scanAuthority_unmarked hdomain, portText]
    cases digits.isEmpty <;> simp [scanAuthority, scanAuthority_end hdigits]
  have hue : List.isEmpty username = false := List.isEmpty_eq_false_iff.mpr hu
  unfold splitAuthority
  rw [hscan]
  cases hd : digits.isEmpty with
  | true => simp [hue]
  | false =>
    have hpassword : ((username ++ '@' :: (domain ++ portText digits)).take username.length).drop
        (username.length + 1 + domain.length + 1) = [] := by
      refine List.drop_eq_nil_of_le ?_
      rw [List.take_left]
      omega
    have husername : List.isEmpty ((username ++ '@' :: (domain ++ portText digits)).take
        (username.length + 1 + domain.length)) = false := by
      rw [List.isEmpty_eq_false_iff, ne_eq, List.take_eq_nil_iff]
      simp [hu]
    simp only [Bool.false_eq_true, if_false, Option.bind_eq_bind, Option.bind_some, Option.isNone_some, hpassword, husername,
      Option.getD_none]
    simp

/-! ### Ports -/

theorem isDigit_of_mem_number {n : Nat} {c : Char} (h : c ∈ number n) : c.isDigit = true := by
  have hnumber : number n = Nat.toDigits 10 n := if_neg (by omega)
  rw [hnumber] at h
  exact Nat.isDigit_of_mem_toDigits (by decide) (by decide) h

theorem notMem_number {n : Nat} {c : Char} (hc : c.isDigit = false) : c ∉ number n := fun h => by
  rw [isDigit_of_mem_number h] at hc
  cases hc

theorem number_ne_nil (n : Nat) : number n ≠ [] := by
  have hnumber : number n = Nat.toDigits 10 n := if_neg (by omega)
  rw [hnumber]
  exact Nat.toDigits_ne_nil

theorem le_ofDigitChars : ∀ (l : List Char) (n : Nat), n ≤ Nat.ofDigitChars 10 l n
  | [], _ => le_rfl
  | c :: l, n => le_trans (show n ≤ 10 * n + (c.toNat - '0'.toNat) by omega) (le_ofDigitChars l _)

theorem foldlM_portDigit : ∀ {l : List Char} {n : Nat}, (∀ c ∈ l, c.isDigit = true) → Nat.ofDigitChars 10 l n ≤ 65535 →
    l.foldlM portDigit n = some (Nat.ofDigitChars 10 l n)
  | [], _, _, _ => rfl
  | d :: l, n, hdigits, hle => by
    have hd := hdigits d List.mem_cons_self
    have hstep : Nat.ofDigitChars 10 (d :: l) n = Nat.ofDigitChars 10 l (10 * n + (d.toNat - '0'.toNat)) := rfl
    have hbound := le_ofDigitChars l (10 * n + (d.toNat - '0'.toNat))
    rw [hstep] at hle ⊢
    have hdigit : portDigit n d = some (10 * n + (d.toNat - '0'.toNat)) := by
      have hrange : '0' ≤ d ∧ d ≤ '9' := by
        simp only [Char.isDigit, Bool.and_eq_true, decide_eq_true_eq] at hd
        exact hd
      have hsmall : ¬ n * 10 + (d.toNat - '0'.toNat) > 65535 := by omega
      simp only [portDigit, if_pos hrange, if_neg hsmall]
      rw [Nat.mul_comm]
    rw [List.foldlM_cons, hdigit]
    exact foldlM_portDigit (fun c hc => hdigits c (List.mem_cons_of_mem _ hc)) hle

theorem readPort_number {n : Nat} (h : n ≤ 65535) : readPort (number n) = some n := by
  have hnumber : number n = Nat.toDigits 10 n := if_neg (by omega)
  have hfold := foldlM_portDigit (l := Nat.toDigits 10 n) (n := 0)
    (fun c hc => Nat.isDigit_of_mem_toDigits (by decide) (by decide) hc) (by rw [Nat.ofDigitChars_ten_toDigits]; exact h)
  rw [Nat.ofDigitChars_ten_toDigits] at hfold
  rw [readPort, hnumber, if_neg (by simp [Nat.toDigits_ne_nil])]
  exact hfold

/-! ### What is written -/

/-- What holds of the parts of a URI that a text was parsed to. -/
structure Parsed (getservbyname : QString → Option Nat) (u : SnapUri) : Prop where
  protocol : u.protocol ≠ [] ∧ ':' ∉ u.protocol ∧ nul ∉ u.protocol
  username : nul ∉ u.username
  password : nul ∉ u.password
  port : u.port ≤ 65535 ∨ some u.port = protocolToPort getservbyname u.protocol
  domain : nul ∉ u.domain
  topLevelDomain : nul ∉ u.topLevelDomain
  subDomains : u.subDomains ≠ [] ∧ ∀ s ∈ u.subDomains, nul ∉ s
  path : ∀ s ∈ u.path, nul ∉ s ∧ s ≠ "..".toList
  queryStrings : ∀ e ∈ u.queryStrings.entries, nul ∉ e.1 ∧ nul ∉ e.2
  anchor : nul ∉ u.anchor ∧ u.anchor.head? ≠ some '!'

/-- The parts of the text of a URI, with its path and its anchor as they are written. -/
def rawOf (u : SnapUri) (path : QString) (anchor : Option QString) : Raw where
  protocol := u.protocol
  username := urlencode u.username []
  password := if u.username.isEmpty then [] else urlencode u.password []
  fullDomainName := urlencode u.fullDomain []
  port := some u.port
  path
  query := if u.queryString.isEmpty then none else some u.queryString
  anchor

def authorityText (getservbyname : QString → Option Nat) (u : SnapUri) : QString :=
  u.userInfo ++ urlencode u.fullDomain [] ++ u.writePort getservbyname

def queryText (query : Option QString) : QString := query.elim [] ('?' :: ·)

def anchorText (anchor : Option QString) : QString := anchor.elim [] ('#' :: ·)

def textOf (getservbyname : QString → Option Nat) (u : SnapUri) (path : QString) (anchor : Option QString) : QString :=
  u.protocol ++ "://".toList ++ authorityText getservbyname u ++
    '/' :: (path ++ queryText (rawOf u path anchor).query ++ anchorText anchor)

/-- The path that `get_uri()` writes. -/
def pathText (u : SnapUri) : QString := if u.encodedPath.head? = some '/' then u.encodedPath.tail else u.encodedPath

theorem getUri_eq (u : SnapUri) : u.getUri getservbyname false = some (textOf getservbyname u u.pathText
    (if u.anchor.isEmpty then none else some (urlencode u.anchor "!/~".toList))) := by
  unfold getUri textOf authorityText pathText rawOf queryText anchorText
  by_cases ha : u.anchor = [] <;> by_cases hq : u.queryString = [] <;> simp [ha, hq]

theorem getUri_hashBang (h : u.anchor = []) : u.getUri getservbyname true = some (textOf getservbyname u []
    (if u.encodedPath.isEmpty then none else some ("!/".toList ++ u.encodedPath))) := by
  unfold getUri textOf authorityText rawOf queryText anchorText
  by_cases hp : u.encodedPath = [] <;> by_cases hq : u.queryString = [] <;> simp [h, hp, hq]

theorem unmarked_urlencode (s : QString) : Unmarked (urlencode s []) :=
  ⟨notMem_urlencode (by decide) (by decide), notMem_urlencode (by decide) (by decide)⟩

theorem unmarked_number (n : Nat) : Unmarked (number n) := ⟨notMem_number (by decide), notMem_number (by decide)⟩

/-- The port of a URI as its digits, which are left out when it is that of the protocol. -/
def portDigits (getservbyname : QString → Option Nat) (u : SnapUri) : QString :=
  if some u.port ≠ protocolToPort getservbyname u.protocol then number u.port else []

theorem writePort_eq (u : SnapUri) : u.writePort getservbyname = portText (portDigits getservbyname u) := by
  unfold writePort portText portDigits
  split
  · rw [if_neg]
    rw [List.isEmpty_iff]
    exact number_ne_nil _
  · rfl

theorem portOf_portDigits (h : Parsed getservbyname u) :
    portOf getservbyname u.protocol (portDigits getservbyname u) = some (some u.port) := by
  unfold portOf portDigits
  by_cases hport : some u.port = protocolToPort getservbyname u.protocol
  · simp [← hport]
  · have hle : u.port ≤ 65535 := h.port.resolve_right hport
    simp [hport, number_ne_nil, readPort_number hle]

theorem unmarked_portDigits (getservbyname : QString → Option Nat) (u : SnapUri) : Unmarked (portDigits getservbyname u) := by
  unfold portDigits
  split
  · exact unmarked_number _
  · exact ⟨List.not_mem_nil, List.not_mem_nil⟩

theorem writeOption_ne_nil {e : QString × QString} (h : nul ∉ e.1) (he : e.1 ≠ []) : writeOption e ≠ [] := by
  have hname := (urlencode_eq_nil [] h).not.mpr he
  simp [writeOption, hname]

/-- Only the first name can be empty. -/
theorem queryString_eq (h : Parsed getservbyname u) :
    u.queryString = join '&' ((u.queryStrings.entries.map writeOption).filter (· ≠ [])) := by
  have hsorted := u.queryStrings.sorted
  have hnul := h.queryStrings
  unfold queryString
  cases hentries : u.queryStrings.entries with
  | nil => rfl
  | cons e l =>
    rw [hentries] at hsorted hnul
    have hne : ∀ p ∈ l, writeOption p ≠ [] := fun p hp => by
      refine writeOption_ne_nil (hnul p (List.mem_cons_of_mem _ hp)).1 fun hname => ?_
      have hlt := (List.pairwise_cons.mp hsorted).1 p hp
      rw [hname] at hlt
      exact List.not_lt_nil _ hlt
    exact foldl_join '&' writeOption l (writeOption e) hne

theorem isPlain_or_of_mem_writeOption {e : QString × QString} (h : c ∈ writeOption e) :
    isPlain [','] c = true ∨ c = '%' ∨ c = '=' := by
  have hplain : isPlain [] c = true → isPlain [','] c = true := fun h => by
    simp only [isPlain, Bool.or_eq_true] at h ⊢
    exact .inl (h.resolve_right (by simp))
  unfold writeOption at h
  rcases List.mem_append.mp h with h | h
  · exact (mem_urlencode h).imp hplain .inl
  · split at h
    · cases h
    · rcases List.mem_cons.mp h with h | h
      · exact .inr (.inr h)
      · exact (mem_urlencode h).imp_right .inl

theorem notMem_queryString (h : Parsed getservbyname u) (hc : isPlain [','] c = false) (hne : c ≠ '%' ∧ c ≠ '=' ∧ c ≠ '&') :
    c ∉ u.queryString := by
  intro hmem
  rw [queryString_eq h] at hmem
  rcases mem_join hmem with rfl | ⟨s, hs, hmem⟩
  · exact hne.2.2 rfl
  · obtain ⟨e, -, rfl⟩ := List.mem_map.mp (List.mem_filter.mp hs).1
    rcases isPlain_or_of_mem_writeOption hmem with h | h | h
    · rw [hc] at h
      cases h
    · exact hne.1 h
    · exact hne.2.1 h

theorem nul_notMem_fullDomain (h : Parsed getservbyname u) : nul ∉ u.fullDomain := by
  intro hmem
  rcases List.mem_append.mp hmem with hmem | hmem
  · rcases List.mem_append.mp hmem with hmem | hmem
    · split at hmem
      · cases hmem
      · rcases List.mem_append.mp hmem with hmem | hmem
        · exact notMem_join (by decide) h.subDomains.2 hmem
        · exact absurd hmem (by decide)
    · exact h.domain hmem
  · exact h.topLevelDomain hmem

/-- A name without a password is refused, and so is a URI without a domain. -/
theorem splitAuthority_authorityText (h : Parsed getservbyname u) :
    splitAuthority getservbyname u.protocol (authorityText getservbyname u) =
      if (u.username ≠ [] ∧ u.password = []) ∨ u.fullDomain = [] then none
      else some (urlencode u.username [], if u.username.isEmpty then [] else urlencode u.password [],
        urlencode u.fullDomain [], some u.port) := by
  have hdomain : (urlencode u.fullDomain []).isEmpty = decide (u.fullDomain = []) := by
    rw [Bool.eq_iff_iff, List.isEmpty_iff, urlencode_eq_nil _ (nul_notMem_fullDomain h), decide_eq_true_iff]
  have hport := portOf_portDigits h
  have hdigits := unmarked_portDigits getservbyname u
  unfold authorityText
  rw [writePort_eq]
  by_cases hu : u.username = []
  · have hinfo : u.userInfo = [] := by simp [userInfo, hu]
    rw [hinfo, List.nil_append, splitAuthority_domain (unmarked_urlencode _) hdigits, hport, Option.bind_some, hdomain, hu]
    by_cases hd : u.fullDomain = [] <;> simp [hd]
    rfl
  · have hname := (urlencode_eq_nil [] h.username).not.mpr hu
    by_cases hp : u.password = []
    · have hinfo : u.userInfo = urlencode u.username [] ++ ['@'] := by simp [userInfo, hu, hp]
      rw [hinfo, List.append_assoc, List.append_assoc, List.singleton_append,
        splitAuthority_username (unmarked_urlencode _) (unmarked_urlencode _) hdigits hname]
      simp [hu, hp]
    · have hpassword := (urlencode_eq_nil [] h.password).not.mpr hp
      have hinfo : u.userInfo ++ urlencode u.fullDomain [] ++ portText (portDigits getservbyname u) =
          urlencode u.username [] ++ ':' :: (urlencode u.password [] ++ '@' ::
            (urlencode u.fullDomain [] ++ portText (portDigits getservbyname u))) := by
        simp [userInfo, hu, hp]
      rw [hinfo, splitAuthority_password (unmarked_urlencode _) (unmarked_urlencode _) (unmarked_urlencode _) hdigits
        hname hpassword, hport, Option.bind_some, hdomain]
      by_cases hd : u.fullDomain = [] <;> simp [hd, hu, hp]

theorem notMem_portText {digits : QString} (hc : c ≠ ':') (h : c ∉ digits) : c ∉ portText digits := by
  unfold portText
  split
  · exact List.not_mem_nil
  · exact fun hmem => (List.mem_cons.mp hmem).elim hc h

theorem notMem_authorityText (u : SnapUri) (hc : isPlain [] c = false) (hdigit : c.isDigit = false)
    (hne : c ≠ '%' ∧ c ≠ ':' ∧ c ≠ '@') : c ∉ authorityText getservbyname u := by
  have hencoded : ∀ s, c ∉ urlencode s [] := fun s => notMem_urlencode hc hne.1
  have hdigits : c ∉ portDigits getservbyname u := by
    unfold portDigits
    split
    · exact notMem_number hdigit
    · exact List.not_mem_nil
  have hport := notMem_portText hne.2.1 hdigits
  unfold authorityText userInfo
  rw [writePort_eq]
  split
  · simp [hencoded, hport]
  · split <;> simp [hencoded, hport, hne]

/-- The text of a URI is split into what was written. -/
theorem split_textOf (h : Parsed getservbyname u) {path : QString} {anchor : Option QString}
    (hpath : nul ∉ path ∧ '#' ∉ path ∧ '?' ∉ path) (hanchor : ∀ a ∈ anchor, nul ∉ a) :
    split getservbyname (textOf getservbyname u path anchor) =
      if (u.username ≠ [] ∧ u.password = []) ∨ u.fullDomain = [] then none else some (rawOf u path anchor) := by
  have hquery : ∀ c, c ≠ '?' → c ∉ u.queryString → c ∉ queryText (rawOf u path anchor).query := fun c hc hq => by
    unfold queryText rawOf
    by_cases hempty : u.queryString = [] <;> simp [hempty, hq, hc]
  have hnul := hquery nul (by decide) (notMem_queryString h (by decide) (by decide))
  have hsharp := hquery '#' (by decide) (notMem_queryString h (by decide) (by decide))
  have hbefore : '#' ∉ path ++ queryText (rawOf u path anchor).query := fun hmem =>
    (List.mem_append.mp hmem).elim hpath.2.1 hsharp
  have htail : nul ∉ path ++ queryText (rawOf u path anchor).query ++ anchorText anchor := by
    intro hmem
    rcases List.mem_append.mp hmem with hmem | hmem
    · exact (List.mem_append.mp hmem).elim hpath.1 hnul
    · cases anchor with
      | none => cases hmem
      | some a => exact (List.mem_cons.mp hmem).elim (fun h => absurd h (by decide)) (hanchor a rfl)
  unfold textOf
  rw [split_text h.protocol.1 h.protocol.2.1 (notMem_authorityText u (by decide) (by decide) (by decide))
    ⟨h.protocol.2.2, notMem_authorityText u (by decide) (by decide) (by decide), htail⟩, splitAuthority_authorityText h]
  split
  · rfl
  · have htake : (path ++ queryText (rawOf u path anchor).query ++ anchorText anchor).takeWhile (· ≠ '#') =
        path ++ queryText (rawOf u path anchor).query := by
      cases anchor with
      | none => rw [anchorText, Option.elim_none, List.append_nil, takeWhile_ne_self hbefore]
      | some a => rw [anchorText, Option.elim_some, takeWhile_ne_append hbefore, takeWhile_ne_cons, List.append_nil]
    have hbehind : behind '#' (path ++ queryText (rawOf u path anchor).query ++ anchorText anchor) = anchor := by
      cases anchor with
      | none => rw [anchorText, Option.elim_none, List.append_nil, behind_eq_none hbefore]
      | some a => rw [anchorText, Option.elim_some, behind_append hbefore]
    have hread : (path ++ queryText (rawOf u path anchor).query).takeWhile (· ≠ '?') = path ∧
        behind '?' (path ++ queryText (rawOf u path anchor).query) = (rawOf u path anchor).query := by
      unfold queryText rawOf
      by_cases hempty : u.queryString = []
      · simp only [hempty, List.isEmpty_nil, if_true, Option.elim_none, List.append_nil]
        exact ⟨takeWhile_ne_self hpath.2.2, behind_eq_none hpath.2.2⟩
      · simp only [List.isEmpty_iff, hempty, if_false, Option.elim_some]
        exact ⟨by rw [takeWhile_ne_append hpath.2.2, takeWhile_ne_cons, List.append_nil], behind_append hpath.2.2 _⟩
    simp only [Option.map_some, htake, hbehind, hread]
    rfl

end SnapUri
end Snapwebsites
