import Snapwebsites.SnapUri.Parts

/-! # URIs that are read back

The text of a URI is read back to the same URI exactly when each of its parts is kept: `setUri_stable_iff`. With a hash
bang that leaves the URIs without a path only, since the "!" becomes a segment of its own (`hashBang_ne`). -/

namespace Snapwebsites
open QString
namespace SnapUri

variable {tld getservbyname : QString → Option Nat} {u : SnapUri} {text : QString}

/-! ### What is parsed -/

/-- The parts of a URI as `Raw.decode` reads them: the segments of the path, the same with what a hash bang adds, and
    the rest. -/
structure Raw.Decodes (tld : QString → Option Nat) (raw : Raw) (written whole : List QString) (u : SnapUri) : Prop where
  protocol : u.protocol = raw.protocol
  port : u.port = raw.port.getD 80
  domain : processDomain tld raw.fullDomainName = .ok (u.subDomains, u.domain, u.topLevelDomain)
  segments : readPath raw.path = .ok written
  queryStrings : readQuery true (raw.query.elim [] queryParameters) ∅ = .ok u.queryStrings
  anchor : readAnchor written raw.anchor = .ok (whole, u.anchor)
  path : removeParents [] whole = some u.path
  username : SnapUri.decode raw.username = .ok u.username
  password : SnapUri.decode raw.password = .ok u.password

theorem Raw.decode_eq_ok {raw : Raw} : raw.decode tld = .ok u ↔ ∃ segments path, raw.Decodes tld segments path u := by
  constructor
  · intro h
    unfold Raw.decode at h
    cases hdomain : processDomain tld raw.fullDomainName with
    | error e => rw [hdomain] at h; cases h
    | ok domain =>
      cases hsegments : readPath raw.path with
      | error e => rw [hdomain, hsegments] at h; cases h
      | ok segments =>
        cases hquery : readQuery true (raw.query.elim [] queryParameters) ∅ with
        | error e => rw [hdomain, hsegments, hquery] at h; cases h
        | ok query =>
          cases hanchor : readAnchor segments raw.anchor with
          | error e => rw [hdomain, hsegments, hquery] at h; simp only [bind, Except.bind, hanchor] at h; cases h
          | ok r =>
            rw [hdomain, hsegments, hquery] at h
            simp only [bind, Except.bind, hanchor] at h
            cases hpath : removeParents [] r.1 with
            | none => rw [hpath] at h; cases h
            | some path =>
              cases husername : SnapUri.decode raw.username with
              | error e => rw [hpath, husername] at h; cases h
              | ok username =>
                cases hpassword : SnapUri.decode raw.password with
                | error e => rw [hpath, husername, hpassword] at h; cases h
                | ok password =>
                  rw [hpath, husername, hpassword] at h
                  cases h
                  exact ⟨segments, r.1, rfl, rfl, hdomain, hsegments, hquery, hanchor, hpath, husername, hpassword⟩
  · rintro ⟨segments, path, h⟩
    unfold Raw.decode
    rw [h.domain, h.segments, h.queryStrings]
    simp only [bind, Except.bind, h.anchor, h.path, h.username, h.password, ← h.protocol, ← h.port]
    rfl

theorem mapM_forall {ε α β : Type} {f : α → Except ε β} {p : β → Prop} (hf : ∀ x y, f x = .ok y → p y) :
    ∀ {l : List α} {l' : List β}, l.mapM f = .ok l' → ∀ y ∈ l', p y
  | [], l', h => by
    cases h
    exact fun y hy => by cases hy
  | x :: l, l', h => by
    rw [List.mapM_cons] at h
    cases hx : f x with
    | error e => rw [hx] at h; cases h
    | ok y =>
      cases hl : l.mapM f with
      | error e => rw [hx, hl] at h; cases h
      | ok ys =>
        rw [hx, hl] at h
        cases h
        exact List.forall_mem_cons.mpr ⟨hf x y hx, mapM_forall hf hl⟩

theorem processDomain_inv {name : QString} {subDomains : List QString} {domain top : QString}
    (h : processDomain tld name = .ok (subDomains, domain, top)) :
    subDomains ≠ [] ∧ (∀ s ∈ subDomains, nul ∉ s) ∧ nul ∉ domain ∧ nul ∉ top := by
  unfold processDomain at h
  split at h
  · cases h
  · rename_i offset _
    cases htop : decode (name.drop offset) with
    | error e => rw [htop] at h; cases h
    | ok t =>
      cases hdomain : decode ((name.take offset).rtakeWhile (· ≠ '.')) with
      | error e => rw [htop, hdomain] at h; cases h
      | ok d =>
        rw [htop, hdomain] at h
        simp only [bind, Except.bind] at h
        split at h
        · cases h
          refine ⟨List.cons_ne_nil _ _, fun s hs => ?_, (decode_spec hdomain).2, (decode_spec htop).2⟩
          rw [List.mem_singleton.mp hs]
          exact List.not_mem_nil
        · split at h
          · cases h
          · rename_i subs hsubs
            cases h
            refine ⟨fun hnil => ?_, mapM_forall (fun s t hs => ?_) hsubs, (decode_spec hdomain).2, (decode_spec htop).2⟩
            · have hlength := length_mapM hsubs
              rw [hnil] at hlength
              exact List.splitOn_ne_nil _ _ (List.length_eq_zero_iff.mp hlength.symm)
            · split at hs
              · cases hs
              · exact (decode_spec hs).2

theorem readQuery_inv : ∀ {l : List QString} {first : Bool} {m m' : SortedMap QString QString},
    readQuery first l m = .ok m' → (∀ e ∈ m.entries, nul ∉ e.1 ∧ nul ∉ e.2) → ∀ e ∈ m'.entries, nul ∉ e.1 ∧ nul ∉ e.2
  | [], _, _, _, h, hm => by
    cases h
    exact hm
  | parameter :: l, first, m, m', h, hm => by
    rw [readQuery] at h
    cases hname : decode (if (nameAndValue first parameter).1.isEmpty then ['*'] else (nameAndValue first parameter).1) with
    | error e => simp only [bind, Except.bind, hname] at h; cases h
    | ok name =>
      simp only [bind, Except.bind, hname] at h
      split at h
      · cases h
      · cases hvalue : decode (nameAndValue first parameter).2 with
        | error e => rw [hvalue] at h; cases h
        | ok value =>
          rw [hvalue] at h
          refine readQuery_inv h fun e he => ?_
          rcases SortedMap.mem_insertIn he with rfl | he
          · exact ⟨(decode_spec hname).2, (decode_spec hvalue).2⟩
          · exact hm e he

theorem readAnchor_inv {segments path : List QString} {raw : Option QString} {anchor : QString}
    (h : readAnchor segments raw = .ok (path, anchor)) (hsegments : ∀ s ∈ segments, nul ∉ s) :
    (∀ s ∈ path, nul ∉ s) ∧ nul ∉ anchor ∧ anchor.head? ≠ some '!' := by
  cases raw with
  | none =>
    cases h
    exact ⟨hsegments, List.not_mem_nil, by simp⟩
  | some raw =>
    rw [readAnchor] at h
    cases hp : decode raw with
    | error e => rw [hp] at h; cases h
    | ok p =>
      rw [hp] at h
      simp only [bind, Except.bind] at h
      split at h
      · cases hmore : (splitParts '/' p).mapM decode with
        | error e => rw [hmore] at h; cases h
        | ok more =>
          rw [hmore] at h
          cases h
          refine ⟨fun s hs => ?_, List.not_mem_nil, by simp⟩
          exact (List.mem_append.mp hs).elim (hsegments s) (mapM_forall (fun _ _ h => (decode_spec h).2) hmore s)
      · rename_i hbang
        cases h
        exact ⟨hsegments, (decode_spec hp).2, hbang⟩

theorem readPort_le {s : QString} {n : Nat} (h : readPort s = some n) : n ≤ 65535 := by
  have hfold : ∀ {s : QString} {m : Nat}, m ≤ 65535 → s.foldlM portDigit m = some n → n ≤ 65535 := by
    intro s
    induction s with
    | nil =>
      intro m hm h
      cases h
      exact hm
    | cons d s ih =>
      intro m hm h
      rw [List.foldlM_cons] at h
      obtain ⟨m', hm', h⟩ := Option.bind_eq_some_iff.mp h
      refine ih ?_ h
      unfold portDigit at hm'
      split at hm'
      · simp only at hm'
        split at hm'
        · cases hm'
        · cases hm'
          omega
      · cases hm'
  unfold readPort at h
  split at h
  · cases h
  · exact hfold (Nat.zero_le _) h

theorem splitAuthority_port {protocol authority username password domain : QString} {port : Option Nat}
    (h : splitAuthority getservbyname protocol authority = some (username, password, domain, port)) :
    port = protocolToPort getservbyname protocol ∨ ∃ n ≤ 65535, port = some n := by
  unfold splitAuthority at h
  cases hscan : scanAuthority 0 {} authority with
  | none => rw [hscan] at h; cases h
  | some m =>
    rw [hscan] at h
    simp only [Option.bind_eq_bind, Option.bind_some] at h
    split at h
    · obtain ⟨p, hp, h⟩ := Option.bind_eq_some_iff.mp h
      obtain ⟨n, hn, rfl⟩ := Option.map_eq_some_iff.mp hp
      simp only [Option.ite_none_left_eq_some, Option.some.injEq, Prod.mk.injEq] at h
      obtain ⟨-, -, -, -, -, hport⟩ := h
      exact .inr ⟨n, readPort_le hn, hport.symm⟩
    · simp only [Option.ite_none_left_eq_some, Option.some.injEq, Prod.mk.injEq] at h
      obtain ⟨-, -, -, -, -, hport⟩ := h
      exact .inl hport.symm

theorem split_inv {raw : Raw} (h : split getservbyname text = some raw) :
    (raw.protocol ≠ [] ∧ ':' ∉ raw.protocol ∧ nul ∉ raw.protocol) ∧
      (raw.port = protocolToPort getservbyname raw.protocol ∨ ∃ n ≤ 65535, raw.port = some n) := by
  unfold split at h
  simp only at h
  split at h
  · split at h
    · cases h
    · rename_i hprotocol
      obtain ⟨⟨username, password, domain, port⟩, hsplit, h⟩ := Option.bind_eq_some_iff.mp h
      cases h
      refine ⟨⟨fun hnil => hprotocol (List.isEmpty_iff.mpr hnil), notMem_takeWhile_ne _ _, fun hmem => ?_⟩,
        splitAuthority_port hsplit⟩
      exact nul_notMem_constData text ((List.takeWhile_sublist _).subset hmem)
  · cases h

/-- What holds of every URI that was parsed. -/
theorem parsed_of_decode {raw : Raw} (hsplit : split getservbyname text = some raw) (h : raw.decode tld = .ok u) :
    Parsed getservbyname u := by
  obtain ⟨segments, path, h⟩ := Raw.decode_eq_ok.mp h
  obtain ⟨hprotocol, hport⟩ := split_inv hsplit
  obtain ⟨hne, hsub, hdomain, htop⟩ := processDomain_inv h.domain
  have hsegments : ∀ s ∈ segments, nul ∉ s := mapM_forall (fun _ _ h => (decode_spec h).2) h.segments
  obtain ⟨hpath, hanchor⟩ := readAnchor_inv h.anchor hsegments
  refine ⟨h.protocol ▸ hprotocol, (decode_spec h.username).2, (decode_spec h.password).2, ?_, hdomain, htop, ⟨hne, hsub⟩,
    fun s hs => ?_, readQuery_inv h.queryStrings (fun e he => by cases he), hanchor⟩
  · rw [h.port, h.protocol]
    rcases hport with hport | ⟨n, hn, hport⟩
    · rw [hport]
      cases hp : protocolToPort getservbyname raw.protocol with
      | none => exact .inl (by decide)
      | some n => exact .inr rfl
    · rw [hport]
      exact .inl hn
  · rcases (removeParents_spec _ _ h.path).2 s hs with hs | ⟨hs, hparent⟩
    · cases hs
    · exact ⟨hpath s hs, hparent⟩

/-! ### Reading what was written -/

theorem setUri_eq_ok : setUri tld getservbyname text = .ok u ↔
    ∃ raw, split getservbyname text = some raw ∧ raw.decode tld = .ok u := by
  unfold setUri
  cases split getservbyname text <;> simp

/-- What the parts of a URI that was written are read as. -/
theorem decodes_rawOf_iff {path : QString} {anchor : Option QString} {segments whole : List QString} :
    (rawOf u path anchor).Decodes tld segments whole u ↔
      processDomain tld (urlencode u.fullDomain []) = .ok (u.subDomains, u.domain, u.topLevelDomain) ∧
      readPath path = .ok segments ∧
      readQuery true ((rawOf u path anchor).query.elim [] queryParameters) ∅ = .ok u.queryStrings ∧
      readAnchor segments anchor = .ok (whole, u.anchor) ∧ removeParents [] whole = some u.path ∧
      decode (urlencode u.username []) = .ok u.username ∧
      decode (if u.username.isEmpty then [] else urlencode u.password []) = .ok u.password :=
  ⟨fun h => ⟨h.domain, h.segments, h.queryStrings, h.anchor, h.path, h.username, h.password⟩,
    fun h => ⟨rfl, rfl, h.1, h.2.1, h.2.2.1, h.2.2.2.1, h.2.2.2.2.1, h.2.2.2.2.2.1, h.2.2.2.2.2.2⟩⟩

/-- What a URI has to be to be read back from its text. -/
structure Kept (u : SnapUri) : Prop where
  user : UserKept u.username u.password
  domain : DomainKept u.subDomains u.domain u.topLevelDomain
  path : PathKept u.path
  queryStrings : QueryKept u.queryStrings
  anchor : fromUtf8 u.anchor = u.anchor

/-- `tld()` finds the top level domain of a name that was decoded and encoded again where it was put. -/
def SplitsAlike (tld : QString → Option Nat) : Prop := ∀ name subDomains domain top,
  processDomain tld name = .ok (subDomains, domain, top) →
    tld (urlencode (joined subDomains domain ++ top) []) = some (urlencode (joined subDomains domain) []).length

/-- The characters that a URI is split at do not stand in its path. -/
theorem notMem_pathText {c : Char} (u : SnapUri) (hc : isPlain ['~'] c = false) (hne : c ≠ '%' ∧ c ≠ '/') : c ∉ u.encodedPath := by
  refine notMem_join hne.2 fun s hs => ?_
  obtain ⟨t, -, rfl⟩ := List.mem_map.mp hs
  exact notMem_urlencode hc hne.1

theorem pathText_subset (u : SnapUri) : u.pathText ⊆ u.encodedPath := by
  unfold pathText
  split
  · exact (List.tail_sublist _).subset
  · exact List.Subset.refl _

theorem nul_notMem_anchorText (u : SnapUri) :
    ∀ a ∈ (if u.anchor.isEmpty then none else some (urlencode u.anchor "!/~".toList)), nul ∉ a := by
  intro a ha
  split at ha
  · cases ha
  · cases ha
    exact notMem_urlencode (by decide) (by decide)

theorem setUri_textOf (h : Parsed getservbyname u) {path : QString} {anchor : Option QString}
    (hpath : nul ∉ path ∧ '#' ∉ path ∧ '?' ∉ path) (hanchor : ∀ a ∈ anchor, nul ∉ a) :
    setUri tld getservbyname (textOf getservbyname u path anchor) = .ok u ↔
      ¬ ((u.username ≠ [] ∧ u.password = []) ∨ u.fullDomain = []) ∧
        ∃ segments whole, (rawOf u path anchor).Decodes tld segments whole u := by
  rw [setUri_eq_ok, split_textOf h hpath hanchor]
  split
  · rename_i hrefused
    simp [hrefused]
  · rename_i hrefused
    simp only [Option.some.injEq, exists_eq_left', Raw.decode_eq_ok, hrefused, not_false_eq_true, true_and]

/-- The text without a hash bang. -/
theorem setUri_getUri_iff (h : Parsed getservbyname u)
    (htld : tld (urlencode u.fullDomain []) = some (urlencode (joined u.subDomains u.domain) []).length) :
    (∃ t, u.getUri getservbyname false = some t ∧ setUri tld getservbyname t = .ok u) ↔ Kept u := by
  have hnul : nul ∉ u.pathText ∧ '#' ∉ u.pathText ∧ '?' ∉ u.pathText :=
    ⟨fun hm => notMem_pathText u (by decide) (by decide) (pathText_subset u hm),
      fun hm => notMem_pathText u (by decide) (by decide) (pathText_subset u hm),
      fun hm => notMem_pathText u (by decide) (by decide) (pathText_subset u hm)⟩
  have huser := userKept_iff h.username h.password
  have hdomain := domainKept_iff htld h.subDomains.1 h.subDomains.2 h.domain h.topLevelDomain
  have hparents := pathKept_iff fun s hs => (h.path s hs).2
  have hsegments := readPath_pathText fun s hs => (h.path s hs).1
  simp only [getUri_eq, Option.some.injEq, exists_eq_left', setUri_textOf h hnul (nul_notMem_anchorText u),
    decodes_rawOf_iff, ← queryKept_iff h]
  constructor
  · rintro ⟨hrefused, segments, whole, hd, hs, hq, ha, hp, hn, hw⟩
    rw [hsegments, Except.ok.injEq] at hs
    subst hs
    obtain ⟨rfl, hanchor⟩ := (readAnchor_iff h.anchor.1 h.anchor.2).mp ha
    obtain ⟨hname, hempty⟩ := not_or.mp hrefused
    exact ⟨huser.mpr ⟨hname, hn, hw⟩, hdomain.mpr ⟨hempty, hd⟩, hparents.mpr hp, hq, hanchor⟩
  · intro hkept
    obtain ⟨hname, hn, hw⟩ := huser.mp hkept.user
    obtain ⟨hempty, hd⟩ := hdomain.mp hkept.domain
    exact ⟨not_or.mpr ⟨hname, hempty⟩, _, _, hd, hsegments, hkept.queryStrings,
      (readAnchor_iff h.anchor.1 h.anchor.2).mpr ⟨rfl, hkept.anchor⟩, hparents.mp hkept.path, hn, hw⟩

/-! ### Hash bangs -/

theorem urldecodeBytes_join : ∀ {path : List QString}, (∀ s ∈ path, nul ∉ s) →
    urldecodeBytes (join '/' (path.map (urlencode · ['~']))) = some (join '/' path).utf8
  | [], _ => rfl
  | [s], h => by
    have haccepted : ∀ c ∈ ['~'], isAccepted c = true := fun c hc => by
      rw [List.mem_singleton.mp hc]
      decide
    have hencode := urldecodeBytes_encode haccepted s.utf8 []
    rw [List.append_nil] at hencode
    have hs : nul ∉ s := h s (List.mem_singleton_self s)
    have hnil : urldecodeBytes [] = some [] := rfl
    simp only [List.map_cons, List.map_nil, join, List.intercalate_singleton]
    rw [urlencode, takeWhile_ne_zero (zero_notMem_utf8 hs), hencode, hnil, Option.map_some, List.append_nil]
  | s :: t :: path, h => by
    have haccepted : ∀ c ∈ ['~'], isAccepted c = true := fun c hc => by
      rw [List.mem_singleton.mp hc]
      decide
    obtain ⟨hs, hrest⟩ := List.forall_mem_cons.mp h
    have ih := urldecodeBytes_join hrest
    have hslash : UInt8.ofNat '/'.toNat :: (join '/' (t :: path)).utf8 = utf8 ('/' :: join '/' (t :: path)) := rfl
    have hjoin := join_cons_cons '/' (urlencode s ['~']) (urlencode t ['~']) (path.map (urlencode · ['~']))
    simp only [List.map_cons] at ih ⊢
    rw [hjoin, urlencode, takeWhile_ne_zero (zero_notMem_utf8 hs), urldecodeBytes_encode haccepted,
      urldecodeBytes_cons (by decide), ih, Option.map_some, Option.map_some, hslash, join_cons_cons, utf8, utf8, utf8,
      List.flatMap_append]

/-- What follows the hash of a hash bang is decoded to the path. -/
theorem decode_hashBang {path : List QString} (h : ∀ s ∈ path, nul ∉ s) :
    decode ("!/".toList ++ join '/' (path.map (urlencode · ['~']))) = .ok ('!' :: '/' :: join '/' path) := by
  have hjoin : nul ∉ join '/' path := notMem_join (by decide) h
  have hnul : nul ∉ '!' :: '/' :: join '/' path := fun hmem => by
    rcases List.mem_cons.mp hmem with hm | hmem
    · exact absurd hm (by decide)
    · exact (List.mem_cons.mp hmem).elim (fun hm => absurd hm (by decide)) hjoin
  have hbytes : UInt8.ofNat '!'.toNat :: UInt8.ofNat '/'.toNat :: (join '/' path).utf8 = utf8 ('!' :: '/' :: join '/' path) := rfl
  have htext : "!/".toList ++ join '/' (path.map (urlencode · ['~'])) =
      '!' :: '/' :: join '/' (path.map (urlencode · ['~'])) := rfl
  have hbom : fromUtf8 ('!' :: '/' :: join '/' path) = '!' :: '/' :: join '/' path := fromUtf8_eq_self (by simp [bom])
  unfold decode urldecode
  rw [htext, urldecodeBytes_cons (by decide), urldecodeBytes_cons (by decide), urldecodeBytes_join h, Option.map_some,
    Option.map_some, Option.map_some, hbytes, fromCString_utf8 hnul, hbom]

theorem readAnchor_hashBang {segments path whole : List QString} {anchor : QString} (h : ∀ s ∈ path, nul ∉ s)
    (hread : readAnchor segments (some ("!/".toList ++ join '/' (path.map (urlencode · ['~'])))) = .ok (whole, anchor)) :
    ∃ more, (path.flatMap (splitParts '/')).mapM decode = .ok more ∧ whole = segments ++ ['!'] :: more := by
  have hparts : splitParts '/' ('!' :: '/' :: join '/' path) = ['!'] :: path.flatMap (splitParts '/') := by
    have happend := splitParts_append '/' ['!'] (join '/' path)
    rw [splitParts_join_flatMap] at happend
    exact happend
  have hbang : decode ['!'] = .ok ['!'] := by decide
  rw [readAnchor, decode_hashBang h] at hread
  simp only [bind, Except.bind, List.head?_cons, if_true, hparts, List.mapM_cons, hbang] at hread
  cases hmore : (path.flatMap (splitParts '/')).mapM decode with
  | error e => rw [hmore] at hread; cases hread
  | ok more =>
    rw [hmore] at hread
    cases hread
    exact ⟨more, rfl, rfl⟩

/-- The text with a hash bang. -/
theorem setUri_hashBang_iff (h : Parsed getservbyname u) (hanchor : u.anchor = [])
    (htld : tld (urlencode u.fullDomain []) = some (urlencode (joined u.subDomains u.domain) []).length) :
    (∃ t, u.getUri getservbyname true = some t ∧ setUri tld getservbyname t = .ok u) ↔ Kept u ∧ u.path = [] := by
  have hnil : nul ∉ ([] : QString) ∧ '#' ∉ ([] : QString) ∧ '?' ∉ ([] : QString) := by simp
  by_cases hpath : u.path = []
  · have hencoded : u.encodedPath = [] := by
      rw [encodedPath, hpath]
      rfl
    have hsame : u.getUri getservbyname true = u.getUri getservbyname false := by
      rw [getUri_hashBang hanchor, getUri_eq, pathText, hencoded, hanchor]
      rfl
    rw [hsame, setUri_getUri_iff h htld]
    exact (and_iff_left hpath).symm
  · refine iff_of_false ?_ fun hkept => hpath hkept.2
    rintro ⟨t, ht, hread⟩
    rw [getUri_hashBang hanchor, Option.some.injEq] at ht
    subst ht
    have hnul : ∀ s ∈ u.path, nul ∉ s := fun s hs => (h.path s hs).1
    have hencoded : nul ∉ u.encodedPath := notMem_pathText u (by decide) (by decide)
    obtain ⟨-, segments, whole, hd⟩ := (setUri_textOf h hnil (by
      intro a ha
      split at ha
      · cases ha
      · cases ha
        exact fun hmem => (List.mem_append.mp hmem).elim (by decide) hencoded)).mp hread
    have hsegments : [] = segments := Except.ok.inj hd.segments
    have hremove := hd.path
    have hwhole := hd.anchor
    rw [← hsegments] at hwhole
    by_cases hempty : u.encodedPath = []
    · rw [rawOf, hempty] at hwhole
      have hnone : [] = whole := (Prod.mk.inj (Except.ok.inj hwhole)).1
      rw [← hnone, removeParents] at hremove
      exact hpath (Option.some.inj hremove).symm
    · rw [rawOf, if_neg (List.isEmpty_iff.not.mpr hempty)] at hwhole
      obtain ⟨more, hmore, rfl⟩ := readAnchor_hashBang hnul hwhole
      exact hashBang_ne hmore hremove

/-! ### Texts of URIs -/

/-- The parts of a text that are kept when it is parsed and written again. -/
structure Raw.Kept (tld : QString → Option Nat) (raw : Raw) : Prop where
  /-- The name and the password are decoded to texts of the same kind. -/
  user : ∀ username password, SnapUri.decode raw.username = .ok username → SnapUri.decode raw.password = .ok password →
    UserKept username password
  domain : ∀ subDomains domain top, processDomain tld raw.fullDomainName = .ok (subDomains, domain, top) →
    DomainKept subDomains domain top
  queryStrings : ∀ m, readQuery true (raw.query.elim [] queryParameters) ∅ = .ok m → QueryKept m
  /-- Without an anchor there is no path, which a hash bang changes. -/
  path : ∀ segments whole path anchor, readPath raw.path = .ok segments → readAnchor segments raw.anchor = .ok (whole, anchor) →
    removeParents [] whole = some path → PathKept path ∧ fromUtf8 anchor = anchor ∧ (anchor = [] → path = [])

theorem Raw.kept_iff {raw : Raw} (h : raw.decode tld = .ok u) : raw.Kept tld ↔ SnapUri.Kept u ∧ (u.anchor = [] → u.path = []) := by
  obtain ⟨segments, whole, h⟩ := Raw.decode_eq_ok.mp h
  constructor
  · intro hkept
    obtain ⟨hpath, hanchor, hbang⟩ := hkept.path _ _ _ _ h.segments h.anchor h.path
    exact ⟨⟨hkept.user _ _ h.username h.password, hkept.domain _ _ _ h.domain, hpath, hkept.queryStrings _ h.queryStrings,
      hanchor⟩, hbang⟩
  · rintro ⟨hkept, hbang⟩
    refine ⟨fun username password hu hp => ?_, fun subDomains domain top hd => ?_, fun m hm => ?_,
      fun segs wh path anchor hs ha hp => ?_⟩
    · rw [h.username, Except.ok.injEq] at hu
      rw [h.password, Except.ok.injEq] at hp
      exact hu ▸ hp ▸ hkept.user
    · rw [h.domain, Except.ok.injEq, Prod.mk.injEq, Prod.mk.injEq] at hd
      obtain ⟨rfl, rfl, rfl⟩ := hd
      exact hkept.domain
    · rw [h.queryStrings, Except.ok.injEq] at hm
      exact hm ▸ hkept.queryStrings
    · rw [h.segments, Except.ok.injEq] at hs
      subst hs
      rw [h.anchor, Except.ok.injEq, Prod.mk.injEq] at ha
      obtain ⟨rfl, rfl⟩ := ha
      rw [h.path, Option.some.injEq] at hp
      subst hp
      exact ⟨hkept.path, hkept.anchor, hbang⟩

/-- A URI is read back from its text, and when it has no anchor also from its text with a hash bang. -/
def Stable (tld getservbyname : QString → Option Nat) (u : SnapUri) : Prop :=
  (∃ t, u.getUri getservbyname false = some t ∧ setUri tld getservbyname t = .ok u) ∧
    (u.anchor = [] → ∃ t, u.getUri getservbyname true = some t ∧ setUri tld getservbyname t = .ok u)

theorem setUri_stable_iff (htld : SplitsAlike tld) (h : setUri tld getservbyname text = .ok u) :
    Stable tld getservbyname u ↔ ∃ raw, split getservbyname text = some raw ∧ raw.Kept tld := by
  obtain ⟨raw, hsplit, hdecode⟩ := setUri_eq_ok.mp h
  have hparsed := parsed_of_decode hsplit hdecode
  obtain ⟨segments, whole, hd⟩ := Raw.decode_eq_ok.mp hdecode
  have hsame := htld _ _ _ _ hd.domain
  have hraw : (∃ raw, split getservbyname text = some raw ∧ raw.Kept tld) ↔ raw.Kept tld := by
    rw [hsplit]
    simp
  rw [hraw, Raw.kept_iff hdecode, Stable, setUri_getUri_iff hparsed hsame]
  constructor
  · rintro ⟨hkept, hbang⟩
    exact ⟨hkept, fun hanchor => ((setUri_hashBang_iff hparsed hanchor hsame).mp (hbang hanchor)).2⟩
  · rintro ⟨hkept, hbang⟩
    exact ⟨hkept, fun hanchor => (setUri_hashBang_iff hparsed hanchor hsame).mpr ⟨hkept, hbang hanchor⟩⟩

/-- A `tld()` that knows one top level domain. -/
def dotCom (name : QString) : Option Nat := if ".com".toList <:+ name then some (name.length - 4) else none

theorem dotCom_splitsAlike : SplitsAlike dotCom := by
  intro name subDomains domain top h
  obtain ⟨-, hsub, hdomain, -⟩ := processDomain_inv h
  have htop : top = ".com".toList := by
    unfold processDomain dotCom at h
    by_cases hsuffix : ".com".toList <:+ name
    · obtain ⟨front, rfl⟩ := hsuffix
      have hdrop : (front ++ ".com".toList).drop ((front ++ ".com".toList).length - 4) = ".com".toList := by
        rw [List.length_append]
        exact List.drop_left
      have hdecode : decode ".com".toList = .ok ".com".toList := by decide
      simp only [List.suffix_append, if_true, hdrop, hdecode, bind, Except.bind] at h
      split at h
      · cases h
      · split at h
        · cases h
          rfl
        · split at h
          · cases h
          · cases h
            rfl
    · rw [if_neg hsuffix] at h
      cases h
  have hcom : urlencode ".com".toList [] = ".com".toList := by decide
  rw [htop, urlencode_append (nul_notMem_joined hsub hdomain) (by decide), hcom, dotCom, if_pos (List.suffix_append _ _),
    List.length_append]
  rfl

theorem setUri_stable_dotCom :
    setUri dotCom (fun _ => none) "http://www.example.com/?q=a%20b".toList = .ok
      { domain := "example".toList, topLevelDomain := ".com".toList, subDomains := ["www".toList]
        queryStrings := SortedMap.insert ∅ "q".toList "a b".toList } ∧
    (Stable dotCom (fun _ => none)
        { domain := "example".toList, topLevelDomain := ".com".toList, subDomains := ["www".toList]
          queryStrings := SortedMap.insert ∅ "q".toList "a b".toList } ↔
      ∃ raw, split (fun _ => none) "http://www.example.com/?q=a%20b".toList = some raw ∧ raw.Kept dotCom) :=
  ⟨by decide, setUri_stable_iff dotCom_splitsAlike (by decide)⟩

/-- With a hash bang the path gets a segment more, the "!". -/
theorem setUri_not_stable : ¬ ∀ tld getservbyname, SplitsAlike tld → ∀ text u, setUri tld getservbyname text = .ok u →
    Stable tld getservbyname u := by
  intro hall
  have hstable := hall dotCom (fun _ => none) dotCom_splitsAlike "http://example.com/a".toList
    { domain := "example".toList, topLevelDomain := ".com".toList, subDomains := [[]], path := ["a".toList] } (by decide)
  obtain ⟨t, ht, hread⟩ := hstable.2 rfl
  have htext : t = "http://example.com/#!/a".toList := (Option.some.inj (ht.symm.trans (by decide)))
  rw [htext] at hread
  revert hread
  decide

end SnapUri
end Snapwebsites
