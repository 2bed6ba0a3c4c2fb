import Mathlib.Algebra.Order.BigOperators.Group.List
import Mathlib.Data.List.Nodup
import Mathlib.Data.List.Perm.Subperm
import Snapwebsites.HttpCookie.Escape
import Snapwebsites.HttpCookie.Header
import Snapwebsites.SnapChild.ReadEnv
import Snapwebsites.SnapUri.Parts

/-! # Cookies that come back

What the environment reader makes of the cookies that the server has sent. It comes back as it was given exactly when the reader
has nothing to do: no byte of a value is escaped, no value is empty or has an equal sign, and neither names nor values have
something to decode (`comeBack_iff`). -/

namespace Snapwebsites
open QString SnapUri

/-! ### Parts between separators -/

namespace QString

variable {c : Char} {s w : QString}

theorem splitParts_eq_nil (h : splitParts c s = []) : ∀ x ∈ s, x = c := by
  induction hn : s.length using Nat.strong_induction_on generalizing s with
  | _ n ih =>
    by_cases hc : c ∈ s
    · obtain ⟨a, t, rfl, ha⟩ := List.eq_append_cons_of_mem hc
      rw [splitParts_append, List.append_eq_nil_iff] at h
      have hnil : a = [] := by
        by_contra hne
        rw [splitParts_of_notMem ha hne] at h
        cases h.1
      subst hnil
      rw [List.nil_append, List.length_cons] at hn
      intro x hx
      rcases List.mem_cons.mp hx with rfl | hx
      · rfl
      · exact ih t.length (by omega) h.2 rfl x hx
    · by_cases hs : s = []
      · rw [hs]
        exact fun x hx => absurd hx List.not_mem_nil
      · rw [splitParts_of_notMem hc hs] at h
        cases h

theorem splitParts_dropWhile (c : Char) (s : QString) : splitParts c (s.dropWhile (· = c)) = splitParts c s := by
  induction s with
  | nil => rfl
  | cons x s ih =>
    by_cases hx : x = c
    · have hsplit := splitParts_append c [] s
      rw [List.dropWhile_cons_of_pos (by simpa using hx), ih, hx]
      exact hsplit.symm
    · rw [List.dropWhile_cons_of_neg (by simpa using hx)]

/-- A text with a single part is that part with separators around it. -/
theorem splitParts_eq_singleton (h : splitParts c s = [w]) :
    c ∉ w ∧ w ≠ [] ∧ (s.dropWhile (· = c)).rdropWhile (· = c) = w := by
  rw [← splitParts_dropWhile] at h
  have hfirst := List.head?_dropWhile_not (fun x => decide (x = c)) s
  generalize s.dropWhile (· = c) = s at *
  have hstay : ∀ {a : QString}, c ∉ a → a ≠ [] → ∀ t : QString, (a ++ t).rdropWhile (· = c) = a ++ t.rdropWhile (· = c) :=
    fun ha hne t => rdropWhile_append hne (fun x hx => decide_eq_false fun hxc : x = c => ha (hxc ▸ List.mem_of_getLast? hx)) t
  by_cases hc : c ∈ s
  · obtain ⟨a, t, rfl, ha⟩ := List.eq_append_cons_of_mem hc
    have hne : a ≠ [] := by
      rintro rfl
      simp at hfirst
    rw [splitParts_append, splitParts_of_notMem ha hne, List.singleton_append, List.cons.injEq] at h
    obtain ⟨rfl, ht⟩ := h
    have hall := splitParts_eq_nil ht
    have hcut : (c :: t).rdropWhile (· = c) = [] :=
      List.rdropWhile_eq_nil_iff.mpr fun x hx => by
        rcases List.mem_cons.mp hx with rfl | hx
        · exact decide_eq_true rfl
        · exact decide_eq_true (hall x hx)
    exact ⟨ha, hne, by rw [hstay ha hne, hcut, List.append_nil]⟩
  · by_cases hs : s = []
    · rw [hs] at h
      cases h
    · rw [splitParts_of_notMem hc hs, List.cons.injEq] at h
      obtain ⟨rfl, -⟩ := h
      have hself := hstay hc hs []
      rw [List.rdropWhile_nil, List.append_nil] at hself
      exact ⟨hc, hs, hself⟩

end QString

namespace HttpCookie

/-! ### A value that is read back -/

/-- A direct value is written byte by byte. -/
theorem encodedValue_direct {v : Bytes} (hv : ∀ b ∈ v, isDirect b = true) : encodedValue v = v.map fun b => Char.ofNat b.toNat := by
  rw [encodedValue, List.map_eq_flatMap]
  exact List.flatMap_congr fun b hb => if_pos (hv b hb)

theorem utf8_encodedValue_direct {v : Bytes} (hv : ∀ b ∈ v, isDirect b = true) : (encodedValue v).utf8 = v := by
  induction v with
  | nil => rfl
  | cons b v ih =>
    have hb := lt_of_isDirect (hv b List.mem_cons_self)
    rw [encodedValue, List.flatMap_cons, encodedByte, if_pos (hv b List.mem_cons_self), utf8, List.flatMap_append, ← utf8, ← utf8,
      ← encodedValue, ih fun x hx => hv x (List.mem_cons_of_mem _ hx), utf8, List.flatMap_singleton, utf8EncodeChar_byte (by omega)]
    rfl

theorem decodeUtf8_direct {v : Bytes} (hv : ∀ b ∈ v, isDirect b = true) : decodeUtf8 0 v = encodedValue v := by
  rw [← decodeUtf8_utf8 (encodedValue v), utf8_encodedValue_direct hv]

/-- The values that come back. -/
structure ValueReturns (v : Bytes) : Prop where
  nonempty : v ≠ []
  direct : ∀ b ∈ v, isDirect b = true
  equal : 0x3D ∉ v
  unescaped : Unescaped v

theorem equal_mem_encodedValue {v : Bytes} (hv : ∀ b ∈ v, isDirect b = true) : '=' ∈ encodedValue v ↔ 0x3D ∈ v := by
  have hbyte : '=' = Char.ofNat (0x3D : UInt8).toNat := by decide
  rw [encodedValue_direct hv, hbyte]
  refine List.mem_map_of_injective fun x y hxy => ?_
  have hnat := congrArg Char.toNat hxy
  rwa [toNat_ofNat_byte, toNat_ofNat_byte, UInt8.toNat_inj] at hnat

/-- The equal signs that are cut off in front are those of the value. -/
theorem dropWhile_encodedValue {d : Bytes} (hd : ∀ b ∈ d, isDirect b = true) (s : QString) :
    (encodedValue d ++ '%' :: s).dropWhile (· = '=') = encodedValue (d.dropWhile (· = 0x3D)) ++ '%' :: s := by
  induction d with
  | nil => rfl
  | cons b d ih =>
    have hb : encodedValue (b :: d) = Char.ofNat b.toNat :: encodedValue d := by
      rw [encodedValue, List.flatMap_cons, encodedByte, if_pos (hd b List.mem_cons_self), List.singleton_append]
      rfl
    by_cases hequal : b = 0x3D
    · subst hequal
      rw [hb]
      exact ih fun x hx => hd x (List.mem_cons_of_mem _ hx)
    · have hchar : Char.ofNat b.toNat ≠ '=' := fun h => hequal (by
        have hnat := congrArg Char.toNat h
        rw [toNat_ofNat_byte] at hnat
        exact UInt8.toNat_inj.mp hnat)
      rw [List.dropWhile_cons_of_neg (by simpa using hequal), hb, List.cons_append,
        List.dropWhile_cons_of_neg (by simpa using hchar)]

/-- A value with an escaped byte is not read back, whatever is cut off around it. -/
theorem direct_of_read {v : Bytes} {w : QString} (hsplit : splitParts '=' (encodedValue v) = [w])
    (hread : urldecodeRelax w = decodeUtf8 0 v) : ∀ b ∈ v, isDirect b = true := by
  by_contra hnot
  cases hrest : v.dropWhile isDirect with
  | nil =>
    refine hnot fun b hb => ?_
    rw [← List.takeWhile_append_dropWhile (p := isDirect) (l := v), hrest, List.append_nil] at hb
    exact List.mem_takeWhile_imp hb
  | cons x rest =>
    have hx : isDirect x = false := by
      have hhead := List.head?_dropWhile_not isDirect v
      rw [hrest] at hhead
      exact hhead
    have hd : ∀ y ∈ v.takeWhile isDirect, isDirect y = true := fun y hy => List.mem_takeWhile_imp hy
    have hv : v = v.takeWhile isDirect ++ x :: rest := by rw [← hrest, List.takeWhile_append_dropWhile]
    generalize v.takeWhile isDirect = d at hd hv
    subst hv
    obtain ⟨-, -, hw⟩ := splitParts_eq_singleton hsplit
    obtain ⟨digits, hescaped⟩ : ∃ digits, escapedByte x = '%' :: digits := ⟨_, rfl⟩
    have hlast : ∀ y, (encodedValue (d.dropWhile (· = 0x3D)) ++ escapedByte x).getLast? = some y → decide (y = '=') = false := by
      intro y hy
      rw [List.getLast?_append_of_ne_nil _ (by simp [hescaped])] at hy
      have hmem := List.mem_of_getLast? hy
      rw [← UInt8.ofNat_toNat (x := x)] at hmem
      exact decide_eq_false (escapedByte_safe x.toNat x.toNat_lt y hmem).2.2
    have hencoded : encodedValue (d ++ x :: rest) = encodedValue d ++ '%' :: (digits ++ encodedValue rest) := by
      rw [encodedValue, List.flatMap_append, List.flatMap_cons, encodedByte, if_neg (by simp [hx]), hescaped]
      rfl
    have hsplit : encodedValue (d.dropWhile (· = 0x3D)) ++ '%' :: (digits ++ encodedValue rest) =
        (encodedValue (d.dropWhile (· = 0x3D)) ++ escapedByte x) ++ encodedValue rest := by
      rw [hescaped, List.append_assoc, List.cons_append]
    rw [hencoded, dropWhile_encodedValue hd, hsplit, rdropWhile_append (by simp [hescaped]) hlast] at hw
    refine decoded_ne hd hx rest (t := utf8 ((encodedValue rest).rdropWhile (· = '='))) ?_ hread
    have hdrop : ∀ b ∈ d.dropWhile (· = 0x3D), isDirect b = true := fun b hb => hd b ((List.dropWhile_suffix _).subset hb)
    rw [← hw, utf8, List.flatMap_append, List.flatMap_append, ← utf8, ← utf8, ← utf8, utf8_encodedValue_direct hdrop]

/-- What a value has to be like to be read back. -/
theorem ValueReturns.of_read {v : Bytes} {w : QString} (hsplit : splitParts '=' (encodedValue v) = [w])
    (hread : urldecodeRelax w = decodeUtf8 0 v) : ValueReturns v := by
  have hdirect := direct_of_read hsplit hread
  obtain ⟨hequal, hne, hw⟩ := splitParts_eq_singleton hsplit
  have hsublist : w.Sublist (encodedValue v) := by
    rw [← hw]
    exact (List.rdropWhile_prefix _ _).sublist.trans (List.dropWhile_sublist _)
  have hascii : ∀ c ∈ w, c.toNat < 128 := fun c hc => (encodedValue_safe (hsublist.subset hc)).ascii
  rw [decodeUtf8_direct hdirect] at hread
  -- the text that is decoded cannot be lighter than the whole value
  have hle := weight_urldecodeRelax_le hascii
  rw [hread] at hle
  have heq : w = encodedValue v := by
    refine hsublist.eq_of_length_le ?_
    have hpercent := hsublist.count_le '%'
    have hplus := hsublist.count_le '+'
    rw [weight, weight] at hle
    omega
  have hunescaped := unescaped_of_weight_le hascii (by rw [hread, heq])
  rw [heq, utf8_encodedValue_direct hdirect] at hunescaped
  rw [heq] at hequal hne
  refine ⟨fun hv => hne (by rw [hv]; rfl), hdirect, ?_, hunescaped⟩
  rwa [equal_mem_encodedValue hdirect] at hequal

theorem ValueReturns.read {v : Bytes} (h : ValueReturns v) :
    splitParts '=' (encodedValue v) = [encodedValue v] ∧ urldecodeRelax (encodedValue v) = decodeUtf8 0 v := by
  have hne : encodedValue v ≠ [] := by
    rw [encodedValue_direct h.direct]
    simpa using h.nonempty
  have hnul : nul ∉ encodedValue v := fun hmem => (encodedValue_safe hmem).ne_nul rfl
  refine ⟨splitParts_of_notMem ((equal_mem_encodedValue h.direct).not.mpr h.equal) hne, ?_⟩
  rw [decodeUtf8_direct h.direct]
  refine urldecodeRelax_of_unescaped (fun c hc => (encodedValue_safe hc).ascii) hnul ?_
  rw [utf8_encodedValue_direct h.direct]
  exact h.unescaped

/-! ### What the reader finds -/

variable {D : Type} {c : HttpCookie D}

/-- What the browser keeps of a header. -/
def kept (header : QString) : QString := (header.drop "Set-Cookie: ".toList.length).takeWhile (· ≠ ';')

/-- What the browser sends, joined with "; ". -/
def httpCookie (headers : List QString) : QString := "; ".toList.intercalate (headers.map kept)

/-- What the reader stores of a cookie, if anything. -/
def entry (c : HttpCookie D) : Option (QString × QString) :=
  match splitParts '=' (encodedValue c.value) with
  | [w] => some (urldecodeRelax c.name, urldecodeRelax w)
  | _ => none

theorem kept_toHttpHeader (Q : Dates D) (now : Now D) (c : HttpCookie D) : kept (c.toHttpHeader Q now) = c.nameValue := by
  have hend : ((c.attributeList Q now).flatMap ("; ".toList ++ ·)).takeWhile (fun x => decide (x ≠ ';')) = [] := by
    cases c.attributeList Q now with
    | nil => rfl
    | cons s attributes => exact takeWhile_ne_cons _
  rw [kept, toHttpHeader_eq, List.append_assoc, List.drop_left,
    takeWhile_ne_append fun hmem => (nameValue_safe hmem).semicolon rfl, hend, List.append_nil]

theorem intercalate_cons (p : QString) (parts : List QString) :
    "; ".toList.intercalate (p :: parts) = p ++ parts.flatMap ("; ".toList ++ ·) := by
  induction parts generalizing p with
  | nil => rw [List.intercalate_singleton, List.flatMap_nil, List.append_nil]
  | cons s parts ih => rw [List.intercalate_cons_cons, ih, List.flatMap_cons, List.append_assoc, List.append_assoc]

theorem splitParts_httpCookie (Q : Dates D) (now : Now D) (c : HttpCookie D) (cookies : List (HttpCookie D)) :
    splitParts ';' (httpCookie ((c :: cookies).map (toHttpHeader Q now))) =
      c.nameValue :: (cookies.map nameValue).map (' ' :: ·) := by
  have hkept : ((c :: cookies).map (toHttpHeader Q now)).map kept = c.nameValue :: cookies.map nameValue := by
    rw [List.map_map]
    exact List.map_congr_left fun c _ => kept_toHttpHeader Q now c
  have hsemicolon : ∀ c : HttpCookie D, ';' ∉ c.nameValue := fun c hmem => (nameValue_safe hmem).semicolon rfl
  rw [httpCookie, hkept, intercalate_cons, splitParts, splitOn_flatMap (hsemicolon c)]
  · refine List.filter_eq_self.mpr fun s hs => decide_eq_true ?_
    rcases List.mem_cons.mp hs with rfl | hs
    · simp [nameValue]
    · obtain ⟨t, -, rfl⟩ := List.mem_map.mp hs
      exact List.cons_ne_nil _ _
  · intro s hs
    obtain ⟨d, -, rfl⟩ := List.mem_map.mp hs
    exact hsemicolon d

theorem readCookie_nameValue (c : HttpCookie D) (m : SortedMap QString QString) (s : QString) (hs : trimmed s = c.nameValue) :
    SnapChild.ReadEnv.readCookie m s = m.insertAll c.entry.toList := by
  have hsplit : splitParts '=' c.nameValue = c.name :: splitParts '=' (encodedValue c.value) := by
    rw [nameValue, splitParts_append, splitParts_of_notMem (fun hmem => (name_safe hmem).2 rfl) c.name_ne_nil]
    rfl
  rw [SnapChild.ReadEnv.readCookie, hs, hsplit, entry]
  split
  · rename_i heq
    rw [(List.cons.inj heq).2, (List.cons.inj heq).1]
    rfl
  · rename_i hnot
    split
    · rename_i w hw
      exact absurd (by rw [hw]) (hnot c.name w)
    · rfl

theorem trimmed_nameValue (c : HttpCookie D) : trimmed c.nameValue = c.nameValue :=
  trimmed_eq_self (fun _ hx => (nameValue_safe (List.mem_of_mem_head? hx)).space)
    fun _ hx => (nameValue_safe (List.mem_of_getLast? hx)).space

/-- The reader stores what it finds of the cookies one after the other. -/
theorem foldl_readCookie (Q : Dates D) (now : Now D) (cookies : List (HttpCookie D)) (m : SortedMap QString QString) :
    (splitParts ';' (httpCookie (cookies.map (toHttpHeader Q now)))).foldl SnapChild.ReadEnv.readCookie m =
      m.insertAll (cookies.filterMap entry) := by
  have hrest : ∀ (cookies : List (HttpCookie D)) (m : SortedMap QString QString),
      ((cookies.map nameValue).map (' ' :: ·)).foldl SnapChild.ReadEnv.readCookie m = m.insertAll (cookies.filterMap entry) := by
    intro cookies
    induction cookies with
    | nil => exact fun m => rfl
    | cons c cookies ih =>
      intro m
      have hspace : trimmed (' ' :: c.nameValue) = c.nameValue := trimmed_nameValue c
      rw [List.map_cons, List.map_cons, List.foldl_cons, readCookie_nameValue c m _ hspace, ih, List.filterMap_cons]
      cases c.entry <;> rfl
  cases cookies with
  | nil => rfl
  | cons c cookies =>
    rw [splitParts_httpCookie, List.foldl_cons, readCookie_nameValue c m _ (trimmed_nameValue c), hrest, List.filterMap_cons]
    cases c.entry <;> rfl

/-! ### All cookies -/

/-- A reader in the environment, before the cookies. -/
structure InEnvironment (r : SnapChild.ReadEnv) : Prop where
  started : r.started = true
  noPost : r.hasPost = false
  noCookies : r.browserCookies = ∅

/-- The reader stores the value of each cookie, and nothing else. -/
def ComeBack (L : SnapChild.Library) (Q : Dates D) (now : Now D) (r : SnapChild.ReadEnv) (s : Bytes)
    (cookies : List (HttpCookie D)) : Prop :=
  ∃ r', SnapChild.ReadEnv.processLine L
      { r with name := "HTTP_COOKIE".toList, value := httpCookie (cookies.map (toHttpHeader Q now)) } s = .ok (r', s) ∧
    ∀ name value, r'.browserCookies.find? name = some value ↔ ∃ c ∈ cookies, c.name = name ∧ decodeUtf8 0 c.value = value

/-- A cookie with nothing to decode in its name, whose value comes back. -/
structure Returns (c : HttpCookie D) : Prop where
  name : Unescaped c.name.utf8
  value : ValueReturns c.value

theorem Returns.entry_eq (h : c.Returns) : c.entry = some (c.name, decodeUtf8 0 c.value) := by
  obtain ⟨hsplit, hread⟩ := h.value.read
  have hname : urldecodeRelax c.name = c.name :=
    urldecodeRelax_of_unescaped (fun x hx => (name_safe hx).1.ascii) (fun hmem => (name_safe hmem).1.ne_nul rfl) h.name
  rw [entry, hsplit]
  simp only [hname, hread]

theorem entry_eq_some {p : QString × QString} (h : c.entry = some p) :
    urldecodeRelax c.name = p.1 ∧ ∃ w, splitParts '=' (encodedValue c.value) = [w] ∧ urldecodeRelax w = p.2 := by
  unfold entry at h
  split at h
  · rename_i w hw
    cases h
    exact ⟨rfl, w, hw, rfl⟩
  · cases h

/-- Weights that are not larger and have the same sum are the same. -/
theorem eq_of_sum_map_eq {α : Type} {f g : α → Nat} : ∀ {l : List α}, (∀ x ∈ l, f x ≤ g x) → (l.map f).sum = (l.map g).sum →
    ∀ x ∈ l, f x = g x
  | [], _, _ => fun x hx => absurd hx List.not_mem_nil
  | y :: l, hle, hsum => by
    have hy := hle y List.mem_cons_self
    have hl : (l.map f).sum ≤ (l.map g).sum := List.sum_le_sum fun x hx => hle x (List.mem_cons_of_mem _ hx)
    rw [List.map_cons, List.map_cons, List.sum_cons, List.sum_cons] at hsum
    intro x hx
    rcases List.mem_cons.mp hx with rfl | hx
    · omega
    · exact eq_of_sum_map_eq (fun x hx => hle x (List.mem_cons_of_mem _ hx)) (by omega) x hx

/-- Names that are all found again after they are decoded are not changed by it. -/
theorem names_unescaped {cookies : List (HttpCookie D)} (hnames : (cookies.map name).Nodup)
    (hfound : ∀ c ∈ cookies, ∃ d ∈ cookies, urldecodeRelax d.name = c.name) : ∀ c ∈ cookies, Unescaped c.name.utf8 := by
  have hsubset : cookies.map name ⊆ cookies.map fun c => urldecodeRelax c.name := by
    intro n hn
    obtain ⟨c, hc, rfl⟩ := List.mem_map.mp hn
    obtain ⟨d, hd, heq⟩ := hfound c hc
    exact List.mem_map.mpr ⟨d, hd, heq⟩
  have hperm : (cookies.map name).Perm (cookies.map fun c => urldecodeRelax c.name) :=
    (hnames.subperm hsubset).perm_of_length_le (by rw [List.length_map, List.length_map])
  have hsum := (hperm.map weight).sum_nat
  rw [List.map_map, List.map_map] at hsum
  have hascii : ∀ c : HttpCookie D, ∀ x ∈ c.name, x.toNat < 128 := fun c x hx => (name_safe hx).1.ascii
  have hweights := eq_of_sum_map_eq (fun c _ => weight_urldecodeRelax_le (hascii c)) hsum.symm
  exact fun c hc => unescaped_of_weight_le (hascii c) (hweights c hc).ge

theorem processLine_cookies (L : SnapChild.Library) {r : SnapChild.ReadEnv} (hr : InEnvironment r) (value : QString) (s : Bytes) :
    SnapChild.ReadEnv.processLine L { r with name := "HTTP_COOKIE".toList, value } s =
      .ok ({ r with
        name := "HTTP_COOKIE".toList
        value
        browserCookies := (splitParts ';' value).foldl SnapChild.ReadEnv.readCookie ∅ }, s) := by
  simp [SnapChild.ReadEnv.processLine, hr.started, hr.noPost, hr.noCookies]

/-- Cookies come back as they were given exactly when there is nothing to escape, to split or to decode in them. -/
theorem comeBack_iff (L : SnapChild.Library) (Q : Dates D) (now : Now D) {r : SnapChild.ReadEnv} (s : Bytes)
    {cookies : List (HttpCookie D)} (hr : InEnvironment r) (hnames : (cookies.map name).Nodup) :
    ComeBack L Q now r s cookies ↔ ∀ c ∈ cookies, c.Returns := by
  unfold ComeBack
  rw [processLine_cookies L hr, foldl_readCookie]
  constructor
  · rintro ⟨r', hr', hfind⟩
    obtain ⟨rfl, -⟩ := Prod.mk.inj (Except.ok.inj hr')
    have hfound : ∀ c ∈ cookies, ∃ d ∈ cookies, d.entry = some (c.name, decodeUtf8 0 c.value) := fun c hc => by
      rcases SortedMap.mem_of_find?_insertAll ((hfind _ _).mpr ⟨c, hc, rfl, rfl⟩) with hmem | hempty
      · exact List.mem_filterMap.mp hmem
      · cases hempty
    have hunescaped := names_unescaped hnames fun c hc =>
      let ⟨d, hd, hentry⟩ := hfound c hc
      ⟨d, hd, (entry_eq_some hentry).1⟩
    intro c hc
    obtain ⟨d, hd, hentry⟩ := hfound c hc
    obtain ⟨hname, w, hsplit, hread⟩ := entry_eq_some hentry
    rw [urldecodeRelax_of_unescaped (fun x hx => (name_safe hx).1.ascii) (fun hmem => (name_safe hmem).1.ne_nul rfl)
      (hunescaped d hd)] at hname
    obtain rfl : d = c := List.inj_on_of_nodup_map hnames hd hc hname
    exact ⟨hunescaped d hd, .of_read hsplit hread⟩
  · intro h
    refine ⟨_, rfl, fun name value => ?_⟩
    have hentries : cookies.filterMap entry = cookies.map fun c => (c.name, decodeUtf8 0 c.value) := by
      rw [← List.filterMap_eq_map]
      exact List.filterMap_congr fun c hc => (h c hc).entry_eq
    constructor
    · intro hfind
      rcases SortedMap.mem_of_find?_insertAll hfind with hmem | hempty
      · rw [hentries] at hmem
        obtain ⟨c, hc, heq⟩ := List.mem_map.mp hmem
        exact ⟨c, hc, (Prod.mk.inj heq).1, (Prod.mk.inj heq).2⟩
      · cases hempty
    · rintro ⟨c, hc, rfl, rfl⟩
      refine SortedMap.find?_insertAll_of_mem ?_ ?_ _
      · rw [hentries, List.map_map]
        exact hnames
      · rw [hentries]
        exact List.mem_map_of_mem hc

theorem comeBack_iff_snapNet :
    ComeBack .plain .milliseconds ⟨0, 0, none⟩ { started := true } [] [ofSnapNet] ↔ ∀ c ∈ [ofSnapNet], c.Returns :=
  comeBack_iff .plain .milliseconds ⟨0, 0, none⟩ [] ⟨rfl, rfl, rfl⟩ (by decide)

/-- The value "a b" comes back as "a% b". -/
theorem not_comeBack :
    ¬ ComeBack .plain .milliseconds ⟨0, 0, none⟩ { started := true } [] [ofSnapNet.setValue [0x61, 0x20, 0x62]] := by
  rintro ⟨r', hr', hfind⟩
  rw [processLine_cookies _ ⟨rfl, rfl, rfl⟩] at hr'
  obtain ⟨rfl, -⟩ := Prod.mk.inj (Except.ok.inj hr')
  have hspace := (hfind "lang".toList "a b".toList).mpr ⟨_, List.mem_singleton_self _, rfl, by decide⟩
  exact absurd hspace (by decide)

end HttpCookie
end Snapwebsites
