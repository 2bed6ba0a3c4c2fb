import Snapwebsites.SnapVersion.Dependency

/-! # Canonical dependencies

What `get_dependency_string()` prints is read again: the constraints where no number is printed with a sign, the browsers
without their namespaces (`dependency_iff`). -/

namespace Snapwebsites
open QString

namespace SnapVersion

variable {c : Char} {s t : QString} {parts : List QString}

/-! ### Constraints that are printed -/

theorem takeWhile_append_head {p : Char → Bool} (hs : ∀ c ∈ s, p c) (ht : ∀ c, t.head? = some c → p c = false) :
    (s ++ t).takeWhile p = s ∧ (s ++ t).dropWhile p = t := by
  rw [List.takeWhile_append_of_pos hs, List.dropWhile_append_of_pos hs]
  cases t with
  | nil => simp
  | cons c t => simp [ht c rfl]

theorem isVersionCharacter_of_mem (h : IsVersion parts) (hc : c ∈ join '.' parts) : isVersionCharacter c := by
  rcases mem_join hc with rfl | ⟨s, hs, hc⟩
  · rfl
  · rw [isVersionCharacter, (h.digits s hs).2 c hc, Bool.true_or]

theorem head?_join (h : IsVersion parts) (hc : (join '.' parts).head? = some c) : c.isDigit := by
  rcases parts with _ | ⟨s, _ | ⟨t, parts⟩⟩
  · exact absurd rfl h.ne_nil
  · rw [join, List.intercalate_singleton] at hc
    exact (h.digits s List.mem_cons_self).2 c (List.mem_of_head? hc)
  · obtain ⟨hs, hdigits⟩ := h.digits s List.mem_cons_self
    rw [join_cons_cons, List.head?_append_of_ne_nil _ hs] at hc
    exact hdigits c (List.mem_of_head? hc)

theorem fromUtf8_join (h : IsVersion parts) : fromUtf8 (join '.' parts) = join '.' parts := by
  refine fromUtf8_eq_self fun hbom => ?_
  have hdigit := head?_join h hbom
  cases hdigit

namespace IsConstraint
variable {v : Version} {op : Operator}

theorem getOpversionString (h : IsConstraint v op parts) :
    v.getOpversionString = operators op ++ ' ' :: Version.print v.version := by
  rw [h.eq, Version.getOpversionString, if_pos h.operator, Version.getVersionString, if_pos ⟨rfl, stored_ne_nil h.isVersion⟩]

theorem exists_print (h : IsConstraint v op parts) (hn : ∀ n ∈ v.version, 0 ≤ n.toInt) :
    ∃ q, IsConstraint v op q ∧ Version.print v.version = join '.' q := by
  have hversion : v.version = stored parts := by rw [h.eq]
  have hne : v.version ≠ [] := by
    rw [hversion]
    exact stored_ne_nil h.isVersion
  refine ⟨v.version.map fun n => number n.toInt, ⟨isVersion_print hne hn, h.operator, ?_⟩, print_eq _⟩
  have hstored : stored (v.version.map fun n => number n.toInt) = v.version := by
    rw [stored, numbers_print hn, hversion, stored, canonicalize_canonicalize]
  rw [hstored, hversion]
  exact h.eq

theorem operators_spec (hop : op ≠ .unordered) : readOperator (operators op ++ [' ']) = .ok { operator := op } ∧
    (∀ c ∈ operators op ++ [' '], c.isDigit = false ∧ c ≠ nul) ∧
    ∀ c, (operators op).head? = some c → isVersionCharacter c = false ∧ isSpace c = false := by
  cases op <;> first | exact absurd rfl hop | exact ⟨by decide, by decide, by rintro c ⟨⟩; decide⟩

/-- The text of a constraint is read as the constraint. -/
theorem readItem_eq (h : IsConstraint v op parts) (hn : ∀ n ∈ v.version, 0 ≤ n.toInt) :
    readItem v.getOpversionString = .ok [v] := by
  obtain ⟨q, hq, hprint⟩ := h.exists_print hn
  obtain ⟨hread, hchars, hhead⟩ := operators_spec h.operator
  have htext : v.getOpversionString = (operators op ++ [' ']) ++ join '.' q := by
    rw [h.getOpversionString, hprint, List.append_assoc]
    rfl
  have hnul : nul ∉ (operators op ++ [' ']) ++ join '.' q := by
    intro hmem
    rcases List.mem_append.mp hmem with hmem | hmem
    · exact (hchars nul hmem).2 rfl
    · have := isVersionCharacter_of_mem hq.isVersion hmem
      cases this
  have hdigits : ∀ c, (join '.' q).head? = some c → c.isDigit := fun c hc => head?_join hq.isVersion hc
  obtain ⟨htake, hdrop⟩ := takeWhile_append_head (p := (!·.isDigit)) (s := operators op ++ [' ']) (t := join '.' q)
    (fun c hc => by rw [(hchars c hc).1, Bool.not_false]) (fun c hc => by rw [hdigits c hc, Bool.not_true])
  have hstart : ((operators op ++ [' ']) ++ join '.' q).takeWhile isVersionCharacter = [] := by
    cases hop : operators op with
    | nil => rfl
    | cons c s => simp [(hhead c (by rw [hop]; rfl)).1]
  have hblank : (join '.' q).dropWhile isBlank = join '.' q := by
    cases hj : join '.' q with
    | nil => rfl
    | cons c s =>
      have hc : isBlank c = false := by
        rw [Bool.eq_false_iff]
        intro hblank
        have hdigit := hdigits c (by rw [hj]; rfl)
        rw [digit_of_blank hblank] at hdigit
        cases hdigit
      simp [hc]
  have hall : ∀ c ∈ join '.' q, isVersionCharacter c := fun c hc => isVersionCharacter_of_mem hq.isVersion hc
  have hv : (Version.ofParts q).setOperator { operator := op } = v := by
    rw [hq.eq]
    rfl
  rw [readItem, htext, constData_eq_self hnul]
  simp only [hstart, htake, hdrop, hread, hblank, List.takeWhile_eq_self_iff.mpr hall, List.dropWhile_eq_nil_iff.mpr hall, if_true]
  rw [readVersion_join hq.isVersion (fromUtf8_join hq.isVersion)]
  have hrange : ∀ vonly, readRange vonly { operator := op } (Version.ofParts q) [] = .ok [v] := fun vonly => by
    rw [readRange, if_neg (not_not.mpr rfl)]
    simp only [if_neg h.operator, hv]
  exact hrange (operators op ++ [' '] ++ join '.' q)

theorem mem_print {version : List VersionNumber} (hc : c ∈ Version.print version) : c.isDigit ∨ c = '.' ∨ c = '-' := by
  rw [print_eq] at hc
  rcases mem_join hc with rfl | ⟨s, hs, hc⟩
  · exact .inr (.inl rfl)
  · obtain ⟨n, -, rfl⟩ := List.mem_map.mp hs
    have hdigits : ∀ m, c ∈ Nat.toDigits 10 m → c.isDigit := fun m => Nat.isDigit_of_mem_toDigits (by decide) (by decide)
    rw [number] at hc
    split at hc
    · rcases List.mem_cons.mp hc with rfl | hc
      · exact .inr (.inr rfl)
      · exact .inl (hdigits _ hc)
    · exact .inl (hdigits _ hc)

/-- The characters of a constraint. -/
theorem mem_getOpversionString (h : IsConstraint v op parts) (hc : c ∈ v.getOpversionString) :
    c.isDigit ∨ c ∈ ['.', '-', ' ', '=', '!', '<', '>'] := by
  rw [h.getOpversionString] at hc
  rcases List.mem_append.mp hc with hc | hc
  · have hop : ∀ c ∈ operators op, c ∈ ['.', '-', ' ', '=', '!', '<', '>'] := by cases op <;> decide
    exact .inr (hop c hc)
  · rcases List.mem_cons.mp hc with rfl | hc
    · exact .inr (by decide)
    · rcases mem_print hc with hc | rfl | rfl
      · exact .inl hc
      · exact .inr (by decide)
      · exact .inr (by decide)

/-- The text of a constraint is accepted only where no number has a sign. -/
theorem nonneg_of_readItem {versions : List Version} (h : IsConstraint v op parts) (hread : readItem v.getOpversionString = .ok versions) :
    ∀ n ∈ v.version, 0 ≤ n.toInt := by
  intro n hn
  by_contra hneg
  have hdash : '-' ∈ v.getOpversionString := by
    rw [h.getOpversionString, print_eq]
    refine List.mem_append_right _ (List.mem_cons_of_mem _ (mem_join_of_mem ?_ (List.mem_map.mpr ⟨n, hn, rfl⟩)))
    rw [number, if_pos (by omega)]
    exact List.mem_cons_self
  have hnul : nul ∉ v.getOpversionString := by
    intro hmem
    rcases h.mem_getOpversionString hmem with hc | hc
    · cases hc
    · revert hc
      decide
  have hnot := (readItem_ok hread).2
  rw [constData_eq_self hnul] at hnot
  exact hnot hdash

end IsConstraint

/-! ### Items of lists -/

/-- The text of an item of a list. -/
structure IsItem (s : QString) : Prop where
  ne_nil : s ≠ []
  comma : ',' ∉ s
  head : ∀ c, s.head? = some c → isSpace c = false
  last : ∀ c, s.getLast? = some c → isSpace c = false
  simple : Simple s

theorem isItem_word (hne : s ≠ []) (hcomma : ',' ∉ s) (h : ∀ c ∈ s, isSpace c = false) : IsItem s :=
  ⟨hne, hcomma, fun c hc => h c (List.mem_of_head? hc), fun c hc => h c (List.mem_of_getLast? hc), simple_word h⟩

/-- Items that are put behind each other, with a comma and a blank between them. -/
def joinItems : List QString → QString
  | [] => []
  | s :: list => join ',' (s :: list.map (' ' :: ·))

theorem printList_cons (left right : String) (s : QString) (list : List QString) :
    Dependency.printList left right (s :: list) = left.toList ++ joinItems (s :: list) ++ right.toList := by
  have hfold : ∀ text : QString, list.foldl (fun text t => text ++ ", ".toList ++ t) text =
      list.foldl (fun text t => text ++ ',' :: ' ' :: t) text := by
    intro text
    congr 1
    funext text t
    rw [List.append_assoc]
    rfl
  rw [Dependency.printList, hfold, foldl_append_join ',' (' ' :: ·)]
  rfl

/-- The items of a list that was joined are found again. -/
theorem items_joinItems {list : List QString} (h : ∀ s ∈ list, IsItem s) : items (joinItems list) = list := by
  cases list with
  | nil => rfl
  | cons s list =>
    have hs := h s List.mem_cons_self
    have hlist : ∀ t ∈ list, IsItem t := fun t ht => h t (List.mem_cons_of_mem _ ht)
    have hsplit : splitParts ',' (joinItems (s :: list)) = s :: list.map (' ' :: ·) := by
      refine splitParts_join (fun t ht => ?_) (fun t ht => ?_)
      · rcases List.mem_cons.mp ht with rfl | ht
        · exact hs.ne_nil
        · obtain ⟨u, -, rfl⟩ := List.mem_map.mp ht
          exact List.cons_ne_nil _ _
      · rcases List.mem_cons.mp ht with rfl | ht
        · exact hs.comma
        · obtain ⟨u, hu, rfl⟩ := List.mem_map.mp ht
          simpa using (hlist u hu).comma
    have htrim : ∀ t ∈ list, trimmed (' ' :: t) = t := fun t ht => by
      have hblank : trimmed (' ' :: t) = trimmed t := rfl
      rw [hblank, trimmed_eq_self (hlist t ht).head (hlist t ht).last]
    have hmap : (list.map (' ' :: ·)).map trimmed = list := by
      rw [List.map_map]
      exact (List.map_congr_left htrim).trans (List.map_id list)
    rw [items, hsplit, List.map_cons, hmap, trimmed_eq_self hs.head hs.last]
    exact List.filter_eq_self.mpr fun t ht => decide_eq_true (h t ht).ne_nil

theorem simple_joinItems {list : List QString} (h : ∀ s ∈ list, IsItem s) : Simple (joinItems list) := by
  cases list with
  | nil => exact fun rest => rfl
  | cons s list =>
    have hs := (h s List.mem_cons_self).simple
    have hlist : ∀ t ∈ list, IsItem t := fun t ht => h t (List.mem_cons_of_mem _ ht)
    clear h
    rw [joinItems]
    induction list generalizing s with
    | nil =>
      rw [List.map_nil, join, List.intercalate_singleton]
      exact hs
    | cons t list ih =>
      have ht := hlist t List.mem_cons_self
      have hcomma : Simple [','] := simple_word (by decide)
      rw [List.map_cons, join_cons_cons]
      exact hs.append (hcomma.append (ih _ (ht.simple.blank ht.ne_nil ht.head) fun u hu => hlist u (List.mem_cons_of_mem _ hu)))

theorem isSpace_of_mem {l : List Char} (hl : ∀ c ∈ l, isSpace c = false) (hc : c.isDigit ∨ c ∈ l) : isSpace c = false :=
  hc.elim isSpace_of_isDigit (hl c)

theorem IsConstraint.isItem {v : Version} {op : Operator} (h : IsConstraint v op parts) : IsItem v.getOpversionString := by
  have hprint : ∀ c ∈ Version.print v.version, isSpace c = false := fun c hc => by
    refine isSpace_of_mem (l := ['.', '-']) (by decide) ?_
    simpa using mem_print hc
  have hne : Version.print v.version ≠ [] := by
    rw [h.eq, print_eq]
    obtain ⟨n, hn⟩ := List.exists_mem_of_ne_nil _ (stored_ne_nil h.isVersion)
    have hnumber : number n.toInt ≠ [] := by
      rw [number]
      split
      · exact List.cons_ne_nil _ _
      · exact Nat.toDigits_ne_nil
    obtain ⟨c, hc⟩ := List.exists_mem_of_ne_nil _ hnumber
    exact List.ne_nil_of_mem (mem_join_of_mem hc (List.mem_map.mpr ⟨n, hn, rfl⟩))
  have hop : ∀ c ∈ operators op, isSpace c = false := by cases op <;> decide
  have hopne : operators op ≠ [] := by
    have := h.operator
    cases op <;> first | exact absurd rfl this | exact List.cons_ne_nil _ _
  refine ⟨?_, fun hc => ?_, fun c hc => ?_, fun c hc => ?_, ?_⟩
  · rw [h.getOpversionString]
    exact List.append_ne_nil_of_left_ne_nil hopne _
  · rcases h.mem_getOpversionString hc with hc | hc
    · cases hc
    · revert hc
      decide
  · rw [h.getOpversionString, List.head?_append_of_ne_nil _ hopne] at hc
    exact hop c (List.mem_of_head? hc)
  · rw [h.getOpversionString, List.getLast?_append_of_ne_nil _ (List.cons_ne_nil _ _), List.getLast?_cons_of_ne_nil hne] at hc
    exact hprint c (List.mem_of_getLast? hc)
  · rw [h.getOpversionString]
    exact (simple_word hop).append ((simple_word hprint).blank hne fun c hc => hprint c (List.mem_of_head? hc))

theorem isSpace_of_isNameCharacter (hc : isNameCharacter c) : isSpace c = false := by
  rcases Bool.or_eq_true_iff.mp hc with hc | hc
  · rcases Bool.or_eq_true_iff.mp hc with hc | hc
    · rw [of_decide_eq_true hc]
      decide
    · exact isSpace_of_isDigit hc
  · have hnat : 97 ≤ c.toNat ∧ c.toNat ≤ 122 := by
      have hlower : c.isLower = (decide (c.val ≥ 'a'.val) && decide (c.val ≤ 'z'.val)) := rfl
      simpa [hlower, UInt32.le_iff_toNat_le, ← Char.toNat_val] using hc
    simp [isSpace]
    omega

theorem Name.Valid.isItem {n : Name} (h : n.Valid) : IsItem n.name := by
  obtain ⟨hne, hname⟩ := validateBasicName_ok h.name
  refine isItem_word hne (fun hc => ?_) fun c hc => isSpace_of_isNameCharacter (hname c hc)
  have := hname ',' hc
  cases this

theorem readBrowser_name {n : Name} (h : n.Valid) : Dependency.readBrowser n.name = .ok { name := n.name } := by
  have hvalid : ({ name := n.name } : Name).Valid := ⟨rfl, h.name, .inl rfl⟩
  have hfull : ({ name := n.name } : Name).fullName = n.name := rfl
  have hset := Name.setName_fullName hvalid {}
  have hvalidate := Name.validateName_fullName hvalid
  rw [hfull] at hset hvalidate
  rw [Dependency.readBrowser, hvalidate, hset]

theorem readBrowser_ok {n : Name} (h : Dependency.readBrowser s = .ok n) : n.Valid ∧ s = n.fullName := by
  unfold Dependency.readBrowser at h
  split at h
  · rename_i p hp
    obtain ⟨m, hm, rfl⟩ := Name.exists_fullName hp
    rw [Name.setName_fullName hm] at h
    cases h
    exact ⟨hm, rfl⟩
  · cases h

/-! ### Places -/

namespace Dependency
variable {a r : QString} {pos : Nat}

theorem skipBlanks_append (a r : QString) : skipBlanks (a ++ r) a.length = a.length + (r.takeWhile isBlank).length := by
  rw [skipBlanks, List.drop_left]

theorem getElem?_append (a r : QString) : (a ++ r)[a.length]? = r.head? := by
  rw [List.getElem?_append_right (le_refl _), Nat.sub_self, List.head?_eq_getElem?]

theorem readVersions_none (h : r.head? ≠ some '(') : readVersions (a ++ r) a.length = .ok ([], a.length) := by
  rw [readVersions, getElem?_append, if_neg h]

theorem readVersions_list {list : QString} (h : ')' ∉ list) (a rest : QString) :
    readVersions (a ++ '(' :: (list ++ ')' :: rest)) a.length = (do
      let versions ← (items list).mapM readItem
      return (versions.flatten, (a ++ '(' :: (list ++ [')'])).length + (rest.takeWhile isBlank).length)) := by
  have hdrop : (a ++ '(' :: (list ++ ')' :: rest)).drop (a.length + 1) = list ++ ')' :: rest := by
    rw [List.drop_length_add_append]
    rfl
  have hidx : (list ++ ')' :: rest).idxOf ')' = list.length := by
    rw [List.idxOf_append_of_notMem h, List.idxOf_cons_self, Nat.add_zero]
  have hlt : ¬ list.length = (list ++ ')' :: rest).length := by simp
  have hskip : skipBlanks (a ++ '(' :: (list ++ ')' :: rest)) (a.length + 1 + list.length + 1) =
      (a ++ '(' :: (list ++ [')'])).length + (rest.takeWhile isBlank).length := by
    have hpos : a.length + 1 + list.length + 1 = (a ++ '(' :: (list ++ [')'])).length := by
      simp only [List.length_append, List.length_cons, List.length_nil]
      omega
    have happend : a ++ '(' :: (list ++ ')' :: rest) = (a ++ '(' :: (list ++ [')'])) ++ rest := by simp
    rw [hpos, happend, skipBlanks_append]
  rw [readVersions, getElem?_append, List.head?_cons, if_pos rfl]
  simp only [hdrop, hidx]
  rw [if_neg hlt, List.take_left, hskip]

theorem readVersions_ok {p : List Version × Nat} (h : readVersions (a ++ r) a.length = .ok p) :
    r.head? ≠ some '(' ∧ p = ([], a.length) ∨ ∃ list rest versions, r = '(' :: (list ++ ')' :: rest) ∧ ')' ∉ list ∧
      (items list).mapM readItem = .ok versions ∧
      p = (versions.flatten, (a ++ '(' :: (list ++ [')'])).length + (rest.takeWhile isBlank).length) := by
  by_cases hhead : r.head? = some '('
  · obtain ⟨r, rfl⟩ := List.head?_eq_some_iff.mp hhead
    by_cases hmem : ')' ∈ r
    · obtain ⟨list, rest, rfl, hlist⟩ := List.eq_append_cons_of_mem hmem
      rw [readVersions_list hlist] at h
      obtain ⟨versions, hversions, h⟩ := Fallible.bind_eq_ok.mp h
      cases h
      exact .inr ⟨list, rest, versions, rfl, hlist, hversions, rfl⟩
    · have hdrop : (a ++ '(' :: r).drop (a.length + 1) = r := by
        rw [List.drop_length_add_append]
        rfl
      rw [readVersions, getElem?_append, if_pos hhead] at h
      simp only [hdrop] at h
      rw [if_pos (List.idxOf_eq_length hmem)] at h
      cases h
  · rw [readVersions_none hhead] at h
    cases h
    exact .inl ⟨hhead, rfl⟩

theorem readBrowsers_none (h : r.head? ≠ some '[') : readBrowsers (a ++ r) a.length = .ok ([], a.length) := by
  rw [readBrowsers, getElem?_append, if_neg h]

theorem readBrowsers_list {list : QString} (ha : ']' ∉ a) (h : ']' ∉ list) (rest : QString) :
    readBrowsers (a ++ '[' :: (list ++ ']' :: rest)) a.length = (do
      let browsers ← (items list).mapM readBrowser
      return (browsers, (a ++ '[' :: (list ++ [']'])).length + (rest.takeWhile isBlank).length)) := by
  have hdrop : (a ++ '[' :: (list ++ ']' :: rest)).drop (a.length + 1) = list ++ ']' :: rest := by
    rw [List.drop_length_add_append]
    rfl
  have happend : a ++ '[' :: (list ++ ']' :: rest) = (a ++ '[' :: list) ++ ']' :: rest := by simp
  have hnot : ']' ∉ a ++ '[' :: list := by simp [ha, h]
  have hidx : (a ++ '[' :: (list ++ ']' :: rest)).idxOf ']' = a.length + 1 + list.length := by
    rw [happend, List.idxOf_append_of_notMem hnot, List.idxOf_cons_self, List.length_append, List.length_cons]
    omega
  have hlt : ¬ a.length + 1 + list.length = (a ++ '[' :: (list ++ ']' :: rest)).length := by
    simp only [List.length_append, List.length_cons]
    omega
  have hskip : skipBlanks (a ++ '[' :: (list ++ ']' :: rest)) (a.length + 1 + list.length + 1) =
      (a ++ '[' :: (list ++ [']'])).length + (rest.takeWhile isBlank).length := by
    have hpos : a.length + 1 + list.length + 1 = (a ++ '[' :: (list ++ [']'])).length := by
      simp only [List.length_append, List.length_cons, List.length_nil]
      omega
    have happend : a ++ '[' :: (list ++ ']' :: rest) = (a ++ '[' :: (list ++ [']'])) ++ rest := by simp
    rw [hpos, happend, skipBlanks_append]
  rw [readBrowsers, getElem?_append, List.head?_cons, if_pos rfl]
  simp only [hdrop, hidx]
  rw [if_neg hlt, if_neg (by omega), Nat.add_sub_cancel_left, List.take_left, hskip]

/-- Browsers that are read up to the end of the text. -/
theorem readBrowsers_ok {browsers : List Name} (h : readBrowsers (a ++ r) a.length = .ok (browsers, (a ++ r).length)) :
    r = [] ∧ browsers = [] ∨ ∃ list rest, r = '[' :: (list ++ ']' :: rest) ∧ ']' ∉ list ∧
      (items list).mapM readBrowser = .ok browsers ∧ ∀ c ∈ rest, isBlank c := by
  by_cases hhead : r.head? = some '['
  · obtain ⟨r, rfl⟩ := List.head?_eq_some_iff.mp hhead
    have hall : ∀ {x y : QString}, x.length + (y.takeWhile isBlank).length = (x ++ y).length → ∀ c ∈ y, isBlank c := by
      intro x y hlength
      have htake : y.takeWhile isBlank = y :=
        (List.takeWhile_prefix isBlank).eq_of_length (by rw [List.length_append] at hlength; omega)
      exact List.takeWhile_eq_self_iff.mp htake
    by_cases ha : ']' ∈ a
    · -- the blanks behind the first "]" would have to go up to the end
      obtain ⟨x, y, rfl, hx⟩ := List.eq_append_cons_of_mem ha
      have hidx : ((x ++ ']' :: y) ++ '[' :: r).idxOf ']' = x.length := by
        rw [List.append_assoc, List.idxOf_append_of_notMem hx, List.cons_append, List.idxOf_cons_self, Nat.add_zero]
      have happend : (x ++ ']' :: y) ++ '[' :: r = (x ++ [']']) ++ (y ++ '[' :: r) := by simp
      have hlength : x.length + 1 = (x ++ [']']).length := by simp
      rw [readBrowsers, getElem?_append, if_pos hhead] at h
      simp only [hidx] at h
      rw [if_neg (by simp only [List.length_append, List.length_cons]; omega)] at h
      obtain ⟨found, -, h⟩ := Fallible.bind_eq_ok.mp h
      have hpos := (Prod.mk.inj (Except.ok.inj h)).2
      rw [happend, hlength, skipBlanks_append] at hpos
      have hblank := hall hpos '[' (by simp)
      cases hblank
    · by_cases hmem : ']' ∈ r
      · obtain ⟨list, rest, rfl, hlist⟩ := List.eq_append_cons_of_mem hmem
        rw [readBrowsers_list ha hlist] at h
        obtain ⟨found, hfound, h⟩ := Fallible.bind_eq_ok.mp h
        obtain ⟨rfl, hpos⟩ := Prod.mk.inj (Except.ok.inj h)
        have happend : a ++ '[' :: (list ++ ']' :: rest) = (a ++ '[' :: (list ++ [']'])) ++ rest := by simp
        rw [happend] at hpos
        exact .inr ⟨list, rest, rfl, hlist, hfound, hall hpos⟩
      · have hnot : ']' ∉ a ++ '[' :: r := by simp [ha, hmem]
        rw [readBrowsers, getElem?_append, if_pos hhead] at h
        simp only at h
        rw [if_pos (List.idxOf_eq_length hnot)] at h
        cases h
  · rw [readBrowsers_none hhead] at h
    obtain ⟨rfl, hpos⟩ := Prod.mk.inj (Except.ok.inj h)
    rw [List.length_append] at hpos
    exact .inl ⟨List.length_eq_zero_iff.mp (by omega), rfl⟩

end Dependency

/-! ### Texts that are accepted -/

/-- The text between the parentheses. -/
def versionList (d : QString) : QString := ((d.dropWhile (· ≠ '(')).drop 1).takeWhile (· ≠ ')')

/-- The text from the bracket on that stands behind the versions. -/
def browserList (d : QString) : QString :=
  (if '(' ∈ d then (d.dropWhile (· ≠ '(')).dropWhile (· ≠ ')') else d).dropWhile (· ≠ '[')

theorem mem_items {list : QString} (hcomma : c ≠ ',') (hspace : isSpace c = false) : c ∈ list ↔ ∃ item ∈ items list, c ∈ item := by
  constructor
  · intro hc
    have hjoin : c ∈ join ',' (list.splitOn ',') := by
      rw [join, List.intercalate_splitOn]
      exact hc
    obtain ⟨part, hpart, hc⟩ := (mem_join hjoin).resolve_left hcomma
    have htrim := mem_trimmed hc hspace
    refine ⟨trimmed part, List.mem_filter.mpr ⟨List.mem_map.mpr ⟨part, ?_, rfl⟩, ?_⟩, htrim⟩
    · exact List.mem_filter.mpr ⟨hpart, decide_eq_true (List.ne_nil_of_mem hc)⟩
    · exact decide_eq_true (List.ne_nil_of_mem htrim)
  · rintro ⟨item, hitem, hc⟩
    obtain ⟨part, hpart, rfl⟩ := List.mem_map.mp (List.mem_filter.mp hitem).1
    have hmem : c ∈ part := (List.dropWhile_sublist _).subset ((List.rdropWhile_prefix _ _).subset hc)
    have hjoin : [','].intercalate (list.splitOn ',') = list := List.intercalate_splitOn ','
    rw [← hjoin]
    exact mem_join_of_mem hmem (List.mem_filter.mp hpart).1

theorem mapM_readItem_ok {list : List QString} {versions : List (List Version)} (h : list.mapM readItem = .ok versions) :
    Kept versions.flatten (list.flatMap fun item => numbersOf (constData item)) := by
  induction list generalizing versions with
  | nil =>
    cases h
    exact Kept.nil
  | cons item list ih =>
    rw [List.mapM_cons] at h
    obtain ⟨first, hfirst, h⟩ := Fallible.bind_eq_ok.mp h
    obtain ⟨rest, hrest, h⟩ := Fallible.bind_eq_ok.mp h
    cases h
    exact (readItem_ok hfirst).1.append (ih hrest)

theorem mapM_readBrowser_ok {list : List QString} {browsers : List Name} (h : list.mapM Dependency.readBrowser = .ok browsers) :
    (∀ b ∈ browsers, b.Valid) ∧ list = browsers.map Name.fullName := by
  induction list generalizing browsers with
  | nil =>
    cases h
    exact ⟨by simp, rfl⟩
  | cons item list ih =>
    rw [List.mapM_cons] at h
    obtain ⟨b, hb, h⟩ := Fallible.bind_eq_ok.mp h
    obtain ⟨rest, hrest, h⟩ := Fallible.bind_eq_ok.mp h
    cases h
    obtain ⟨hvalid, rfl⟩ := readBrowser_ok hb
    obtain ⟨hall, rfl⟩ := ih hrest
    exact ⟨List.forall_mem_cons.mpr ⟨hvalid, hall⟩, rfl⟩

/-- A browser has a namespace where its list has a colon. -/
theorem namespaces_iff {list : QString} {browsers : List Name} (h : (items list).mapM Dependency.readBrowser = .ok browsers) :
    (∀ b ∈ browsers, b.namespaceString = []) ↔ ':' ∉ list := by
  obtain ⟨hvalid, hitems⟩ := mapM_readBrowser_ok h
  rw [mem_items (by decide) (by decide), hitems]
  constructor
  · rintro hnil ⟨item, hitem, hcolon⟩
    obtain ⟨b, hb, rfl⟩ := List.mem_map.mp hitem
    exact (Name.colon_mem_fullName (hvalid b hb)).mp hcolon (hnil b hb)
  · intro hnone b hb
    by_contra hne
    exact hnone ⟨b.fullName, List.mem_map.mpr ⟨b, hb, rfl⟩, (Name.colon_mem_fullName (hvalid b hb)).mpr hne⟩

theorem versionList_append {a list rest : QString} (ha : '(' ∉ a) (h : ')' ∉ list) :
    versionList (a ++ '(' :: (list ++ ')' :: rest)) = list := by
  rw [versionList, dropWhile_ne_append ha, dropWhile_ne_cons, List.drop_one, List.tail_cons, takeWhile_ne_append h,
    takeWhile_ne_cons, List.append_nil]

theorem versionList_eq_nil {d : QString} (h : '(' ∉ d) : versionList d = [] := by
  have hdrop := dropWhile_ne_append h []
  rw [List.append_nil] at hdrop
  rw [versionList, hdrop]
  rfl

theorem browserList_append {a list rest : QString} (ha : '(' ∉ a) (h : ')' ∉ list) :
    browserList (a ++ '(' :: (list ++ ')' :: rest)) = rest.dropWhile (· ≠ '[') := by
  have hmem : '(' ∈ a ++ '(' :: (list ++ ')' :: rest) := by simp
  have hcons : '(' :: (list ++ ')' :: rest) = ('(' :: list) ++ ')' :: rest := rfl
  have hnot : ')' ∉ '(' :: list := by simp [h]
  rw [browserList, if_pos hmem, dropWhile_ne_append ha, dropWhile_ne_cons, hcons, dropWhile_ne_append hnot, dropWhile_ne_cons]
  rfl

theorem browserList_eq {d : QString} (h : '(' ∉ d) : browserList d = d.dropWhile (· ≠ '[') := by
  rw [browserList, if_neg h]

/-- The colons of a list of browsers with the brackets and what stands around them. -/
theorem colon_mem_list {a list rest : QString} (ha : '[' ∉ a) (hrest : ∀ c ∈ rest, isBlank c) :
    ':' ∈ (a ++ '[' :: (list ++ ']' :: rest)).dropWhile (· ≠ '[') ↔ ':' ∈ list := by
  have hnot : ':' ∉ rest := fun h => by
    have := hrest ':' h
    cases this
  rw [dropWhile_ne_append ha, dropWhile_ne_cons]
  simp [hnot]

/-- An object that `set_dependency()` made of a text. -/
structure Accepted (d : QString) (e : Dependency) : Prop where
  error : e.error = []
  name : e.name.Valid
  versions : Kept e.versions ((items (versionList d)).flatMap fun item => numbersOf (constData item))
  browsers : ∀ b ∈ e.browsers, b.Valid
  namespaces : (∀ b ∈ e.browsers, b.namespaceString = []) ↔ ':' ∉ browserList d

theorem accepted_of_setDependency {dependencyString : QString} {e : Dependency}
    (h : ({} : Dependency).setDependency dependencyString = .ok e) : Accepted (simplified dependencyString) e := by
  unfold Dependency.setDependency at h
  simp only at h
  generalize hd : simplified dependencyString = d at h
  split at h
  · cases h
  · rename_i hguard
    generalize hpos : min (d.idxOf ' ') (min (d.idxOf '(') (d.idxOf '[')) = pos at h
    split at h
    · cases h
    · rename_i p hname
      obtain ⟨n, hn, htake⟩ := Name.exists_fullName hname
      rw [htake, Name.setName_fullName hn] at h
      have hle : pos ≤ d.length := by
        have := List.idxOf_le_length (a := ' ') (l := d)
        omega
      have hlength : n.fullName.length = pos := by rw [← htake, List.length_take, Nat.min_eq_left hle]
      -- the name and the blanks behind it, and what is left
      obtain ⟨a, r, hsplit, ha, hskip⟩ : ∃ a r, d = a ++ r ∧ (∀ c ∈ a, isNameCharacter c ∨ c = ':' ∨ isBlank c) ∧
          Dependency.skipBlanks d pos = a.length := by
        refine ⟨n.fullName ++ (d.drop pos).takeWhile isBlank, (d.drop pos).dropWhile isBlank, ?_, fun c hc => ?_, ?_⟩
        · rw [List.append_assoc, List.takeWhile_append_dropWhile, ← htake, List.take_append_drop]
        · rcases List.mem_append.mp hc with hc | hc
          · rcases Name.mem_fullName hn hc with hc | hc
            · exact .inl hc
            · exact .inr (.inl hc)
          · exact .inr (.inr (List.mem_takeWhile_imp hc))
        · rw [Dependency.skipBlanks, List.length_append, hlength]
      have hparen : '(' ∉ a := fun hc => absurd (ha '(' hc) (by decide)
      have hbracket : '[' ∉ a := fun hc => absurd (ha '[' hc) (by decide)
      obtain ⟨⟨versions, posVersions⟩, hversions, h⟩ := Fallible.bind_eq_ok.mp h
      obtain ⟨⟨browsers, posBrowsers⟩, hbrowsers, h⟩ := Fallible.bind_eq_ok.mp h
      simp only at h hbrowsers
      split at h
      · cases h
      · rename_i hend
        cases h
        rw [not_not.mp hend] at hbrowsers
        rw [hsplit, ← hsplit, hskip, hsplit] at hversions
        rcases Dependency.readVersions_ok hversions with ⟨hhead, hp⟩ | ⟨list, rest, found, rfl, hlist, hfound, hp⟩
        · obtain ⟨rfl, rfl⟩ := Prod.mk.inj hp
          rw [hsplit] at hbrowsers
          rcases Dependency.readBrowsers_ok hbrowsers with ⟨rfl, rfl⟩ | ⟨list, rest, rfl, -, hfound, hrest⟩
          · rw [List.append_nil] at hsplit
            subst hsplit
            refine ⟨rfl, hn, ?_, by simp, ?_⟩
            · rw [versionList_eq_nil hparen]
              exact Kept.nil
            · have hdrop := dropWhile_ne_append hbracket []
              rw [List.append_nil] at hdrop
              rw [browserList_eq hparen, hdrop]
              simp
          · have hnone : '(' ∉ d := by
              intro hmem
              have hlt := List.idxOf_lt_length_of_mem hmem
              have hparenPos : d.idxOf '(' > d.idxOf '[' := by
                rw [hsplit, List.idxOf_append_of_notMem hparen, List.idxOf_append_of_notMem hbracket, List.idxOf_cons_self,
                  List.idxOf_cons_ne _ (by decide)]
                omega
              exact hguard ⟨hlt.ne, hparenPos⟩
            refine ⟨rfl, hn, ?_, (mapM_readBrowser_ok hfound).1, ?_⟩
            · rw [versionList_eq_nil hnone]
              exact Kept.nil
            · rw [browserList_eq hnone, hsplit, colon_mem_list hbracket hrest]
              exact namespaces_iff hfound
        · obtain ⟨rfl, rfl⟩ := Prod.mk.inj hp
          have hrest := List.takeWhile_append_dropWhile (p := isBlank) (l := rest)
          have hall : d = ((a ++ '(' :: (list ++ [')'])) ++ rest.takeWhile isBlank) ++ rest.dropWhile isBlank := by
            rw [List.append_assoc, hrest, hsplit]
            simp
          have hlength : (a ++ '(' :: (list ++ [')'])).length + (rest.takeWhile isBlank).length =
              ((a ++ '(' :: (list ++ [')'])) ++ rest.takeWhile isBlank).length := (List.length_append).symm
          rw [hlength, hall] at hbrowsers
          have hversions : Kept found.flatten ((items (versionList d)).flatMap fun item => numbersOf (constData item)) := by
            rw [hsplit, versionList_append hparen hlist]
            exact mapM_readItem_ok hfound
          have hbracket : '[' ∉ rest.takeWhile isBlank := fun hc => by
            have := List.mem_takeWhile_imp hc
            cases this
          have hbrowserList : browserList d = rest.dropWhile (· ≠ '[') := by
            rw [hsplit, browserList_append hparen hlist]
          rcases Dependency.readBrowsers_ok hbrowsers with ⟨hnil, rfl⟩ | ⟨names, behind, hcons, -, hnames, hbehind⟩
          · refine ⟨rfl, hn, hversions, by simp, ?_⟩
            have hdrop := dropWhile_ne_append hbracket []
            rw [hnil] at hrest
            rw [hrest] at hdrop
            rw [hbrowserList, hdrop]
            simp
          · refine ⟨rfl, hn, hversions, (mapM_readBrowser_ok hnames).1, ?_⟩
            rw [hcons] at hrest
            rw [hbrowserList, ← hrest, colon_mem_list hbracket hbehind]
            exact namespaces_iff hnames

/-! ### Texts that are printed -/

theorem mem_joinItems {list : List QString} (hc : c ∈ joinItems list) : c = ',' ∨ c = ' ' ∨ ∃ item ∈ list, c ∈ item := by
  cases list with
  | nil => cases hc
  | cons s list =>
    rcases mem_join hc with rfl | ⟨t, ht, hmem⟩
    · exact .inl rfl
    · rcases List.mem_cons.mp ht with rfl | ht
      · exact .inr (.inr ⟨t, List.mem_cons_self, hmem⟩)
      · obtain ⟨u, hu, rfl⟩ := List.mem_map.mp ht
        rcases List.mem_cons.mp hmem with rfl | hmem
        · exact .inr (.inl rfl)
        · exact .inr (.inr ⟨u, List.mem_cons_of_mem _ hu, hmem⟩)

theorem notMem_joinItems {list : List QString} (hcomma : c ≠ ',') (hblank : c ≠ ' ') (h : ∀ item ∈ list, c ∉ item) :
    c ∉ joinItems list := fun hc =>
  ((mem_joinItems hc).resolve_left hcomma).resolve_left hblank |>.elim fun item hitem => h item hitem.1 hitem.2

/-- A list in brackets that is not empty. -/
theorem printList_eq (left right : Char) (s : QString) (list : List QString) :
    Dependency.printList (String.ofList [' ', left]) (String.ofList [right]) (s :: list) =
      ' ' :: left :: (joinItems (s :: list) ++ [right]) := by
  rw [printList_cons, String.toList_ofList, String.toList_ofList]
  simp

theorem simple_printList (left right : Char) (hleft : isSpace left = false) (hright : isSpace right = false) {list : List QString}
    (h : ∀ s ∈ list, IsItem s) : Simple (Dependency.printList (String.ofList [' ', left]) (String.ofList [right]) list) := by
  cases list with
  | nil => exact fun rest => rfl
  | cons s list =>
    have hword : ∀ {c : Char}, isSpace c = false → Simple [c] := fun hc =>
      simple_word fun d hd => by rw [List.mem_singleton.mp hd, hc]
    have hall := ((hword hleft).append (simple_joinItems h)).append (hword hright)
    rw [printList_eq]
    exact hall.blank (List.cons_ne_nil _ _) fun c hc => by rw [← Option.some.inj hc, hleft]

theorem notMem_printList (left right : Char) {list : List QString} (hc : c ∉ [' ', ',', left, right]) (h : ∀ s ∈ list, c ∉ s) :
    c ∉ Dependency.printList (String.ofList [' ', left]) (String.ofList [right]) list := by
  cases list with
  | nil => exact List.not_mem_nil
  | cons s list =>
    have hitems : c ∉ joinItems (s :: list) := notMem_joinItems (fun h => hc (by simp [h])) (fun h => hc (by simp [h])) h
    rw [printList_eq]
    simp only [List.mem_cons, List.not_mem_nil, or_false, not_or] at hc
    simp [hitems, hc]

/-- The versions of a text, with the browsers behind them. -/
theorem readVersions_print {texts : List QString} (h : ∀ s ∈ texts, IsItem s) (hparen : ∀ s ∈ texts, ')' ∉ s) (a : QString)
    {b : QString} (hb : (b.dropWhile isBlank).head? ≠ some '(') :
    Dependency.readVersions (a ++ (Dependency.printList " (" ")" texts ++ b))
        (a.length + ((Dependency.printList " (" ")" texts ++ b).takeWhile isBlank).length) = (do
      let versions ← texts.mapM readItem
      return (versions.flatten, (a ++ Dependency.printList " (" ")" texts).length + (b.takeWhile isBlank).length)) := by
  cases texts with
  | nil =>
    have hsplit : a ++ b = (a ++ b.takeWhile isBlank) ++ b.dropWhile isBlank := by
      rw [List.append_assoc, List.takeWhile_append_dropWhile]
    have hlength : a.length + (b.takeWhile isBlank).length = (a ++ b.takeWhile isBlank).length := List.length_append.symm
    show Dependency.readVersions (a ++ b) (a.length + (b.takeWhile isBlank).length) = _
    rw [hlength, hsplit, Dependency.readVersions_none hb, ← hlength]
    show _ = Except.ok ([], (a ++ []).length + _)
    rw [List.append_nil]
  | cons s texts =>
    have hprint : Dependency.printList " (" ")" (s :: texts) = ' ' :: '(' :: (joinItems (s :: texts) ++ [')']) :=
      printList_eq '(' ')' s texts
    have htake : ((' ' :: '(' :: (joinItems (s :: texts) ++ [')']) ++ b).takeWhile isBlank).length = 1 := rfl
    have hlength : a.length + 1 = (a ++ [' ']).length := by simp
    have hsplit : a ++ (' ' :: '(' :: (joinItems (s :: texts) ++ [')']) ++ b) =
        (a ++ [' ']) ++ '(' :: (joinItems (s :: texts) ++ ')' :: b) := by simp
    rw [hprint, htake, hlength, hsplit,
      Dependency.readVersions_list (notMem_joinItems (by decide) (by decide) hparen), items_joinItems h]
    simp

theorem readBrowsers_print {browsers : List Name} (h : ∀ b ∈ browsers, b.Valid) {a : QString} (ha : ']' ∉ a) :
    Dependency.readBrowsers (a ++ Dependency.printList " [" "]" (browsers.map Name.name))
        (a.length + ((Dependency.printList " [" "]" (browsers.map Name.name)).takeWhile isBlank).length) =
      .ok (browsers.map fun b => { name := b.name }, (a ++ Dependency.printList " [" "]" (browsers.map Name.name)).length) := by
  cases browsers with
  | nil =>
    have hnone := Dependency.readBrowsers_none (a := a) (r := []) (by simp)
    rw [List.append_nil] at hnone
    show Dependency.readBrowsers (a ++ []) a.length = .ok ([], (a ++ []).length)
    rw [List.append_nil, hnone]
  | cons b browsers =>
    have hitems : ∀ s ∈ (b :: browsers).map Name.name, IsItem s := fun s hs => by
      obtain ⟨n, hn, rfl⟩ := List.mem_map.mp hs
      exact (h n hn).isItem
    have hbracket : ∀ s ∈ (b :: browsers).map Name.name, ']' ∉ s := fun s hs hmem => by
      obtain ⟨n, hn, rfl⟩ := List.mem_map.mp hs
      have := (validateBasicName_ok (h n hn).name).2 ']' hmem
      cases this
    have hread : ((b :: browsers).map Name.name).mapM Dependency.readBrowser =
        .ok ((b :: browsers).map fun b => ({ name := b.name } : Name)) := by
      generalize b :: browsers = l at h
      induction l with
      | nil => rfl
      | cons n l ih =>
        rw [List.map_cons, List.mapM_cons, readBrowser_name (h n List.mem_cons_self),
          ih fun m hm => h m (List.mem_cons_of_mem _ hm)]
        rfl
    have hprint : Dependency.printList " [" "]" ((b :: browsers).map Name.name) =
        ' ' :: '[' :: (joinItems ((b :: browsers).map Name.name) ++ [']']) := printList_eq '[' ']' _ _
    have htake : ((' ' :: '[' :: (joinItems ((b :: browsers).map Name.name) ++ [']'])).takeWhile isBlank).length = 1 := rfl
    have hlength : a.length + 1 = (a ++ [' ']).length := by simp
    have hsplit : a ++ ' ' :: '[' :: (joinItems ((b :: browsers).map Name.name) ++ [']']) =
        (a ++ [' ']) ++ '[' :: (joinItems ((b :: browsers).map Name.name) ++ [']']) := by simp
    have ha' : ']' ∉ a ++ [' '] := by simp [ha]
    rw [hprint, htake, hlength, hsplit,
      Dependency.readBrowsers_list ha' (notMem_joinItems (by decide) (by decide) hbracket), items_joinItems hitems, hread]
    simp

/-- What `set_dependency()` makes of a text that was printed. -/
theorem setDependency_print {e : Dependency} (hname : e.name.Valid) (hversions : ∀ v ∈ e.versions, ∃ op parts, IsConstraint v op parts)
    (hbrowsers : ∀ b ∈ e.browsers, b.Valid) :
    ({} : Dependency).setDependency e.getDependencyString = (do
      let versions ← (e.versions.map Version.getOpversionString).mapM readItem
      return { name := e.name, versions := versions.flatten, browsers := e.browsers.map fun b => { name := b.name } }) := by
  have htexts : ∀ s ∈ e.versions.map Version.getOpversionString, IsItem s ∧ ∀ c ∈ ['(', ')', '[', ']'], c ∉ s := fun s hs => by
    obtain ⟨v, hv, rfl⟩ := List.mem_map.mp hs
    obtain ⟨op, parts, h⟩ := hversions v hv
    refine ⟨h.isItem, fun c hc hmem => ?_⟩
    have hchars := h.mem_getOpversionString hmem
    clear hmem
    revert c
    decide
  have hnames : ∀ s ∈ e.browsers.map Name.name, IsItem s ∧ ∀ c ∈ ['(', ')', '[', ']'], c ∉ s := fun s hs => by
    obtain ⟨n, hn, rfl⟩ := List.mem_map.mp hs
    refine ⟨(hbrowsers n hn).isItem, fun c hc hmem => ?_⟩
    have hchar := (validateBasicName_ok (hbrowsers n hn).name).2 c hmem
    clear hmem
    revert c
    decide
  have hplain : ∀ c ∈ e.name.fullName, isSpace c = false ∧ c ∉ ['(', ')', '[', ']', ' '] := fun c hc => by
    rcases Name.mem_fullName hname hc with hc | rfl
    · have hnone : ∀ c ∈ ['(', ')', '[', ']', ' '], isNameCharacter c = false := by decide
      exact ⟨isSpace_of_isNameCharacter hc, fun hmem => by simp [hnone c hmem] at hc⟩
    · decide
  generalize hN : e.name.fullName = name at hplain
  generalize hV : Dependency.printList " (" ")" (e.versions.map Version.getOpversionString) = V
  generalize hB : Dependency.printList " [" "]" (e.browsers.map Name.name) = B
  have htext : e.getDependencyString = name ++ (V ++ B) := by
    rw [← hN, ← hV, ← hB, ← List.append_assoc]
    rfl
  have hsimple : simplified (name ++ (V ++ B)) = name ++ (V ++ B) := by
    refine ((simple_word fun c hc => (hplain c hc).1).append (.append ?_ ?_)).simplified fun c hc => ?_
    · rw [← hV]
      exact simple_printList '(' ')' (by decide) (by decide) fun s hs => (htexts s hs).1
    · rw [← hB]
      exact simple_printList '[' ']' (by decide) (by decide) fun s hs => (hnames s hs).1
    · have hne : name ≠ [] := hN ▸ Name.fullName_ne_nil hname
      rw [List.head?_append_of_ne_nil _ hne] at hc
      exact (hplain c (List.mem_of_head? hc)).1
  have hVB : (V ++ B).idxOf ' ' = 0 := by
    rw [← hV, ← hB]
    cases e.versions with
    | nil =>
      cases e.browsers with
      | nil => rfl
      | cons b browsers => rfl
    | cons v versions => rfl
  have hspace : (name ++ (V ++ B)).idxOf ' ' = name.length := by
    rw [List.idxOf_append_of_notMem fun h => (hplain ' ' h).2 (by decide), hVB, Nat.add_zero]
  have hparen : (name ++ (V ++ B)).idxOf '(' = name.length + (V ++ B).idxOf '(' :=
    List.idxOf_append_of_notMem fun h => (hplain '(' h).2 (by decide)
  have hbracket : (name ++ (V ++ B)).idxOf '[' = name.length + (V ++ B).idxOf '[' :=
    List.idxOf_append_of_notMem fun h => (hplain '[' h).2 (by decide)
  have hguard : ¬ ((name ++ (V ++ B)).idxOf '(' ≠ (name ++ (V ++ B)).length ∧
      (name ++ (V ++ B)).idxOf '(' > (name ++ (V ++ B)).idxOf '[') := by
    rintro ⟨hne, hgt⟩
    cases hlist : e.versions with
    | nil =>
      have hVnil : V = [] := by
        rw [← hV, hlist]
        rfl
      have hBparen : '(' ∉ B := hB ▸ notMem_printList '[' ']' (by decide) fun s hs => (hnames s hs).2 '(' (by decide)
      rw [hVnil, List.nil_append] at hne
      refine hne (List.idxOf_eq_length fun h => ?_)
      rcases List.mem_append.mp h with h | h
      · exact (hplain '(' h).2 (by decide)
      · exact hBparen h
    | cons v versions =>
      obtain ⟨rest, hVcons⟩ : ∃ rest, V = ' ' :: '(' :: rest := by
        rw [← hV, hlist]
        exact ⟨_, printList_eq '(' ')' _ _⟩
      rw [hparen, hbracket, hVcons, List.cons_append, List.cons_append, List.idxOf_cons_ne _ (by decide), List.idxOf_cons_self,
        List.idxOf_cons_ne _ (by decide), List.idxOf_cons_ne _ (by decide)] at hgt
      omega
  have hpos : min ((name ++ (V ++ B)).idxOf ' ') (min ((name ++ (V ++ B)).idxOf '(') ((name ++ (V ++ B)).idxOf '[')) =
      name.length := by
    rw [hspace, hparen, hbracket]
    omega
  have hBhead : (B.dropWhile isBlank).head? ≠ some '(' := by
    rw [← hB]
    cases e.browsers with
    | nil => simp [Dependency.printList]
    | cons b browsers =>
      have hprint : Dependency.printList " [" "]" ((b :: browsers).map Name.name) = ' ' :: '[' :: _ := printList_eq '[' ']' _ _
      rw [hprint]
      simp [isBlank]
  have hreadVersions := readVersions_print (fun s hs => (htexts s hs).1) (fun s hs => (htexts s hs).2 ')' (by decide)) name hBhead
  have hnameV : ']' ∉ name ++ V := fun h => by
    rcases List.mem_append.mp h with h | h
    · exact (hplain ']' h).2 (by decide)
    · rw [← hV] at h
      exact notMem_printList '(' ')' (by decide) (fun s hs => (htexts s hs).2 ']' (by decide)) h
  have hreadBrowsers := readBrowsers_print hbrowsers hnameV
  have hvalidate := Name.validateName_fullName hname
  have hset := Name.setName_fullName hname {}
  rw [hN] at hvalidate hset
  rw [hV] at hreadVersions
  rw [hB, List.append_assoc] at hreadBrowsers
  rw [htext, Dependency.setDependency]
  simp only [hsimple]
  rw [if_neg hguard]
  simp only [hpos, List.take_left, hvalidate, hset, Dependency.skipBlanks_append, hreadVersions]
  cases (e.versions.map Version.getOpversionString).mapM readItem with
  | error error => rfl
  | ok versions =>
    show (Dependency.readBrowsers (name ++ (V ++ B)) ((name ++ V).length + (B.takeWhile isBlank).length) >>= _) = _
    rw [hreadBrowsers]
    show (if (name ++ (V ++ B)).length ≠ (name ++ (V ++ B)).length then _ else _) = _
    rw [if_neg (not_not.mpr rfl)]
    rfl

/-! ### The round trip -/

/-- The same name, the same constraints and the same browsers. -/
structure Same (e f : Dependency) : Prop where
  name : f.name.name = e.name.name
  namespaceString : f.name.namespaceString = e.name.namespaceString
  versions : (f.versions.map fun v => (v.operator.operator, v.version)) = e.versions.map fun v => (v.operator.operator, v.version)
  browsers : (f.browsers.map fun b => (b.name, b.namespaceString)) = e.browsers.map fun b => (b.name, b.namespaceString)

theorem nonneg_of_mapM_readItem {versions : List Version} {found : List (List Version)}
    (h : ∀ v ∈ versions, ∃ op parts, IsConstraint v op parts)
    (hread : (versions.map Version.getOpversionString).mapM readItem = .ok found) : ∀ v ∈ versions, ∀ n ∈ v.version, 0 ≤ n.toInt := by
  induction versions generalizing found with
  | nil => simp
  | cons v versions ih =>
    obtain ⟨⟨op, parts, hv⟩, hversions⟩ := List.forall_mem_cons.mp h
    rw [List.map_cons, List.mapM_cons] at hread
    obtain ⟨first, hfirst, hread⟩ := Fallible.bind_eq_ok.mp hread
    obtain ⟨rest, hrest, -⟩ := Fallible.bind_eq_ok.mp hread
    exact List.forall_mem_cons.mpr ⟨hv.nonneg_of_readItem hfirst, ih hversions hrest⟩

theorem mapM_readItem_eq {versions : List Version} (h : ∀ v ∈ versions, ∃ op parts, IsConstraint v op parts)
    (hn : ∀ v ∈ versions, ∀ n ∈ v.version, 0 ≤ n.toInt) :
    (versions.map Version.getOpversionString).mapM readItem = .ok (versions.map ([·])) := by
  induction versions with
  | nil => rfl
  | cons v versions ih =>
    obtain ⟨⟨op, parts, hv⟩, hversions⟩ := List.forall_mem_cons.mp h
    obtain ⟨hnv, hnversions⟩ := List.forall_mem_cons.mp hn
    rw [List.map_cons, List.mapM_cons, hv.readItem_eq hnv, ih hversions hnversions]
    rfl

/-- The text that is printed for an accepted one makes the same object where no number of the text has a sign as an `int` and
    no browser has a namespace, and only there. -/
theorem dependency_iff {dependencyString : QString} {e : Dependency}
    (h : ({} : Dependency).setDependency dependencyString = .ok e) :
    (∃ f, ({} : Dependency).setDependency e.getDependencyString = .ok f ∧ Same e f ∧
      f.getDependencyString = e.getDependencyString) ↔
    (∀ item ∈ items (versionList (simplified dependencyString)), ∀ n ∈ numbersOf (constData item), 0 ≤ int n) ∧
      ':' ∉ browserList (simplified dependencyString) := by
  have haccepted := accepted_of_setDependency h
  have hnonneg := haccepted.versions.nonneg
  simp only [List.forall_mem_flatMap] at hnonneg
  rw [← hnonneg, ← haccepted.namespaces, setDependency_print haccepted.name haccepted.versions.constraints haccepted.browsers]
  constructor
  · rintro ⟨f, hf, hsame, -⟩
    obtain ⟨found, hfound, hf⟩ := Fallible.bind_eq_ok.mp hf
    refine ⟨nonneg_of_mapM_readItem haccepted.versions.constraints hfound, fun b hb => ?_⟩
    have hbrowsers := hsame.browsers
    cases hf
    rw [List.map_map] at hbrowsers
    exact (Prod.mk.inj (List.map_inj_left.mp hbrowsers b hb)).2.symm
  · rintro ⟨hn, hnamespaces⟩
    have hbrowsers : (e.browsers.map fun b => ({ name := b.name } : Name)) = e.browsers := by
      refine (List.map_congr_left fun b hb => ?_).trans (List.map_id e.browsers)
      have hnil := hnamespaces b hb
      have herror := (haccepted.browsers b hb).error
      cases b
      cases hnil
      cases herror
      rfl
    have hflatten : (e.versions.map ([·])).flatten = e.versions := List.flatMap_singleton' e.versions
    refine ⟨e, ?_, ⟨rfl, rfl, rfl, rfl⟩, rfl⟩
    rw [mapM_readItem_eq haccepted.versions.constraints hn]
    show Except.ok _ = _
    rw [hflatten, hbrowsers]
    have herror := haccepted.error
    cases e
    cases herror
    rfl

theorem dependency_iff_lib :
    (∃ f, ({} : Dependency).setDependency (({ name := { name := "lib".toList }, browsers := [{ name := "ie".toList }] } :
        Dependency).getDependencyString) = .ok f ∧
      Same { name := { name := "lib".toList }, browsers := [{ name := "ie".toList }] } f ∧
      f.getDependencyString = ({ name := { name := "lib".toList }, browsers := [{ name := "ie".toList }] } :
        Dependency).getDependencyString) ↔
    (∀ item ∈ items (versionList (simplified "lib [ ie ]".toList)), ∀ n ∈ numbersOf (constData item), 0 ≤ int n) ∧
      ':' ∉ browserList (simplified "lib [ ie ]".toList) :=
  dependency_iff (by decide)

/-- The namespace of a browser is left out. -/
theorem not_dependency : ¬ ∀ dependencyString e, ({} : Dependency).setDependency dependencyString = .ok e →
    ∃ f, ({} : Dependency).setDependency e.getDependencyString = .ok f ∧ Same e f ∧
      f.getDependencyString = e.getDependencyString := by
  intro h
  obtain ⟨f, hf, hsame, -⟩ := h "lib [ns::ie]".toList
    { name := { name := "lib".toList }, browsers := [{ name := "ie".toList, namespaceString := "ns".toList }] } (by decide)
  have hread : ({} : Dependency).setDependency "lib [ie]".toList =
      .ok { name := { name := "lib".toList }, browsers := [{ name := "ie".toList }] } := by decide
  have hprint : ({ name := { name := "lib".toList }, browsers := [{ name := "ie".toList, namespaceString := "ns".toList }] } :
      Dependency).getDependencyString = "lib [ie]".toList := by decide
  rw [hprint, hread] at hf
  cases hf
  have hbrowsers := hsame.browsers
  revert hbrowsers
  decide

end SnapVersion
end Snapwebsites
