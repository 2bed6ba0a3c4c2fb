import Mathlib.Algebra.GroupWithZero.Nat
import Snapwebsites.SnapUri.Split

/-! # When the parts of a URI are kept

Each part of a URI is written and read on its own. What is read is not longer than what was written, and it is as long
only when it is the same: a part comes back when none of its texts has been left out, lost a leading byte order mark or
fallen apart at a separator. -/

namespace Snapwebsites
open QString

namespace SnapUri

variable {tld getservbyname : QString → Option Nat} {s t accepted : QString}

theorem decode_urlencode (haccepted : ∀ c ∈ accepted, isAccepted c = true) (h : nul ∉ s) :
    decode (urlencode s accepted) = .ok (fromUtf8 s) := by
  rw [decode, urldecode_urlencode haccepted h]

theorem decode_urlencode_nil (h : nul ∉ s) : decode (urlencode s []) = .ok (fromUtf8 s) :=
  decode_urlencode (fun c hc => by cases hc) h

theorem decode_spec (h : decode s = .ok t) : t.length ≤ s.length ∧ nul ∉ t := by
  unfold decode at h
  split at h
  · rename_i hdecode
    cases h
    exact urldecode_spec hdecode
  · cases h

theorem fromUtf8_eq_of_length (h : s.length ≤ (fromUtf8 s).length) : fromUtf8 s = s :=
  (fromUtf8_sublist s).eq_of_length_le h

theorem mapM_map_eq_ok {ε α β : Type} {f : α → Except ε β} {g : β → α} :
    ∀ {l : List β}, (l.map g).mapM f = .ok l ↔ ∀ x ∈ l, f (g x) = .ok x
  | [] => by simp [pure, Except.pure]
  | x :: l => by
    rw [List.map_cons, List.mapM_cons]
    cases hx : f (g x) with
    | error e => simp [bind, Except.bind, hx]
    | ok y =>
      have ih := mapM_map_eq_ok (f := f) (g := g) (l := l)
      cases hl : (l.map g).mapM f with
      | error e =>
        rw [hl] at ih
        simp only [bind, Except.bind, reduceCtorEq, List.forall_mem_cons, hx, Except.ok.injEq, false_iff, not_and]
        intro _ hall
        cases ih.mpr hall
      | ok l' =>
        rw [hl] at ih
        simp only [bind, Except.bind, pure, Except.pure, Except.ok.injEq, List.cons.injEq, List.forall_mem_cons, hx, ← ih]

/-- Sums that are not smaller have no summand that is. -/
theorem sum_le_sum {α : Type} {f g : α → Nat} : ∀ {l : List α}, (∀ x ∈ l, g x ≤ f x) →
    (l.map g).sum ≤ (l.map f).sum ∧ ((l.map f).sum ≤ (l.map g).sum → ∀ x ∈ l, f x ≤ g x)
  | [], _ => ⟨le_rfl, fun _ x hx => by cases hx⟩
  | x :: l, hle => by
    obtain ⟨hx, hl⟩ := List.forall_mem_cons.mp hle
    obtain ⟨hsum, hall⟩ := sum_le_sum hl
    simp only [List.map_cons, List.sum_cons]
    exact ⟨by omega, fun h => List.forall_mem_cons.mpr ⟨by omega, hall (by omega)⟩⟩

theorem sum_ones {α : Type} : ∀ l : List α, (l.map fun _ => 1).sum = l.length
  | [] => rfl
  | _ :: l => by rw [List.map_cons, List.sum_cons, sum_ones l, List.length_cons, Nat.add_comm]

/-! ### Names and passwords -/

structure UserKept (username password : QString) : Prop where
  both : username = [] ↔ password = []
  username : fromUtf8 username = username
  password : fromUtf8 password = password

theorem userKept_iff {username password : QString} (husername : nul ∉ username) (hpassword : nul ∉ password) :
    UserKept username password ↔ ¬ (username ≠ [] ∧ password = []) ∧
      decode (urlencode username []) = .ok username ∧
      decode (if username.isEmpty then [] else urlencode password []) = .ok password := by
  rw [decode_urlencode_nil husername]
  by_cases hu : username = []
  · subst hu
    have hempty : decode [] = .ok [] := rfl
    simp only [List.isEmpty_nil, if_true, hempty, Except.ok.injEq, ne_eq, not_true_eq_false, false_and, not_false_eq_true,
      true_and]
    constructor
    · exact fun h => ⟨rfl, (h.both.mp rfl).symm⟩
    · rintro ⟨-, rfl⟩
      exact ⟨Iff.rfl, rfl, rfl⟩
  · simp only [List.isEmpty_iff, hu, if_false, decode_urlencode_nil hpassword, Except.ok.injEq, ne_eq,
      not_false_eq_true, true_and]
    constructor
    · exact fun h => ⟨fun hp => hu (h.both.mpr hp), h.username, h.password⟩
    · rintro ⟨hp, hname, hpass⟩
      exact ⟨iff_of_false hu hp, hname, hpass⟩

/-! ### Paths -/

/-- The characters of the segments of a path, and one more for each. -/
def size (path : List QString) : Nat := (path.map fun s => s.length + 1).sum

@[simp] theorem size_nil : size [] = 0 := rfl

@[simp] theorem size_cons (s : QString) (path : List QString) : size (s :: path) = s.length + 1 + size path := by
  simp [size]

@[simp] theorem size_append (p q : List QString) : size (p ++ q) = size p + size q := by
  simp [size]

@[simp] theorem size_reverse (p : List QString) : size p.reverse = size p := by
  simp [size, List.sum_reverse]

theorem removeParents_parent (front rest : List QString) : removeParents front ("..".toList :: rest) =
    match front with | [] => none | _ :: front => removeParents front rest := by
  cases front <;> simp [removeParents]

theorem removeParents_segment (h : s ≠ "..".toList) (front rest : List QString) :
    removeParents front (s :: rest) = removeParents (s :: front) rest := by
  rw [removeParents.eq_def]
  exact if_neg h

/-- Nothing is added to a path, and ".." is nowhere in what is left. -/
theorem removeParents_spec {path : List QString} : ∀ (rest front : List QString), removeParents front rest = some path →
    size path ≤ size front + size rest ∧ ∀ s ∈ path, s ∈ front ∨ s ∈ rest ∧ s ≠ "..".toList
  | [], front, h => by
    have hpath : front.reverse = path := Option.some.inj (by rw [← h, removeParents])
    subst hpath
    exact ⟨by simp, fun s hs => .inl (List.mem_reverse.mp hs)⟩
  | s :: rest, front, h => by
    by_cases hs : s = "..".toList
    · rw [hs, removeParents_parent] at h
      cases front with
      | nil => cases h
      | cons f front =>
        obtain ⟨hsize, hmem⟩ := removeParents_spec rest _ h
        refine ⟨by simp only [size_cons]; omega, fun t ht => ?_⟩
        exact (hmem t ht).imp (List.mem_cons_of_mem _) fun ⟨ht, hne⟩ => ⟨List.mem_cons_of_mem _ ht, hne⟩
    · rw [removeParents_segment hs] at h
      obtain ⟨hsize, hmem⟩ := removeParents_spec _ _ h
      refine ⟨by simp only [size_cons] at hsize ⊢; omega, fun t ht => ?_⟩
      rcases hmem t ht with ht | ⟨ht, hne⟩
      · rcases List.mem_cons.mp ht with rfl | ht
        · exact .inr ⟨List.mem_cons_self, hs⟩
        · exact .inl ht
      · exact .inr ⟨List.mem_cons_of_mem _ ht, hne⟩

theorem removeParents_eq_self : ∀ {rest front : List QString}, (∀ s ∈ rest, s ≠ "..".toList) →
    removeParents front rest = some (front.reverse ++ rest)
  | [], front, _ => by rw [removeParents, List.append_nil]
  | s :: rest, front, h => by
    obtain ⟨hs, hrest⟩ := List.forall_mem_cons.mp h
    rw [removeParents_segment hs, removeParents_eq_self hrest]
    simp

def PathKept (path : List QString) : Prop := ∀ s ∈ path, s ≠ [] ∧ fromUtf8 s = s

/-- What is left of the segments of a path that is read back. -/
def keptSegments (path : List QString) : List QString := (path.filter (· ≠ [])).map fromUtf8

theorem size_keptSegments : ∀ path : List QString,
    size (keptSegments path) ≤ size path ∧ (size path ≤ size (keptSegments path) → PathKept path)
  | [] => ⟨le_rfl, fun _ s hs => by cases hs⟩
  | s :: path => by
    obtain ⟨hle, hkept⟩ := size_keptSegments path
    by_cases hs : s = []
    · have heq : keptSegments (s :: path) = keptSegments path := by simp [keptSegments, hs]
      rw [heq, size_cons]
      exact ⟨by omega, fun h => by omega⟩
    · have heq : keptSegments (s :: path) = fromUtf8 s :: keptSegments path := by simp [keptSegments, hs]
      have hlength := (fromUtf8_sublist s).length_le
      rw [heq, size_cons, size_cons]
      refine ⟨by omega, fun h => List.forall_mem_cons.mpr ⟨⟨hs, fromUtf8_eq_of_length (by omega)⟩, hkept (by omega)⟩⟩

theorem pathKept_iff {path : List QString} (hparents : ∀ s ∈ path, s ≠ "..".toList) :
    PathKept path ↔ removeParents [] (keptSegments path) = some path := by
  constructor
  · intro h
    have hfilter : path.filter (· ≠ []) = path := List.filter_eq_self.mpr fun s hs => decide_eq_true (h s hs).1
    have hmap : path.map fromUtf8 = path := List.map_congr_left (fun s hs => (h s hs).2) |>.trans (List.map_id _)
    rw [keptSegments, hfilter, hmap, removeParents_eq_self hparents]
    rfl
  · intro h
    have hsize := (removeParents_spec _ _ h).1
    rw [size_nil, Nat.zero_add] at hsize
    exact (size_keptSegments path).2 hsize

theorem splitParts_join_flatMap (c : Char) : ∀ parts : List QString, splitParts c (join c parts) = parts.flatMap (splitParts c)
  | [] => by simp [join, splitParts]
  | [s] => by simp [join]
  | s :: t :: parts => by
    rw [join_cons_cons, splitParts_append, splitParts_join_flatMap c (t :: parts)]
    rfl

/-- What is read of segments that were encoded. -/
theorem mapM_decode_segments : ∀ {path : List QString}, (∀ s ∈ path, nul ∉ s) →
    ((path.map (urlencode · ['~'])).filter (· ≠ [])).mapM decode = .ok (keptSegments path)
  | [], _ => rfl
  | s :: path, h => by
    obtain ⟨hs, hpath⟩ := List.forall_mem_cons.mp h
    have ih := mapM_decode_segments hpath
    by_cases hempty : s = []
    · have hencode : urlencode s ['~'] = [] := (urlencode_eq_nil _ hs).mpr hempty
      have hkept : keptSegments (s :: path) = keptSegments path := by simp [keptSegments, hempty]
      rw [List.map_cons, List.filter_cons, if_neg (by simp [hencode]), ih, hkept]
    · have hencode : urlencode s ['~'] ≠ [] := (urlencode_eq_nil _ hs).not.mpr hempty
      have hdecode : decode (urlencode s ['~']) = .ok (fromUtf8 s) :=
        decode_urlencode (fun c hc => by rw [List.mem_singleton.mp hc]; decide) hs
      have hkept : keptSegments (s :: path) = fromUtf8 s :: keptSegments path := by simp [keptSegments, hempty]
      rw [List.map_cons, List.filter_cons, if_pos (decide_eq_true hencode), List.mapM_cons, hdecode, ih, hkept]
      rfl

theorem slash_notMem_segments {path : List QString} : ∀ t ∈ path.map (urlencode · ['~']), '/' ∉ t := fun t ht => by
  obtain ⟨s, -, rfl⟩ := List.mem_map.mp ht
  exact notMem_urlencode (by decide) (by decide)

/-- The path that was written is read. -/
theorem readPath_pathText {u : SnapUri} (h : ∀ s ∈ u.path, nul ∉ s) : readPath u.pathText = .ok (keptSegments u.path) := by
  have hencoded : splitParts '/' u.encodedPath = (u.path.map (urlencode · ['~'])).filter (· ≠ []) :=
    splitParts_join_filter slash_notMem_segments
  have hskip : splitParts '/' u.pathText = splitParts '/' u.encodedPath := by
    unfold pathText
    split
    · rename_i hhead
      obtain ⟨t, ht⟩ := List.head?_eq_some_iff.mp hhead
      have happend := splitParts_append '/' [] t
      rw [ht]
      exact happend.symm
    · rfl
  rw [readPath, hskip, hencoded, mapM_decode_segments h]

/-! ### Hash bangs -/

theorem length_splitOn (c : Char) : ∀ s : QString, size (s.splitOn c) = s.length + 1
  | [] => rfl
  | x :: s => by
    have ih := length_splitOn c s
    rw [List.splitOn_cons_eq_if_modifyHead]
    split
    · rw [size_cons, ih, List.length_nil, List.length_cons]
      omega
    · cases hs : s.splitOn c with
      | nil => exact absurd hs (List.splitOn_ne_nil c s)
      | cons t parts =>
        rw [hs, size_cons] at ih
        rw [List.modifyHead_cons, size_cons, List.length_cons, List.length_cons]
        omega

theorem size_filter_le (p : QString → Bool) : ∀ parts : List QString, size (parts.filter p) ≤ size parts
  | [] => le_rfl
  | s :: parts => by
    have ih := size_filter_le p parts
    rw [List.filter_cons]
    split
    · simp only [size_cons]
      omega
    · simp only [size_cons]
      omega

theorem size_flatMap_splitParts (c : Char) : ∀ parts : List QString, size (parts.flatMap (splitParts c)) ≤ size parts
  | [] => le_rfl
  | s :: parts => by
    have ih := size_flatMap_splitParts c parts
    have hs := size_filter_le (· ≠ []) (s.splitOn c)
    rw [length_splitOn] at hs
    rw [List.flatMap_cons, size_append, size_cons]
    exact Nat.add_le_add hs ih

theorem size_mapM_decode : ∀ {parts path : List QString}, parts.mapM decode = .ok path → size path ≤ size parts
  | [], path, h => by
    cases h
    exact le_rfl
  | s :: parts, path, h => by
    rw [List.mapM_cons] at h
    cases hs : decode s with
    | error e => rw [hs] at h; cases h
    | ok t =>
      cases hparts : parts.mapM decode with
      | error e => rw [hs, hparts] at h; cases h
      | ok rest =>
        rw [hs, hparts] at h
        cases h
        have ht := (decode_spec hs).1
        have ih := size_mapM_decode hparts
        simp only [size_cons]
        omega

/-- The segment in front of a path stays there, unless the path gets smaller by more than "..". -/
theorem removeParents_front {x : QString} {path : List QString} : ∀ (rest front : List QString),
    removeParents (front ++ [x]) rest = some path →
    (∃ p, path = x :: p ∧ removeParents front rest = some p) ∨ size path + 3 ≤ size front + size rest
  | [], front, h => by
    rw [removeParents, List.reverse_append] at h
    cases h
    exact .inl ⟨front.reverse, rfl, by rw [removeParents]⟩
  | s :: rest, front, h => by
    by_cases hs : s = "..".toList
    · subst hs
      rw [removeParents_parent] at h
      cases front with
      | nil =>
        have hsize := (removeParents_spec rest [] h).1
        simp only [size_nil, size_cons] at hsize ⊢
        exact .inr (by simp; omega)
      | cons f front =>
        rcases removeParents_front rest front h with ⟨p, hp, hremove⟩ | hsize
        · exact .inl ⟨p, hp, by rw [removeParents_parent]; exact hremove⟩
        · simp only [size_cons]
          exact .inr (by omega)
    · rw [removeParents_segment hs] at h
      rcases removeParents_front rest (s :: front) h with ⟨p, hp, hremove⟩ | hsize
      · exact .inl ⟨p, hp, by rw [removeParents_segment hs]; exact hremove⟩
      · simp only [size_cons] at hsize ⊢
        exact .inr (by omega)

/-- The "!" that a hash bang puts in front of a path never gives the same path. -/
theorem hashBang_ne : ∀ {path more : List QString}, (path.flatMap (splitParts '/')).mapM decode = .ok more →
    removeParents [] (['!'] :: more) ≠ some path := by
  intro path
  induction path with
  | nil =>
    intro more hmore h
    have hempty : [] = more := Except.ok.inj hmore
    rw [← hempty, removeParents_segment (by decide), removeParents] at h
    cases h
  | cons s path ih =>
    intro more hmore h
    rw [removeParents_segment (by decide)] at h
    rcases removeParents_front more [] h with ⟨p, hp, hremove⟩ | hsize
    · -- the rest of the path is then one that a hash bang keeps
      obtain ⟨rfl, rfl⟩ := List.cons.inj hp
      have hbang : splitParts '/' ['!'] = [['!']] := by decide
      have hdecode : decode ['!'] = .ok ['!'] := by decide
      rw [List.flatMap_cons, hbang, List.singleton_append, List.mapM_cons, hdecode] at hmore
      cases hrest : (path.flatMap (splitParts '/')).mapM decode with
      | error e => rw [hrest] at hmore; cases hmore
      | ok rest =>
        rw [hrest] at hmore
        cases hmore
        exact ih hrest hremove
    · have hdecode := size_mapM_decode hmore
      have hsplit := size_flatMap_splitParts '/' (s :: path)
      rw [size_nil] at hsize
      omega

/-! ### Anchors -/

theorem readAnchor_iff {anchor : QString} {path path' : List QString} (hnul : nul ∉ anchor) (hbang : anchor.head? ≠ some '!') :
    readAnchor path (if anchor.isEmpty then none else some (urlencode anchor "!/~".toList)) = .ok (path', anchor) ↔
      path' = path ∧ fromUtf8 anchor = anchor := by
  by_cases hempty : anchor = []
  · subst hempty
    simp only [List.isEmpty_nil, if_true, readAnchor, Except.ok.injEq, Prod.mk.injEq, and_true]
    exact ⟨fun h => ⟨h.symm, rfl⟩, fun h => h.1.symm⟩
  · have hdecode : decode (urlencode anchor "!/~".toList) = .ok (fromUtf8 anchor) := by
      refine decode_urlencode (fun c hc => ?_) hnul
      have hc : c = '!' ∨ c = '/' ∨ c = '~' := by simpa using hc
      rcases hc with rfl | rfl | rfl <;> decide
    simp only [List.isEmpty_iff, hempty, if_false, readAnchor, hdecode, bind, Except.bind]
    constructor
    · intro h
      split at h
      · cases hmore : (splitParts '/' (fromUtf8 anchor)).mapM decode with
        | error e => rw [hmore] at h; cases h
        | ok more =>
          rw [hmore] at h
          cases h
          exact absurd rfl hempty
      · simp only [pure, Except.pure, Except.ok.injEq, Prod.mk.injEq] at h
        exact ⟨h.1.symm, h.2⟩
    · rintro ⟨rfl, hfixed⟩
      rw [hfixed, if_neg hbang]
      rfl

/-! ### Queries -/

def QueryKept (queryStrings : SortedMap QString QString) : Prop :=
  ∀ e ∈ queryStrings.entries, e.1 ≠ [] ∧ fromUtf8 e.1 = e.1 ∧ fromUtf8 e.2 = e.2

/-- A parameter as it is read back. -/
def keptOption (e : QString × QString) : QString × QString := (fromUtf8 e.1, fromUtf8 e.2)

variable {e : QString × QString} {l : List (QString × QString)} {m m' : SortedMap QString QString}

theorem nameAndValue_writeOption (first : Bool) (hname : nul ∉ e.1) (hne : e.1 ≠ []) :
    nameAndValue first (writeOption e) = (urlencode e.1 [], if e.2.isEmpty then [] else urlencode e.2 [',']) := by
  have hequal : '=' ∉ urlencode e.1 [] := notMem_urlencode (by decide) (by decide)
  have hempty := (urlencode_eq_nil [] hname).not.mpr hne
  obtain ⟨c, s, hcs⟩ := List.exists_cons_of_ne_nil hempty
  rw [hcs] at hequal
  have htail : '=' ∉ s := fun h => hequal (List.mem_cons_of_mem _ h)
  unfold nameAndValue writeOption
  rw [hcs]
  by_cases hvalue : e.2 = []
  · cases first
    · simp only [hvalue, List.isEmpty_nil, if_true, List.append_nil, Bool.false_eq_true, if_false, List.drop_succ_cons,
        List.drop_zero, takeWhile_ne_self htail, Nat.add_comm 1, List.take_succ_cons, List.take_length]
      rw [List.drop_eq_nil_of_le (by simp)]
    · simp only [hvalue, List.isEmpty_nil, if_true, List.append_nil, List.drop_zero, takeWhile_ne_self hequal, Nat.zero_add,
        List.take_length]
      rw [List.drop_eq_nil_of_le (by simp)]
  · have hwhole := takeWhile_ne_append hequal ('=' :: urlencode e.2 [','])
    have hrest := takeWhile_ne_append htail ('=' :: urlencode e.2 [','])
    rw [takeWhile_ne_cons, List.append_nil] at hwhole hrest
    rw [List.cons_append] at hwhole
    have hdrop := drop_append_cons (c :: s) '=' (urlencode e.2 [','])
    cases first
    · simp only [List.isEmpty_iff, hvalue, if_false, Bool.false_eq_true, List.cons_append, List.drop_succ_cons, List.drop_zero,
        hrest, Nat.add_comm 1, List.take_succ_cons, List.take_left, drop_append_cons]
    · simp only [List.isEmpty_iff, hvalue, if_false, if_true, List.cons_append, List.drop_zero, hwhole, List.length_cons,
        Nat.zero_add, List.take_succ_cons, List.take_left, List.drop_succ_cons, drop_append_cons]

theorem readQuery_writeOption (first : Bool) (hname : nul ∉ e.1) (hvalue : nul ∉ e.2) (hne : e.1 ≠ []) (rest : List QString) :
    readQuery first (writeOption e :: rest) m =
      if m.contains (fromUtf8 e.1) then .error .refused
      else readQuery false rest (m.insert (fromUtf8 e.1) (fromUtf8 e.2)) := by
  have hempty := (urlencode_eq_nil [] hname).not.mpr hne
  have hread : decode (if e.2.isEmpty then [] else urlencode e.2 [',']) = .ok (fromUtf8 e.2) := by
    by_cases hv : e.2 = []
    · rw [hv]
      rfl
    · rw [if_neg (List.isEmpty_iff.not.mpr hv)]
      exact decode_urlencode (fun c hc => by rw [List.mem_singleton.mp hc]; decide) hvalue
  rw [readQuery, nameAndValue_writeOption first hname hne]
  simp only [List.isEmpty_iff, hempty, if_false, decode_urlencode_nil hname, bind, Except.bind] at hread ⊢
  rw [hread]

/-- What is read of parameters that were written. -/
theorem readQuery_options : ∀ {l : List (QString × QString)} {first : Bool} {m : SortedMap QString QString},
    (∀ e ∈ l, e.1 ≠ [] ∧ nul ∉ e.1 ∧ nul ∉ e.2) → readQuery first (l.map writeOption) m = .ok m' →
    m' = m.insertAll (l.map keptOption)
  | [], _, _, _, h => (Except.ok.inj h).symm
  | e :: l, first, m, hl, h => by
    obtain ⟨⟨hne, hname, hvalue⟩, hrest⟩ := List.forall_mem_cons.mp hl
    rw [List.map_cons, readQuery_writeOption first hname hvalue hne] at h
    split at h
    · cases h
    · have ih := readQuery_options hrest h
      exact ih

theorem readQuery_kept : ∀ {l : List (QString × QString)} (first : Bool) (m : SortedMap QString QString),
    (∀ e ∈ l, nul ∉ e.1 ∧ nul ∉ e.2) → (∀ e ∈ l, e.1 ≠ [] ∧ fromUtf8 e.1 = e.1 ∧ fromUtf8 e.2 = e.2) →
    (m.entries ++ l).Pairwise (fun a b => a.1 < b.1) →
    ∃ m', readQuery first (l.map writeOption) m = .ok m' ∧ m'.entries = m.entries ++ l
  | [], _, m, _, _, _ => ⟨m, rfl, (List.append_nil _).symm⟩
  | e :: l, first, m, hl, hkept, hsorted => by
    obtain ⟨⟨hname, hvalue⟩, hrest⟩ := List.forall_mem_cons.mp hl
    obtain ⟨⟨hne, hfixed, hfixed'⟩, hkept⟩ := List.forall_mem_cons.mp hkept
    have hlt : ∀ x ∈ m.entries, x.1 < e.1 := fun x hx => (List.pairwise_append.mp hsorted).2.2 x hx e List.mem_cons_self
    have hcontains : m.contains e.1 = false := by
      rw [SortedMap.contains, Option.isSome_eq_false_iff, Option.isNone_iff_eq_none, Option.eq_none_iff_forall_ne_some]
      exact fun v hv => lt_irrefl _ (hlt (e.1, v) (SortedMap.find?_eq_some.mp hv))
    have hentries : (m.insert e.1 e.2).entries = m.entries ++ [e] := SortedMap.entries_insert_of_lt hlt
    obtain ⟨m', hread, hm'⟩ := readQuery_kept false (m.insert e.1 e.2) hrest hkept
      (by rw [hentries, List.append_assoc]; exact hsorted)
    refine ⟨m', ?_, by rw [hm', hentries, List.append_assoc]; rfl⟩
    rw [List.map_cons, readQuery_writeOption first hname hvalue hne, hfixed, hfixed', hcontains]
    exact hread

/-- The query of a URI as the parameters that are read. -/
theorem queryParameters_queryString {u : SnapUri} (h : Parsed getservbyname u) (path : QString) (anchor : Option QString) :
    (rawOf u path anchor).query.elim [] queryParameters =
      (u.queryStrings.entries.map writeOption).filter (· ≠ []) := by
  have hand : ∀ t ∈ (u.queryStrings.entries.map writeOption).filter (· ≠ []), '&' ∉ t := fun t ht hmem => by
    obtain ⟨e, -, rfl⟩ := List.mem_map.mp (List.mem_filter.mp ht).1
    have hplain := isPlain_or_of_mem_writeOption hmem
    revert hplain
    decide
  have hne : ∀ t ∈ (u.queryStrings.entries.map writeOption).filter (· ≠ []), t ≠ [] := fun t ht =>
    of_decide_eq_true (List.mem_filter.mp ht).2
  have hquery := queryString_eq h
  unfold rawOf
  cases hoptions : (u.queryStrings.entries.map writeOption).filter (· ≠ []) with
  | nil =>
    rw [hoptions] at hquery
    have hempty : u.queryString = [] := hquery
    simp [hempty]
  | cons t rest =>
    rw [hoptions] at hquery hand hne
    obtain ⟨c, t', ht⟩ := List.exists_cons_of_ne_nil (hne t List.mem_cons_self)
    have hstart : ∃ s, u.queryString = c :: s := by
      rw [hquery, ht]
      cases rest with
      | nil => exact ⟨t', by simp [join]⟩
      | cons r rest => exact ⟨_, by rw [join_cons_cons, List.cons_append]⟩
    obtain ⟨s, hs⟩ := hstart
    have hc : c ≠ '&' := fun hc => hand t List.mem_cons_self (by rw [ht, hc]; exact List.mem_cons_self)
    have hdrop : u.queryString.dropWhile (· = '&') = u.queryString := by
      rw [hs, List.dropWhile_cons, if_neg (by simpa using hc)]
    have hempty : List.isEmpty u.queryString = false := by
      rw [hs]
      rfl
    simp only [hempty, Bool.false_eq_true, if_false, Option.elim_some, queryParameters, hdrop]
    rw [hquery, splitParts_join hne hand]

theorem queryKept_iff {u : SnapUri} (h : Parsed getservbyname u) (path : QString) (anchor : Option QString) :
    QueryKept u.queryStrings ↔
      readQuery true ((rawOf u path anchor).query.elim [] queryParameters) ∅ = .ok u.queryStrings := by
  have hnul := h.queryStrings
  have hsorted := u.queryStrings.sorted
  rw [queryParameters_queryString h]
  constructor
  · intro hkept
    have hfilter : (u.queryStrings.entries.map writeOption).filter (· ≠ []) = u.queryStrings.entries.map writeOption :=
      List.filter_eq_self.mpr fun t ht => by
        obtain ⟨e, he, rfl⟩ := List.mem_map.mp ht
        exact decide_eq_true (writeOption_ne_nil (hnul e he).1 (hkept e he).1)
    obtain ⟨m, hread, hm⟩ := readQuery_kept true ∅ hnul hkept hsorted
    rw [hfilter, hread, SortedMap.ext (hm : m.entries = u.queryStrings.entries)]
  · intro hread
    cases hentries : u.queryStrings.entries with
    | nil =>
      intro e he
      rw [hentries] at he
      cases he
    | cons e l =>
      rw [hentries] at hread hnul hsorted
      obtain ⟨he, hl⟩ := List.forall_mem_cons.mp hnul
      have hnames : ∀ p ∈ l, p.1 ≠ [] ∧ nul ∉ p.1 ∧ nul ∉ p.2 := fun p hp => by
        refine ⟨fun hname => ?_, hl p hp⟩
        have hlt := (List.pairwise_cons.mp hsorted).1 p hp
        rw [hname] at hlt
        exact List.not_lt_nil _ hlt
      have hfilter : (l.map writeOption).filter (· ≠ []) = l.map writeOption :=
        List.filter_eq_self.mpr fun t ht => by
          obtain ⟨p, hp, rfl⟩ := List.mem_map.mp ht
          exact decide_eq_true (writeOption_ne_nil (hl p hp).1 (hnames p hp).1)
      by_cases hname : e.1 = []
      · exfalso
        by_cases hvalue : e.2 = []
        · -- a parameter without a name and a value is not written
          have hwrite : writeOption e = [] := by simp [writeOption, hname, hvalue, urlencode, utf8]
          rw [List.map_cons, List.filter_cons, if_neg (by simp [hwrite]), hfilter] at hread
          have hlength := SortedMap.sumOf_insertAll_le (fun _ => 1) (l.map keptOption) ∅
          rw [← readQuery_options hnames hread, SortedMap.sumOf, hentries, SortedMap.sumOf_empty, sum_ones, sum_ones,
            List.length_map, List.length_cons] at hlength
          omega
        · -- a name that is missing is read as "*", which cannot be decoded
          have hwrite : writeOption e = '=' :: urlencode e.2 [','] := by
            simp [writeOption, hname, hvalue, urlencode, utf8]
          have hstar : decode ['*'] = .error .invalidUri := by decide
          rw [List.map_cons, List.filter_cons, if_pos (by simp [hwrite]), hwrite, readQuery] at hread
          simp [nameAndValue, hstar, bind, Except.bind] at hread
      · have hwrite : writeOption e ≠ [] := writeOption_ne_nil he.1 hname
        have hnames' := List.forall_mem_cons.mpr ⟨⟨hname, he⟩, hnames⟩
        rw [List.map_cons, List.filter_cons, if_pos (decide_eq_true hwrite), hfilter, ← List.map_cons] at hread
        have hlength := SortedMap.sumOf_insertAll_le (fun p => p.1.length + p.2.length) ((e :: l).map keptOption) ∅
        rw [← readQuery_options hnames' hread, SortedMap.sumOf, hentries, SortedMap.sumOf_empty, Nat.zero_add,
          List.map_map] at hlength
        intro p hp
        rw [hentries] at hp
        have hle : ∀ p ∈ e :: l, (keptOption p).1.length + (keptOption p).2.length ≤ p.1.length + p.2.length := fun p _ =>
          Nat.add_le_add (fromUtf8_sublist p.1).length_le (fromUtf8_sublist p.2).length_le
        have hsame := (sum_le_sum hle).2 hlength p hp
        have hfirst := (fromUtf8_sublist p.1).length_le
        have hsecond := (fromUtf8_sublist p.2).length_le
        simp only [keptOption] at hsame
        exact ⟨(hnames' p hp).1, fromUtf8_eq_of_length (by omega), fromUtf8_eq_of_length (by omega)⟩

/-! ### Domains -/

/-- The sub-domains and the domain, as they stand in front of the top level domain. -/
def joined (subDomains : List QString) (domain : QString) : QString :=
  (if (join '.' subDomains).isEmpty then [] else join '.' subDomains ++ ['.']) ++ domain

structure DomainKept (subDomains : List QString) (domain topLevelDomain : QString) : Prop where
  name : joined subDomains domain ++ topLevelDomain ≠ []
  subDomains : subDomains = [[]] ∨ ∀ s ∈ subDomains, s ≠ [] ∧ '.' ∉ s ∧ fromUtf8 s = s
  domain : '.' ∉ domain ∧ fromUtf8 domain = domain
  topLevelDomain : fromUtf8 topLevelDomain = topLevelDomain

/-- What `processDomain` makes of a name that the top level domain was cut off from. -/
def splitDomain (name : QString) : Except SetUriError (List QString × QString) := do
  let domain ← decode (name.rtakeWhile (· ≠ '.'))
  let allSubDomains := (name.rdropWhile (· ≠ '.')).dropLast
  if allSubDomains.isEmpty then pure ([[]], domain)
  else do
    let subDomains ← (allSubDomains.splitOn '.').mapM fun s => if s.isEmpty then .error .refused else decode s
    pure (subDomains, domain)

theorem processDomain_append {name top : QString} (h : tld (name ++ top) = some name.length) :
    processDomain tld (name ++ top) = (do
      let topLevelDomain ← decode top
      let (subDomains, domain) ← splitDomain name
      pure (subDomains, domain, topLevelDomain)) := by
  unfold processDomain splitDomain
  rw [h]
  simp only [List.drop_left, List.take_left]
  cases decode top with
  | error e => rfl
  | ok topLevelDomain =>
    cases decode (name.rtakeWhile (· ≠ '.')) with
    | error e => rfl
    | ok domain =>
      simp only [bind, Except.bind]
      split
      · rfl
      · split <;> rfl

theorem splitDomain_notMem (h : '.' ∉ s) : splitDomain s = (decode s).map ([[]], ·) := by
  have hreverse : '.' ∉ s.reverse := fun hmem => h (List.mem_reverse.mp hmem)
  have hdrop := dropWhile_ne_append hreverse []
  rw [List.append_nil, List.dropWhile_nil] at hdrop
  unfold splitDomain List.rtakeWhile List.rdropWhile
  rw [takeWhile_ne_self hreverse, hdrop, List.reverse_reverse]
  cases decode s <;> rfl

theorem splitDomain_append (h : '.' ∉ t) (s : QString) : splitDomain (s ++ '.' :: t) = (do
    let domain ← decode t
    if s.isEmpty then pure ([[]], domain)
    else do
      let subDomains ← (s.splitOn '.').mapM fun s => if s.isEmpty then .error .refused else decode s
      pure (subDomains, domain)) := by
  have hreverse : '.' ∉ t.reverse := fun hmem => h (List.mem_reverse.mp hmem)
  have htext : (s ++ '.' :: t).reverse = t.reverse ++ '.' :: s.reverse := by simp
  unfold splitDomain List.rtakeWhile List.rdropWhile
  rw [htext, takeWhile_ne_append hreverse, takeWhile_ne_cons, dropWhile_ne_append hreverse, dropWhile_ne_cons,
    List.append_nil, List.reverse_reverse, List.reverse_cons, List.reverse_reverse, List.dropLast_concat]

theorem urlencode_dot (hs : nul ∉ s) (ht : nul ∉ t) :
    urlencode (s ++ '.' :: t) accepted = urlencode s accepted ++ '.' :: urlencode t accepted := by
  have hdot : nul ∉ '.' :: t := fun h => (List.mem_cons.mp h).elim (fun h => absurd h (by decide)) ht
  rw [urlencode_append hs hdot, urlencode_eq hdot, List.flatMap_cons, encodeChar_dot, urlencode_eq ht]
  rfl

theorem urlencode_join : ∀ {parts : List QString}, (∀ s ∈ parts, nul ∉ s) →
    urlencode (join '.' parts) [] = join '.' (parts.map (urlencode · []))
  | [], _ => rfl
  | [s], _ => by simp [join]
  | s :: t :: parts, h => by
    obtain ⟨hs, hrest⟩ := List.forall_mem_cons.mp h
    have hjoin : nul ∉ join '.' (t :: parts) := notMem_join (by decide) hrest
    rw [join_cons_cons, urlencode_dot hs hjoin, urlencode_join hrest]
    exact (join_cons_cons '.' _ _ _).symm

theorem splitOn_join (c : Char) : ∀ {parts : List QString}, parts ≠ [] →
    (join c parts).splitOn c = parts.flatMap (List.splitOn c)
  | [s], _ => by simp [join]
  | s :: t :: parts, _ => by
    rw [join_cons_cons, List.splitOn_append_cons_self, splitOn_join c (List.cons_ne_nil t parts)]
    rfl

/-- A text that is split into as many pieces as there are parts was not split within a part. -/
theorem notMem_of_length_splitOn (c : Char) : ∀ (parts : List QString),
    parts.length ≤ (parts.flatMap (List.splitOn c)).length ∧
      ((parts.flatMap (List.splitOn c)).length ≤ parts.length → ∀ s ∈ parts, c ∉ s)
  | [] => ⟨le_rfl, fun _ s hs => by cases hs⟩
  | s :: parts => by
    obtain ⟨hle, hall⟩ := notMem_of_length_splitOn c parts
    have hpos : 0 < (s.splitOn c).length := List.length_pos_of_ne_nil (List.splitOn_ne_nil c s)
    rw [List.flatMap_cons, List.length_append, List.length_cons]
    refine ⟨by omega, fun h => List.forall_mem_cons.mpr ⟨fun hmem => ?_, hall (by omega)⟩⟩
    obtain ⟨a, b, rfl⟩ := List.append_of_mem hmem
    have ha : 0 < (a.splitOn c).length := List.length_pos_of_ne_nil (List.splitOn_ne_nil c a)
    have hb : 0 < (b.splitOn c).length := List.length_pos_of_ne_nil (List.splitOn_ne_nil c b)
    rw [List.splitOn_append_cons_self, List.length_append] at h
    omega

theorem length_mapM {ε α β : Type} {f : α → Except ε β} : ∀ {l : List α} {l' : List β}, l.mapM f = .ok l' → l'.length = l.length
  | [], l', h => by
    cases h
    rfl
  | x :: l, l', h => by
    rw [List.mapM_cons] at h
    cases hx : f x with
    | error e => rw [hx] at h; cases h
    | ok y =>
      cases hl : l.mapM f with
      | error e => rw [hx, hl] at h; cases h
      | ok ys =>
        rw [hx, hl] at h
        cases h
        rw [List.length_cons, List.length_cons, length_mapM hl]

theorem dot_mem_urlencode (h : nul ∉ s) (hs : '.' ∈ s) : '.' ∈ urlencode s accepted := by
  obtain ⟨a, b, rfl⟩ := List.append_of_mem hs
  have ha : nul ∉ a := fun hmem => h (List.mem_append_left _ hmem)
  have hb : nul ∉ b := fun hmem => h (List.mem_append_right _ (List.mem_cons_of_mem _ hmem))
  rw [urlencode_dot ha hb]
  exact List.mem_append_right _ List.mem_cons_self

/-- The sub-domains of a name that is read back. -/
theorem mapM_subDomains {subDomains : List QString} (hne : subDomains ≠ []) (hnul : ∀ s ∈ subDomains, nul ∉ s) :
    ((urlencode (join '.' subDomains) []).splitOn '.').mapM (fun s => if s.isEmpty then .error .refused else decode s) =
      .ok subDomains ↔ ∀ s ∈ subDomains, s ≠ [] ∧ '.' ∉ s ∧ fromUtf8 s = s := by
  have hmap : subDomains.map (urlencode · []) ≠ [] := by simpa using hne
  have hpart : ∀ s ∈ subDomains, (if (urlencode s []).isEmpty then .error .refused else decode (urlencode s [])) =
      (.ok s : Except SetUriError QString) ↔ s ≠ [] ∧ fromUtf8 s = s := fun s hs => by
    rw [decode_urlencode_nil (hnul s hs)]
    by_cases hempty : s = []
    · simp [hempty, urlencode, utf8]
    · simp [hempty, (urlencode_eq_nil [] (hnul s hs)).not.mpr hempty]
  have hkept : (∀ s ∈ subDomains, '.' ∉ s) →
      (((urlencode (join '.' subDomains) []).splitOn '.').mapM (fun s => if s.isEmpty then .error .refused else decode s) =
        .ok subDomains ↔ ∀ s ∈ subDomains, s ≠ [] ∧ fromUtf8 s = s) := fun hdot => by
    have hencoded : ∀ t ∈ subDomains.map (urlencode · []), '.' ∉ t := fun t ht => by
      obtain ⟨s, hs, rfl⟩ := List.mem_map.mp ht
      exact dot_notMem_urlencode _ (hnul s hs) (hdot s hs)
    rw [urlencode_join hnul, join, List.splitOn_intercalate '.' hencoded hmap, mapM_map_eq_ok]
    exact forall₂_congr hpart
  constructor
  · intro h
    have hlength := length_mapM h
    rw [urlencode_join hnul, splitOn_join '.' hmap] at hlength
    have hencoded := (notMem_of_length_splitOn '.' _).2 (by rw [← hlength, List.length_map])
    have hdot : ∀ s ∈ subDomains, '.' ∉ s := fun s hs hmem =>
      hencoded _ (List.mem_map_of_mem hs) (dot_mem_urlencode (hnul s hs) hmem)
    exact fun s hs => ⟨((hkept hdot).mp h s hs).1, hdot s hs, ((hkept hdot).mp h s hs).2⟩
  · exact fun h => (hkept fun s hs => (h s hs).2.1).mpr fun s hs => ⟨(h s hs).1, (h s hs).2.2⟩

theorem decode_of_splitDomain_append {subDomains : List QString} {domain : QString} (h : '.' ∉ t)
    (hsplit : splitDomain (s ++ '.' :: t) = .ok (subDomains, domain)) : decode t = .ok domain := by
  rw [splitDomain_append h] at hsplit
  cases ht : decode t with
  | error e => rw [ht] at hsplit; cases hsplit
  | ok d =>
    rw [ht] at hsplit
    simp only [bind, Except.bind] at hsplit
    split at hsplit
    · cases hsplit
      rfl
    · split at hsplit
      · cases hsplit
      · cases hsplit
        rfl

theorem eq_of_join_eq_nil {c : Char} : ∀ {parts : List QString}, parts ≠ [] → join c parts = [] → parts = [[]]
  | [s], _, h => by
    rw [join, List.intercalate_singleton] at h
    rw [h]
  | s :: t :: parts, _, h => by
    rw [join_cons_cons] at h
    simp at h

theorem splitDomain_joined {subDomains : List QString} {domain : QString} (hne : subDomains ≠ [])
    (hsub : ∀ s ∈ subDomains, nul ∉ s) (hdomain : nul ∉ domain) :
    splitDomain (urlencode (joined subDomains domain) []) = .ok (subDomains, domain) ↔
      (subDomains = [[]] ∨ ∀ s ∈ subDomains, s ≠ [] ∧ '.' ∉ s ∧ fromUtf8 s = s) ∧ '.' ∉ domain ∧ fromUtf8 domain = domain := by
  have hjoin : nul ∉ join '.' subDomains := notMem_join (by decide) hsub
  by_cases hdot : '.' ∈ domain
  · -- what follows the last dot of the domain is shorter
    obtain ⟨b, a, hreverse, hb⟩ := List.eq_append_cons_of_mem (List.mem_reverse.mpr hdot)
    have htext : domain = a.reverse ++ '.' :: b.reverse := by
      rw [← List.reverse_reverse domain, hreverse]
      simp
    have hbdot : '.' ∉ b.reverse := fun h => hb (List.mem_reverse.mp h)
    have hnul : nul ∉ a.reverse ∧ nul ∉ b.reverse := by
      rw [htext] at hdomain
      exact ⟨fun h => hdomain (List.mem_append_left _ h), fun h => hdomain (List.mem_append_right _ (List.mem_cons_of_mem _ h))⟩
    refine iff_of_false (fun h => ?_) fun h => h.2.1 hdot
    obtain ⟨r, hr, hjoined⟩ : ∃ r, nul ∉ r ∧ joined subDomains domain = r ++ '.' :: b.reverse := by
      refine ⟨(if (join '.' subDomains).isEmpty then [] else join '.' subDomains ++ ['.']) ++ a.reverse, fun hmem => ?_, ?_⟩
      · rcases List.mem_append.mp hmem with hmem | hmem
        · split at hmem
          · cases hmem
          · exact (List.mem_append.mp hmem).elim hjoin fun h => absurd h (by decide)
        · exact hnul.1 hmem
      · rw [joined, List.append_assoc, ← htext]
    rw [hjoined, urlencode_dot hr hnul.2] at h
    have hdecode := decode_of_splitDomain_append (dot_notMem_urlencode _ hnul.2 hbdot) h
    rw [decode_urlencode_nil hnul.2, Except.ok.injEq] at hdecode
    have hlength := (fromUtf8_sublist b.reverse).length_le
    rw [hdecode, htext, List.length_append, List.length_cons] at hlength
    omega
  · have hencoded := dot_notMem_urlencode [] hdomain hdot
    by_cases hempty : join '.' subDomains = []
    · have hsubs := eq_of_join_eq_nil hne hempty
      have htext : joined subDomains domain = domain := by
        rw [joined, hempty]
        rfl
      rw [htext, splitDomain_notMem hencoded, decode_urlencode_nil hdomain, hsubs]
      simp [Except.map, hdot]
    · have htext : urlencode (joined subDomains domain) [] = urlencode (join '.' subDomains) [] ++ '.' :: urlencode domain [] := by
        rw [joined, if_neg (List.isEmpty_iff.not.mpr hempty), List.append_assoc, List.singleton_append,
          urlencode_dot hjoin hdomain]
      have hne' : subDomains ≠ [[]] := fun h => hempty (by rw [h]; rfl)
      have hname := (urlencode_eq_nil [] hjoin).not.mpr hempty
      rw [htext, splitDomain_append hencoded, decode_urlencode_nil hdomain, ← mapM_subDomains hne hsub]
      simp only [bind, Except.bind, List.isEmpty_iff, hname, if_false, hne', false_or, hdot, not_false_eq_true, true_and]
      cases ((urlencode (join '.' subDomains) []).splitOn '.').mapM
          (fun s => if s = [] then .error .refused else decode s) with
      | error e => simp
      | ok subs => simp [pure, Except.pure]

theorem nul_notMem_joined {subDomains : List QString} {domain : QString} (hsub : ∀ s ∈ subDomains, nul ∉ s)
    (hdomain : nul ∉ domain) : nul ∉ joined subDomains domain := by
  have hjoin : nul ∉ join '.' subDomains := notMem_join (by decide) hsub
  intro hmem
  rcases List.mem_append.mp hmem with hmem | hmem
  · split at hmem
    · cases hmem
    · exact (List.mem_append.mp hmem).elim hjoin fun h => absurd h (by decide)
  · exact hdomain hmem

/-- The domain that was written is read, as long as its top level domain is found where it was put. -/
theorem domainKept_iff {subDomains : List QString} {domain top : QString}
    (htld : tld (urlencode (joined subDomains domain ++ top) []) = some (urlencode (joined subDomains domain) []).length)
    (hne : subDomains ≠ []) (hsub : ∀ s ∈ subDomains, nul ∉ s) (hdomain : nul ∉ domain) (htop : nul ∉ top) :
    DomainKept subDomains domain top ↔ joined subDomains domain ++ top ≠ [] ∧
      processDomain tld (urlencode (joined subDomains domain ++ top) []) = .ok (subDomains, domain, top) := by
  have hjoined := nul_notMem_joined hsub hdomain
  have hsplit := splitDomain_joined hne hsub hdomain
  have hread : processDomain tld (urlencode (joined subDomains domain ++ top) []) = .ok (subDomains, domain, top) ↔
      splitDomain (urlencode (joined subDomains domain) []) = .ok (subDomains, domain) ∧ fromUtf8 top = top := by
    rw [urlencode_append hjoined htop] at htld ⊢
    rw [processDomain_append htld, decode_urlencode_nil htop]
    cases splitDomain (urlencode (joined subDomains domain) []) with
    | error e => simp [bind, Except.bind]
    | ok r => simp [bind, Except.bind, pure, Except.pure, Prod.ext_iff, and_assoc]
  rw [hread, hsplit]
  exact ⟨fun h => ⟨h.name, ⟨h.subDomains, h.domain⟩, h.topLevelDomain⟩, fun h => ⟨h.1, h.2.1.1, h.2.1.2, h.2.2⟩⟩

end SnapUri
end Snapwebsites
