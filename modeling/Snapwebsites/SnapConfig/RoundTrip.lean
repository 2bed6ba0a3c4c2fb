import Mathlib.Data.Finset.Max
import Snapwebsites.SnapConfig.Lines
import Snapwebsites.SnapUri.Codec

/-! # Configuration files are read back

When all lines fit in the buffer, each parameter comes back when its value is kept. When one does not, the read
fails, or the parameters are different ones: the longest value of a long line would have to come from another
line under a section, and so would the value of that one, and the names get shorter each time
(`not_long_of_sources`). -/

namespace Snapwebsites
namespace SnapConfig
open QString

variable {r : Reading} {k v : Bytes}

/-! ### Reading pieces -/

def lineOf (p : Bytes) : Line :=
  match parseLine p with
  | .ok l => l
  | .error _ => .blank

theorem lineOf_eq {p : Bytes} {l : Line} (h : parseLine p = .ok l) : lineOf p = l := by rw [lineOf, h]

theorem parseLine_of_not_refused {p : Bytes} (h : ¬ Refused p) : parseLine p = .ok (lineOf p) := by
  cases hp : parseLine p with
  | ok l => rw [lineOf_eq hp]
  | error e => exact absurd ⟨e, hp⟩ h

/-- The state behind the pieces, when none of them is refused. -/
def readPieces (r : Reading) (ps : List Bytes) : Reading := ps.foldl (fun r p => r.line (lineOf p)) r

theorem readPieces_append (r : Reading) (ps qs : List Bytes) : readPieces r (ps ++ qs) = readPieces (readPieces r ps) qs := List.foldl_append

theorem readLines_ok (filename : QString) : ∀ {ps : List Bytes} (n : Nat) (r : Reading), (∀ p ∈ ps, ¬ Refused p) →
    readLines filename n r ps = .ok (readPieces r ps).parameters
  | [], _, _, _ => rfl
  | p :: ps, n, r, h => by
    rw [List.forall_mem_cons] at h
    rw [readLines, parseLine_of_not_refused h.1]
    exact readLines_ok filename (n + 1) _ h.2

theorem readLines_error (filename : QString) : ∀ {ps : List Bytes} (n : Nat) (r : Reading), (∃ p ∈ ps, Refused p) →
    ∃ e, readLines filename n r ps = .error e
  | [], _, _, ⟨_, hp, _⟩ => absurd hp List.not_mem_nil
  | p :: ps, n, r, ⟨q, hq, hrefused⟩ => by
    rw [readLines]
    cases hp : parseLine p with
    | error e => exact ⟨_, rfl⟩
    | ok l =>
      refine readLines_error filename (n + 1) _ ⟨q, (List.mem_cons.mp hq).resolve_left ?_, hrefused⟩
      rintro rfl
      obtain ⟨e, he⟩ := hrefused
      rw [hp] at he
      cases he

/-- Where a parameter comes from. -/
theorem find?_readPieces : ∀ {ps : List Bytes} {r : Reading}, (readPieces r ps).parameters.find? k = some v →
    r.parameters.find? k = some v ∨ ∃ p ∈ ps, ∃ n, parseLine p = .ok (.parameter n v)
  | [], _, h => .inl h
  | p :: ps, r, h => by
    rcases find?_readPieces (r := r.line (lineOf p)) h with h | ⟨q, hq, n, hn⟩
    · cases hp : parseLine p with
      | error e =>
        rw [lineOf, hp] at h
        exact .inl h
      | ok l =>
        rw [lineOf_eq hp] at h
        cases l with
        | blank => exact .inl h
        | sectionOf name => exact .inl h
        | parameter n w =>
          rw [Reading.line, SortedMap.find?_insert] at h
          split_ifs at h
          · rw [Option.some.inj h] at hp
            exact .inr ⟨p, List.mem_cons_self, n, hp⟩
          · exact .inl h
    · exact .inr ⟨q, List.mem_cons_of_mem _ hq, n, hn⟩

/-! ### Reading parameters -/

/-- A parameter that the writer writes as it is. -/
structure Writable (e : Bytes × Bytes) : Prop where
  name : ValidName e.1
  value : 0 ∉ e.2

def Accepted (e : Bytes × Bytes) : Prop := ∀ p ∈ cut (bodyOf e), ¬ Refused p

def size (v : Bytes) : Nat := (escape v).length

/-- The line of `e`, read under the section `scope`, can set `k` to `v`: as a whole or with its first piece, or with another piece. -/
def Source (scope : Bytes) (e : Bytes × Bytes) (k v : Bytes) : Prop :=
  (scope ++ e.1 = k ∧ size v ≤ size e.2 ∧ (Long e → size v < size e.2)) ∨ (Long e ∧ size v < size e.2)

def readEntry (r : Reading) (e : Bytes × Bytes) : Reading := readPieces r (cut (bodyOf e))

theorem readEntry_of_short {e : Bytes × Bytes} (he : Writable e) (h : ¬ Long e) :
    readEntry r e = { r with parameters := r.parameters.insert (r.scope ++ e.1) (readValue (escape e.2)) } := by
  obtain ⟨p, hcut, hp⟩ := cut_of_short he.name he.value h
  rw [readEntry, hcut, readPieces, List.foldl_cons, List.foldl_nil, lineOf_eq hp, Reading.line]

theorem size_readValue_escape (v : Bytes) : size (readValue (escape v)) ≤ size v :=
  (length_escape_readValue fun h => newline_notMem_escape v ((trim_inside _).subset h)).trans (trim_inside _).length_le

theorem find?_readEntry {e : Bytes × Bytes} (he : Writable e) (haccepted : Accepted e)
    (h : (readEntry r e).parameters.find? k = some v) : r.parameters.find? k = some v ∨ Source r.scope e k v := by
  by_cases hlong : Long e
  · obtain ⟨p, ps, w, hcut, hp, hw, hps⟩ := cut_of_long he.name he.value hlong haccepted
    rw [readEntry, hcut] at h
    change (readPieces (r.line (lineOf p)) ps).parameters.find? k = some v at h
    rcases find?_readPieces h with h | ⟨q, hq, n, hn⟩
    · rw [lineOf_eq hp, Reading.line, SortedMap.find?_insert] at h
      split_ifs at h with hk
      · rw [← Option.some.inj h]
        exact .inr (.inl ⟨hk.symm, hw.le, fun _ => hw⟩)
      · exact .inl h
    · exact .inr (.inr ⟨hlong, hps q hq n v hn⟩)
  · rw [readEntry_of_short he hlong, SortedMap.find?_insert] at h
    split_ifs at h with hk
    · rw [← Option.some.inj h]
      exact .inr (.inl ⟨hk.symm, size_readValue_escape e.2, fun h => absurd h hlong⟩)
    · exact .inl h

/-- The entries with the sections under which their lines start. -/
def starts : Reading → List (Bytes × Bytes) → List (Bytes × Bytes × Bytes)
  | _, [] => []
  | r, e :: l => (r.scope, e) :: starts (readEntry r e) l

theorem starts_map_snd : ∀ (l : List (Bytes × Bytes)) (r : Reading), (starts r l).map Prod.snd = l
  | [], _ => rfl
  | e :: l, r => congrArg (e :: ·) (starts_map_snd l (readEntry r e))

theorem find?_foldl_readEntry : ∀ {l : List (Bytes × Bytes)} {r : Reading}, (∀ e ∈ l, Writable e) → (∀ e ∈ l, Accepted e) →
    (l.foldl readEntry r).parameters.find? k = some v → r.parameters.find? k = some v ∨ ∃ x ∈ starts r l, Source x.1 x.2 k v
  | [], _, _, _, h => .inl h
  | e :: l, r, hw, ha, h => by
    rw [List.forall_mem_cons] at hw ha
    rcases find?_foldl_readEntry hw.2 ha.2 h with h | ⟨x, hx, hsource⟩
    · rcases find?_readEntry hw.1 ha.1 h with h | hsource
      · exact .inl h
      · exact .inr ⟨_, List.mem_cons_self, hsource⟩
    · exact .inr ⟨x, List.mem_cons_of_mem _ hx, hsource⟩

/-! ### No long lines -/

section
variable {S : List (Bytes × Bytes × Bytes)} (hnames : ∀ x ∈ S, ∀ y ∈ S, x.2.1 = y.2.1 → x = y)
  (hsource : ∀ x ∈ S, ∃ y ∈ S, Source y.1 y.2 x.2.1 x.2.2)
include hnames hsource

/-- A line under a section comes from one under a section with a shorter name, when no long line is larger. -/
theorem not_larger {bound : Nat} (hbound : ∀ y ∈ S, Long y.2 → size y.2.2 ≤ bound) {x : Bytes × Bytes × Bytes} (hx : x ∈ S)
    (hscope : x.1 ≠ []) : ¬ bound ≤ size x.2.2 := by
  intro hle
  obtain ⟨y, hy, ⟨hname, hsize, -⟩ | ⟨hlong, hsize⟩⟩ := hsource x hx
  · by_cases hy0 : y.1 = []
    · rw [hy0, List.nil_append] at hname
      rw [hnames y hy x hx hname] at hy0
      exact hscope hy0
    · have hshorter : y.2.1.length < x.2.1.length := by
        rw [← hname, List.length_append]
        have := List.length_pos_iff.mpr hy0
        omega
      exact not_larger hbound hy hy0 (hle.trans hsize)
  · exact absurd (hbound y hy hlong) (Nat.not_le.mpr (Nat.lt_of_le_of_lt hle hsize))
termination_by x.2.1.length

/-- When each value has a source, no line is long. -/
theorem not_long_of_sources {x : Bytes × Bytes × Bytes} (hx : x ∈ S) : ¬ Long x.2 := by
  classical
  intro hlong
  obtain ⟨z, hz, hmax⟩ := (S.toFinset.filter fun y => Long y.2).exists_max_image (fun y => size y.2.2)
    ⟨x, Finset.mem_filter.mpr ⟨List.mem_toFinset.mpr hx, hlong⟩⟩
  rw [Finset.mem_filter, List.mem_toFinset] at hz
  obtain ⟨hz, hzlong⟩ := hz
  have hbound : ∀ y ∈ S, Long y.2 → size y.2.2 ≤ size z.2.2 := fun y hy hylong =>
    hmax y (Finset.mem_filter.mpr ⟨List.mem_toFinset.mpr hy, hylong⟩)
  obtain ⟨y, hy, ⟨hname, hsize, hless⟩ | ⟨hylong, hsize⟩⟩ := hsource z hz
  · by_cases hy0 : y.1 = []
    · rw [hy0, List.nil_append] at hname
      have hyz := hnames y hy z hz hname
      rw [hyz] at hless
      exact absurd (hless hzlong) (Nat.lt_irrefl _)
    · exact not_larger hnames hsource hbound hy hy0 hsize
  · exact absurd (hbound y hy hylong) (Nat.not_le.mpr hsize)

end

/-! ### Short lines -/

theorem foldl_readEntry_of_short : ∀ {l : List (Bytes × Bytes)} {r : Reading}, (∀ e ∈ l, Writable e) → (∀ e ∈ l, ¬ Long e) → r.scope = [] →
    (l.foldl readEntry r).parameters = r.parameters.insertAll (l.map fun e => (e.1, readValue (escape e.2)))
  | [], _, _, _, _ => rfl
  | e :: l, r, hw, hshort, hscope => by
    rw [List.forall_mem_cons] at hw hshort
    rw [List.foldl_cons, readEntry_of_short hw.1 hshort.1, hscope, List.nil_append]
    exact foldl_readEntry_of_short hw.2 hshort.2 rfl

/-! ### Whole files -/

/-- The lines of a file, without their newlines. -/
def bodies (date time : Stamp) (m : Parameters) : List Bytes := comments date time ++ m.entries.map bodyOf

theorem actualWriteConfigFile_eq {m : Parameters} (hm : ∀ e ∈ m.entries, Writable e) (date time : Stamp) :
    actualWriteConfigFile date time m = (bodies date time m).flatMap (· ++ [newline]) := by
  have hfilter : m.entries.filter (fun e => !(e.1.contains 0x2E || e.1.contains 0x2F)) = m.entries := by
    refine List.filter_eq_self.mpr fun e he => ?_
    have hname := (hm e he).name.characters
    have hdot : e.1.contains 0x2E = false := by
      refine Bool.eq_false_iff.mpr fun h => ?_
      exact (hname _ (List.contains_iff_mem.mp h)).2.2.2.1 rfl
    have hslash : e.1.contains 0x2F = false := by
      refine Bool.eq_false_iff.mpr fun h => ?_
      exact (hname _ (List.contains_iff_mem.mp h)).2.2.2.2 rfl
    rw [hdot, hslash]
    rfl
  rw [actualWriteConfigFile, hfilter, bodies, List.flatMap_append, List.flatMap_map]

theorem parseLine_comment {t : Bytes} (h0 : 0 ∉ t) : parseLine (0x23 :: t ++ [newline]) = .ok .blank := by
  have hstring : 0 ∉ 0x23 :: t ++ [newline] := by
    rw [List.cons_append, List.mem_cons, List.mem_append, List.mem_singleton, not_or, not_or]
    exact ⟨by decide, h0, by decide⟩
  have hdrop := rdropWhile_append_cons (p := isEndOfLine) [] (c := 0x23) rfl t
  rw [List.nil_append, List.nil_append] at hdrop
  have hend : (some newline).any isEndOfLine = true := rfl
  rw [parseLine, cString_eq_self hstring, List.getLast?_concat, if_pos hend, List.dropLast_concat, hdrop,
    List.dropWhile_cons_of_neg (by decide), parseText, if_pos (.inl rfl)]

/-- Bytes that are no control characters, and not too many. -/
structure Printed (n : Nat) (b : Bytes) : Prop where
  length : b.length ≤ n
  printed : ∀ x ∈ b, 0x20 ≤ x

theorem Printed.append {m n : Nat} {a b : Bytes} (ha : Printed m a) (hb : Printed n b) : Printed (m + n) (a ++ b) where
  length := by
    have := ha.length
    have := hb.length
    rw [List.length_append]
    omega
  printed := List.forall_mem_append.mpr ⟨ha.printed, hb.printed⟩

theorem Printed.notMem {n : Nat} {b : Bytes} (h : Printed n b) {x : UInt8} (hx : x < 0x20) : x ∉ b := fun hmem =>
  absurd (h.printed x hmem) (UInt8.not_le.mpr hx)

theorem printed_utf8 {s : QString} (n : Nat) (hn : s.length ≤ n) (h : ∀ c ∈ s, 0x20 ≤ c.toNat ∧ c.toNat < 0x80) : Printed n (utf8 s) := by
  rw [utf8_ascii fun c hc => (h c hc).2]
  refine ⟨by rwa [List.length_map], fun x hx => ?_⟩
  obtain ⟨c, hc, rfl⟩ := List.mem_map.mp hx
  rw [UInt8.le_iff_toNat_le, UInt8.toNat_ofNat_of_lt' (Nat.lt_trans (h c hc).2 (by decide))]
  exact (h c hc).1

theorem printed_ofList {s : QString} {n : Nat} (hn : s.length ≤ n) (h : ∀ c ∈ s, 0x20 ≤ c.toNat ∧ c.toNat < 0x80) :
    Printed n (utf8 (String.ofList s).toList) := by
  rw [String.toList_ofList]
  exact printed_utf8 n hn h

theorem Stamp.isPrinted (t : Stamp) : Printed 64 t.text := ⟨t.short, t.printed⟩

theorem printed_comments (date time : Stamp) {c : Bytes} (hc : c ∈ comments date time) : ∃ t, c = 0x23 :: t ∧ Printed 512 t := by
  rcases List.mem_cons.mp hc with rfl | hc
  · have hfirst : Printed 64 (utf8 " This file was auto-generated by snap_config.cpp on ".toList) := printed_ofList (by decide) (by decide)
    have hsecond : Printed 64 (utf8 " at ".toList) := printed_ofList (by decide) (by decide)
    have hstop : Printed 64 (utf8 ".".toList) := printed_ofList (by decide) (by decide)
    have hall := (((hfirst.append date.isPrinted).append hsecond).append time.isPrinted).append hstop
    exact ⟨_, rfl, hall.length.trans (by decide), hall.printed⟩
  · rcases List.mem_cons.mp hc with rfl | hc
    · exact ⟨_, rfl, printed_ofList (by decide) (by decide)⟩
    · rw [List.mem_singleton.mp hc]
      exact ⟨_, rfl, printed_ofList (by decide) (by decide)⟩

/-- A comment is one piece, which says nothing. -/
theorem comment_pieces (date time : Stamp) {c : Bytes} (hc : c ∈ comments date time) :
    newline ∉ c ∧ ∃ p, cut c = [p] ∧ parseLine p = .ok .blank := by
  obtain ⟨t, rfl, ht⟩ := printed_comments date time hc
  have hnl : newline ∉ 0x23 :: t := by
    rw [List.mem_cons, not_or]
    exact ⟨by decide, ht.notMem (by decide)⟩
  have hlength : (0x23 :: t).length < bufSize := by
    rw [List.length_cons]
    exact Nat.lt_of_le_of_lt (Nat.succ_le_succ ht.length) (by decide)
  exact ⟨hnl, _, cut_short hlength, parseLine_comment (ht.notMem (by decide))⟩

theorem readPieces_comments (date time : Stamp) (r : Reading) : readPieces r ((comments date time).flatMap cut) = r := by
  have hall : ∀ l : List Bytes, (∀ c ∈ l, c ∈ comments date time) → readPieces r (l.flatMap cut) = r := by
    intro l
    induction l with
    | nil => exact fun _ => rfl
    | cons c l ih =>
      intro hl
      rw [List.forall_mem_cons] at hl
      obtain ⟨-, p, hcut, hp⟩ := comment_pieces date time hl.1
      have hfirst : readPieces r (cut c) = r := by rw [hcut, readPieces, List.foldl_cons, List.foldl_nil, lineOf_eq hp, Reading.line]
      rw [List.flatMap_cons, readPieces_append, hfirst, ih hl.2]
  exact hall _ fun _ hc => hc

theorem readPieces_entries (r : Reading) (l : List (Bytes × Bytes)) : readPieces r ((l.map bodyOf).flatMap cut) = l.foldl readEntry r := by
  induction l generalizing r with
  | nil => rfl
  | cons e l ih => rw [List.map_cons, List.flatMap_cons, readPieces_append, List.foldl_cons, ← ih, readEntry]

theorem pieces_file {m : Parameters} (hm : ∀ e ∈ m.entries, Writable e) (date time : Stamp) :
    pieces (actualWriteConfigFile date time m) = (comments date time).flatMap cut ++ (m.entries.map bodyOf).flatMap cut := by
  rw [actualWriteConfigFile_eq hm, pieces_lines, bodies, List.flatMap_append]
  intro s hs
  rcases List.mem_append.mp hs with hs | hs
  · exact (comment_pieces date time hs).1
  · obtain ⟨e, he, rfl⟩ := List.mem_map.mp hs
    exact newline_notMem_bodyOf (hm e he).name (hm e he).value

/-- What is read of a file that has been written. -/
theorem read_written {m : Parameters} (hm : ∀ e ∈ m.entries, Writable e) (filename : QString) (date time : Stamp)
    (haccepted : ∀ e ∈ m.entries, Accepted e) :
    actualReadConfigFile filename (some (actualWriteConfigFile date time m)) ∅ = .ok (true, (m.entries.foldl readEntry {}).parameters) := by
  have hpieces : ∀ p ∈ pieces (actualWriteConfigFile date time m), ¬ Refused p := by
    intro p hp
    rw [pieces_file hm, List.mem_append] at hp
    rcases hp with hp | hp
    · obtain ⟨c, hc, hp⟩ := List.mem_flatMap.mp hp
      obtain ⟨-, q, hcut, hq⟩ := comment_pieces date time hc
      rw [hcut, List.mem_singleton] at hp
      rintro ⟨e, he⟩
      rw [hp, hq] at he
      cases he
    · obtain ⟨s, hs, hp⟩ := List.mem_flatMap.mp hp
      obtain ⟨e, he, rfl⟩ := List.mem_map.mp hs
      exact haccepted e he p hp
  have hread := readLines_ok filename 1 { parameters := ∅ } hpieces
  rw [pieces_file hm, readPieces_append, readPieces_comments, readPieces_entries] at hread
  rw [actualReadConfigFile, pieces_file hm, hread]

theorem read_refused {m : Parameters} (hm : ∀ e ∈ m.entries, Writable e) (filename : QString) (date time : Stamp)
    {e : Bytes × Bytes} (he : e ∈ m.entries) (hrefused : ∃ p ∈ cut (bodyOf e), Refused p) :
    ∃ error, actualReadConfigFile filename (some (actualWriteConfigFile date time m)) ∅ = .error error := by
  obtain ⟨p, hp, hrefused⟩ := hrefused
  have hmem : p ∈ pieces (actualWriteConfigFile date time m) := by
    rw [pieces_file hm]
    exact List.mem_append_right _ (List.mem_flatMap.mpr ⟨_, List.mem_map_of_mem he, hp⟩)
  obtain ⟨error, herror⟩ := readLines_error filename 1 { parameters := ∅ } ⟨p, hmem, hrefused⟩
  exact ⟨error, by rw [actualReadConfigFile, herror]⟩

/-- The parameters come back, or the file is refused. -/
def ReadBack (filename : QString) (date time : Stamp) (m : Parameters) : Prop :=
  ∀ m', actualReadConfigFile filename (some (actualWriteConfigFile date time m)) ∅ = .ok (true, m') → m' = m

/-- A long line does not give its value back. -/
theorem not_long_of_read {m : Parameters} (hm : ∀ e ∈ m.entries, Writable e) (haccepted : ∀ e ∈ m.entries, Accepted e)
    (h : (m.entries.foldl readEntry {}).parameters = m) : ∀ e ∈ m.entries, ¬ Long e := by
  have hsnd := starts_map_snd m.entries {}
  have hmem : ∀ x ∈ starts {} m.entries, x.2 ∈ m.entries := fun x hx => by
    rw [← hsnd]
    exact List.mem_map_of_mem hx
  have hnodup : ((starts {} m.entries).map fun x => x.2.1).Nodup := by
    have hkeys : (m.entries.map Prod.fst).Nodup := (List.pairwise_map.mpr m.sorted).imp ne_of_lt
    rw [← hsnd, List.map_map] at hkeys
    exact hkeys
  have hnames : ∀ x ∈ starts {} m.entries, ∀ y ∈ starts {} m.entries, x.2.1 = y.2.1 → x = y := fun x hx y hy =>
    List.inj_on_of_nodup_map hnodup hx hy
  have hsource : ∀ x ∈ starts {} m.entries, ∃ y ∈ starts {} m.entries, Source y.1 y.2 x.2.1 x.2.2 := by
    intro x hx
    have hfind : (m.entries.foldl readEntry {}).parameters.find? x.2.1 = some x.2.2 := by
      rw [h]
      exact SortedMap.find?_eq_some.mpr (hmem x hx)
    rcases find?_foldl_readEntry hm haccepted hfind with hnone | hsource
    · cases hnone
    · exact hsource
  intro e he
  rw [← hsnd] at he
  obtain ⟨x, hx, rfl⟩ := List.mem_map.mp he
  exact not_long_of_sources hnames hsource hx

theorem accepted_of_short {e : Bytes × Bytes} (he : Writable e) (h : ¬ Long e) : Accepted e := by
  obtain ⟨p, hcut, hp⟩ := cut_of_short he.name he.value h
  rintro q hq ⟨error, herror⟩
  rw [hcut, List.mem_singleton] at hq
  rw [hq, hp] at herror
  cases herror

theorem insertAll_entries_eq (m : Parameters) : (∅ : Parameters).insertAll m.entries = m :=
  SortedMap.ext (SortedMap.entries_insertAll (m := (∅ : Parameters)) m.sorted)

/-- A file that is not refused. -/
theorem readBack_of_accepted {m : Parameters} (hm : ∀ e ∈ m.entries, Writable e) (haccepted : ∀ e ∈ m.entries, Accepted e)
    (filename : QString) (date time : Stamp) :
    ReadBack filename date time m ↔ ∀ e ∈ m.entries, (bodyOf e).length < bufSize ∧ Kept e.2 := by
  have hread := read_written hm filename date time haccepted
  constructor
  · intro h
    have heq := h _ hread
    have hshort := not_long_of_read hm haccepted heq
    have hkeys : (m.entries.map Prod.fst).Nodup := (List.pairwise_map.mpr m.sorted).imp ne_of_lt
    rw [foldl_readEntry_of_short hm hshort rfl] at heq
    refine fun e he => ⟨not_not.mp (hshort e he), (readValue_escape_iff e.2).mp ?_⟩
    have hset : (e.1, readValue (escape e.2)) ∈ m.entries.map fun e => (e.1, readValue (escape e.2)) := List.mem_map_of_mem he
    have hfind := SortedMap.find?_insertAll_of_mem (by rwa [List.map_map]) hset (∅ : Parameters)
    rw [heq, SortedMap.find?_eq_some.mpr (show (e.1, e.2) ∈ m.entries from he)] at hfind
    exact (Option.some.inj hfind).symm
  · intro h m' hm'
    rw [hread] at hm'
    have hmap : m.entries.map (fun e => (e.1, readValue (escape e.2))) = m.entries.map id :=
      List.map_congr_left fun e he => by rw [(readValue_escape_iff e.2).mpr (h e he).2, id]
    rw [← (Prod.mk.inj (Except.ok.inj hm')).2, foldl_readEntry_of_short hm (fun e he => not_not.mpr (h e he).1) rfl, hmap, List.map_id,
      insertAll_entries_eq]

/-- Parameters are read back, or refused, just when all lines fit in the buffer and all values are kept, or a piece of a line is
    refused. -/
theorem readBack_iff {m : Parameters} (hm : ∀ e ∈ m.entries, Writable e) (filename : QString) (date time : Stamp) :
    ReadBack filename date time m ↔
      (∀ e ∈ m.entries, (bodyOf e).length < bufSize ∧ Kept e.2) ∨ ∃ e ∈ m.entries, ∃ p ∈ cut (bodyOf e), Refused p := by
  by_cases hrefused : ∃ e ∈ m.entries, ∃ p ∈ cut (bodyOf e), Refused p
  · obtain ⟨e, he, hp⟩ := hrefused
    obtain ⟨error, herror⟩ := read_refused hm filename date time he hp
    refine ⟨fun _ => .inr ⟨e, he, hp⟩, fun _ m' hm' => ?_⟩
    rw [herror] at hm'
    cases hm'
  · rw [or_iff_left hrefused]
    exact readBack_of_accepted hm (fun e he p hp h => hrefused ⟨e, he, p, hp, h⟩) filename date time

theorem printed_midnight : Printed 64 (utf8 "00:00:00".toList) := printed_utf8 64 (by decide) (by decide)

def midnight : Stamp := ⟨_, printed_midnight.length, printed_midnight.printed⟩

theorem writable_a {v : Bytes} (hv : 0 ∉ v) : Writable ([0x61], v) where
  name := ⟨List.cons_ne_nil _ _, List.forall_mem_singleton.mpr (by decide), by rintro b ⟨rfl⟩; decide⟩
  value := hv

theorem readBack_iff_a : ReadBack [] midnight midnight ⟨[([0x61], [0x62])], List.pairwise_singleton _ _⟩ ↔
    (∀ e ∈ [([0x61], [0x62])], (bodyOf e).length < bufSize ∧ Kept e.2) ∨ ∃ e ∈ [([0x61], [0x62])], ∃ p ∈ cut (bodyOf e), Refused p :=
  readBack_iff (m := ⟨[([0x61], [0x62])], List.pairwise_singleton _ _⟩) (List.forall_mem_singleton.mpr (writable_a (by decide))) [] midnight midnight

/-- The value `" b"` comes back as `"b"`. -/
theorem space_not_readBack : ¬ ReadBack [] midnight midnight ⟨[([0x61], [0x20, 0x62])], List.pairwise_singleton _ _⟩ := by
  have he : Writable ([0x61], [0x20, 0x62]) := writable_a (by decide)
  have hshort : ¬ Long ([0x61], [0x20, 0x62]) := not_not.mpr (by decide)
  intro h
  have hkept := (readBack_of_accepted (m := ⟨[([0x61], [0x20, 0x62])], List.pairwise_singleton _ _⟩) (List.forall_mem_singleton.mpr he)
    (List.forall_mem_singleton.mpr (accepted_of_short he hshort)) [] midnight midnight).mp h _ (List.mem_singleton_self _)
  exact absurd (hkept.2.front 0x20 rfl rfl) (by decide)

end SnapConfig
end Snapwebsites
