import Snapwebsites.HttpStrings.Markers
import Snapwebsites.Lib.Fallible
import Snapwebsites.Links.LinkInfo

/-! # Links in a cell

A key is read back if it has no equal sign, no line end and no place marker up to 4 (`Readable`): otherwise the
line of the key is split in other parts, or `arg()` fills in its markers, and each marker that is filled in takes
a percent sign with it. `create_link()` refuses a link for its name and its branch only, so a link that has
neither fault is stored whatever its key is (`stored_of_created`). -/

namespace Snapwebsites
namespace Links
open QString HttpStrings

variable {L : Type} {qt : Qt L} {info : LinkInfo} {s t : QString}

/-! ### Names -/

theorem isWord_of_checkCharacter {c : Char} {e : Except NameError Unit} (h : ((checkCharacter c).bind fun _ => e) = .ok ()) :
    isWord c = true ∧ e = .ok () := by
  unfold checkCharacter at h
  split at h
  · exact ⟨‹_›, h⟩
  · split at h <;> cases h

/-- A name that is accepted is made of words and colons. -/
theorem word_of_verifyNameFrom {first hasNamespace : Bool} {ns : QString}
    (h : verifyNameFrom first ns hasNamespace s = .ok ()) : ∀ c ∈ s, isWord c = true ∨ c = ':' := by
  fun_induction verifyNameFrom first ns hasNamespace s with
  | case1 | case2 | case4 | case5 | case6 | case7 | case8 => cases h
  | case3 => simp
  | case9 _ _ _ c hc _ d e s hd ih =>
    obtain ⟨he, hs⟩ := isWord_of_checkCharacter h
    simp only [List.forall_mem_cons]
    exact ⟨Or.inr hc.1, Or.inr (not_not.mp hd), Or.inl he, ih hs⟩
  | case10 _ _ _ c s _ ih =>
    obtain ⟨hc, hs⟩ := isWord_of_checkCharacter h
    simp only [List.forall_mem_cons]
    exact ⟨Or.inl hc, ih hs⟩

/-- A name that `set_name()` accepts. -/
def Named (name : QString) : Prop := verifyNameFrom true [] false name = .ok ()

theorem Named.notMem {name : QString} (h : Named name) {c : Char} (hword : isWord c = false) (hcolon : c ≠ ':') : c ∉ name :=
  fun hc => (word_of_verifyNameFrom h c hc).elim (fun hw => Bool.false_ne_true (hword.symm.trans hw)) hcolon

theorem setName_ok {info info' : LinkInfo} {name : QString} {unique : Bool} (h : info.setName qt name unique = .ok info') :
    info' = { info with name, unique } := by
  unfold LinkInfo.setName at h
  cases hname : info.verifyName qt name with
  | error e =>
    rw [hname] at h
    cases h
  | ok _ =>
    rw [hname] at h
    cases h
    rfl

theorem setName_named {name : QString} {unique : Bool} (h : Named name) : info.setName qt name unique = .ok { info with name, unique } := by
  rw [LinkInfo.setName, LinkInfo.verifyName, h]
  rfl

/-! ### Branches -/

theorem notMem_branchText {branch : UInt32} {c : Char} (hc : c.isDigit = false) : c ∉ branchText branch := fun h =>
  Bool.false_ne_true (hc.symm.trans (isDigit_of_mem_number h))

theorem toULong_branchText (branch : UInt32) : LinkInfo.toULong (branchText branch) = some branch.toNat := by
  have hdigit : ∀ c ∈ branchText branch, c.isDigit = true := fun c => isDigit_of_mem_number
  have htrim : trimmed (branchText branch) = branchText branch :=
    trimmed_eq_self (fun c hc => isSpace_of_isDigit (hdigit c (List.mem_of_mem_head? hc)))
      (fun c hc => isSpace_of_isDigit (hdigit c (List.mem_of_getLast? hc)))
  rw [LinkInfo.toULong, htrim]
  split
  · rename_i _ _ hplus
    have := hdigit '+' (by rw [hplus]; exact List.mem_cons_self)
    cases this
  · rw [branchText, digits_number, Option.filter_some, if_pos]
    exact decide_eq_true (branch.toNat_lt.trans (by decide))

/-! ### The lines -/

def uniqueText (unique : Bool) : QString := if unique then ['1'] else ['*']

/-- The four lines, each with its value as it is. -/
def linesOf (info : LinkInfo) : List QString :=
  [['k', '='] ++ info.key, ['n', '='] ++ info.name, ['b', '='] ++ branchText info.branch, ['u', '='] ++ uniqueText info.unique]

/-- The text without place markers. -/
def textOf (info : LinkInfo) : QString := join '\n' (linesOf info)

theorem splitOn_field {k : Char} (hk : k ≠ '=') (hs : '=' ∉ s) : ([k, '='] ++ s).splitOn '=' = [[k], s] := by
  rw [List.cons_append, List.cons_append, List.nil_append, ← List.singleton_append,
    List.splitOn_append_cons_self_of_not_mem (by simpa using hk.symm), List.splitOn_eq_singleton hs]

/-- What `from_data()` needs of a key. -/
structure Plain (key : QString) : Prop where
  equal : '=' ∉ key
  newline : '\n' ∉ key

theorem fromData_textOf (hname : Named info.name) (hkey : Plain info.key) :
    ({} : LinkInfo).fromData qt (textOf info) = .ok info := by
  have hlines : (textOf info).splitOn '\n' = linesOf info := by
    refine List.splitOn_intercalate '\n' (fun line hline => ?_) (List.cons_ne_nil _ _)
    simp only [linesOf, List.mem_cons, List.not_mem_nil, or_false] at hline
    rcases hline with rfl | rfl | rfl | rfl
    · simpa using hkey.newline
    · simpa using hname.notMem (by decide) (by decide)
    · simpa using notMem_branchText (by decide)
    · cases info.unique <;> decide
  have hfields : (linesOf info).map (·.splitOn '=') =
      [[['k'], info.key], [['n'], info.name], [['b'], branchText info.branch], [['u'], uniqueText info.unique]] := by
    have hunique : '=' ∉ uniqueText info.unique := by cases info.unique <;> decide
    simp only [linesOf, List.map_cons, List.map_nil, splitOn_field (by decide : 'k' ≠ '=') hkey.equal,
      splitOn_field (by decide : 'n' ≠ '=') (hname.notMem (by decide) (by decide)),
      splitOn_field (by decide : 'b' ≠ '=') (notMem_branchText (by decide)), splitOn_field (by decide : 'u' ≠ '=') hunique]
  rw [LinkInfo.fromData, hlines, if_neg fun h => h rfl, hfields, LinkInfo.fromFields, if_neg (by simp),
    if_neg (by cases info.unique <;> decide), toULong_branchText]
  have hunique : (decide (uniqueText info.unique = ['1'])) = info.unique := by cases info.unique <;> rfl
  simp only [setName_named hname, hunique, Except.map]
  rw [UInt32.ofNat_toNat]

theorem key_of_fromFields {d : QString} {fields : List (List QString)}
    (h : LinkInfo.fromFields qt {} d fields = .ok info) : ∃ rest, fields = [['k'], info.key] :: rest := by
  unfold LinkInfo.fromFields at h
  split at h
  · rename_i k key n name b branch u unique
    split at h
    · cases h
    · rename_i hletters
      have hk : k = ['k'] := by
        by_contra hk
        exact hletters (Or.inl hk)
      split at h
      · cases h
      · split at h
        · cases h
        · obtain ⟨info', hset, rfl⟩ := Fallible.map_eq_ok.mp h
          rw [setName_ok hset, hk]
          exact ⟨_, rfl⟩
  · cases h

/-- What is read is the key of the first line. -/
theorem key_of_fromData {d : QString} (h : ({} : LinkInfo).fromData qt d = .ok info) :
    ∃ rest, d.splitOn '\n' = (['k', '='] ++ info.key) :: rest ∧ Plain info.key := by
  rw [LinkInfo.fromData] at h
  split at h
  · cases h
  · obtain ⟨fields, hfields⟩ := key_of_fromFields h
    obtain ⟨line, rest, hsplit, hline, -⟩ := List.map_eq_cons_iff.mp hfields
    have hjoin : ['='].intercalate (line.splitOn '=') = line := List.intercalate_splitOn '='
    rw [hline] at hjoin
    obtain rfl : ['k', '='] ++ info.key = line := by simpa [List.intercalate] using hjoin
    have hnewline : '\n' ∉ ['k', '='] ++ info.key := notMem_of_mem_splitOn (s := d) (by rw [hsplit]; exact List.mem_cons_self)
    refine ⟨rest, hsplit, ?_, fun hmem => hnewline (List.mem_append_right _ hmem)⟩
    exact notMem_of_mem_splitOn (s := ['k', '='] ++ info.key) (by rw [hline]; simp)

/-! ### The markers of a key -/

/-- A key without a marker up to 4. -/
structure Readable (qt : Qt L) (key : QString) : Prop extends Plain key where
  markers : Above qt 4 key

theorem breaks_newline : Breaks qt '\n' := breaks_ascii (by decide) (by decide) (by decide) (by decide)

theorem digitValue_three : qt.digitValue '3' = some 3 := qt.digitValue_digit 3 (by decide)

theorem digitValue_four : qt.digitValue '4' = some 4 := qt.digitValue_digit 4 (by decide)

/-- A line behind the first one, with its marker. -/
def field (x d : Char) (t : QString) : QString := '\n' :: x :: '=' :: '%' :: d :: t

def behindBranch : QString := field 'u' '4' []

def behindName : QString := field 'b' '3' behindBranch

def behindKey : QString := field 'n' '2' behindName

theorem format_eq : "k=%1\nn=%2\nb=%3\nu=%4".toList = ['k'] ++ '=' :: '%' :: '1' :: behindKey := rfl

theorem head?_field {x d c : Char} (h : c ∈ (field x d t).head?) : Breaks qt c := by
  cases h
  exact breaks_newline

theorem above_of_lowestMarker {m n : Nat} (h : lowestMarker qt s = some m) (hn : n < m) : Above qt n s :=
  above_iff.mpr fun k hk => by
    rw [h] at hk
    exact lt_of_lt_of_eq hn (Option.some.inj hk)

theorem above_field {x d : Char} {m n : Nat} (hx : x ≠ '%') (hd : qt.digitValue d = some n) (ht : Above qt n t)
    (hend : ∀ c ∈ t.head?, Breaks qt c) (hm : m < n) : Above qt m (field x d t) := by
  have hlowest : lowestMarker qt (field x d t) = some n := by
    rw [field, lowestMarker, marker_break breaks_newline, lowestMarker, marker, if_neg hx]
    exact lowestMarker_field hd ht hend
  exact above_of_lowestMarker hlowest hm

theorem above_behindBranch : Above qt 3 behindBranch :=
  above_field (by decide) digitValue_four trivial (fun _ h => by cases h) (by decide)

theorem above_behindName : Above qt 2 behindName :=
  above_field (by decide) digitValue_three above_behindBranch (fun _ => head?_field) (by decide)

theorem above_behindKey : Above qt 1 behindKey :=
  above_field (by decide) digitValue_two above_behindName (fun _ => head?_field) (by decide)

/-- The key is filled in whatever it is. -/
theorem arg_key (key : QString) : arg qt "k=%1\nn=%2\nb=%3\nu=%4".toList key = ['k', '='] ++ key ++ behindKey := by
  rw [format_eq, arg_field (above_of_notMem (by decide)) digitValue_one above_behindKey (fun _ => head?_field)]
  rfl

/-- The name is filled in behind a key without a marker up to 2. -/
theorem arg_name {key : QString} (h : Above qt 2 key) (name : QString) :
    arg qt (['k', '='] ++ key ++ behindKey) name = ['k', '='] ++ key ++ ['\n', 'n', '='] ++ name ++ behindName := by
  have hfront : Above qt 2 (['k'] ++ '=' :: (key ++ '\n' :: ['n'])) :=
    (above_of_notMem (by decide)).append breaks_equal (h.append breaks_newline (above_of_notMem (by decide)))
  have := arg_field hfront digitValue_two above_behindName (fun _ => head?_field) name
  simpa [behindKey, field] using this

/-- The branch is filled in behind a key without a marker up to 3. -/
theorem arg_branch {key name : QString} (h : Above qt 3 key) (hname : '%' ∉ name) (branch : QString) :
    arg qt (['k', '='] ++ key ++ ['\n', 'n', '='] ++ name ++ behindName) branch =
      ['k', '='] ++ key ++ ['\n', 'n', '='] ++ name ++ ['\n', 'b', '='] ++ branch ++ behindBranch := by
  have hfront : Above qt 3 (['k'] ++ '=' :: (key ++ '\n' :: (['n'] ++ '=' :: (name ++ '\n' :: ['b'])))) :=
    (above_of_notMem (by decide)).append breaks_equal (h.append breaks_newline
      ((above_of_notMem (by decide)).append breaks_equal ((above_of_notMem hname).append breaks_newline (above_of_notMem (by decide)))))
  have := arg_field hfront digitValue_three above_behindBranch (fun _ => head?_field) branch
  simpa [behindName, field] using this

theorem data_eq (info : LinkInfo) : info.data qt = arg qt (arg qt (arg qt (['k', '='] ++ info.key ++ behindKey) info.name)
    (branchText info.branch)) (uniqueText info.unique) := by
  rw [← arg_key]
  rfl

theorem data_eq_textOf (hname : Named info.name) (h : Above qt 4 info.key) : info.data qt = textOf info := by
  have hpercent : '%' ∉ info.name := hname.notMem (by decide) (by decide)
  have hfront : Above qt 4 (['k'] ++ '=' :: (info.key ++ '\n' :: (['n'] ++ '=' :: (info.name ++
      '\n' :: (['b'] ++ '=' :: (branchText info.branch ++ '\n' :: ['u'])))))) :=
    (above_of_notMem (by decide)).append breaks_equal (h.append breaks_newline
      ((above_of_notMem (by decide)).append breaks_equal ((above_of_notMem hpercent).append breaks_newline
        ((above_of_notMem (by decide)).append breaks_equal ((above_of_notMem (notMem_branchText (by decide))).append breaks_newline
          (above_of_notMem (by decide)))))))
  have := arg_field (t := []) hfront digitValue_four trivial (fun _ h => by cases h) (uniqueText info.unique)
  rw [data_eq, arg_name (h.mono (by decide)), arg_branch (h.mono (by decide)) hpercent]
  simpa [behindBranch, field, textOf, linesOf, join, List.intercalate] using this

/-! ### The percent signs of the first line -/

/-- The first line has fewer percent signs. -/
def Front (n : Nat) (s : QString) : Prop := ∃ line rest, s = line ++ '\n' :: rest ∧ '\n' ∉ line ∧ line.count '%' < n

theorem Front.arg {n : Nat} {a : QString} (h : Front n s) (hpercent : '%' ∉ a) (hnewline : '\n' ∉ a) : Front n (arg qt s a) := by
  obtain ⟨line, rest, rfl, hline, hcount⟩ := h
  rw [HttpStrings.arg]
  split
  · exact ⟨line, rest, rfl, hline, hcount⟩
  · rw [replaceMarker_break breaks_newline 0 line (Nat.zero_le _)]
    refine ⟨_, _, rfl, fun h => (mem_replaceMarker h).elim hnewline hline, ?_⟩
    exact lt_of_le_of_lt (count_replaceMarker_le hpercent 0 line) hcount

/-- A marker of the first line that is as low as those of the others is filled in. -/
theorem front_arg {m n : Nat} {line rest a : QString} (hline : '\n' ∉ line) (hlow : lowestMarker qt line = some m)
    (hrest : Above qt n rest) (hm : m ≤ n + 1) (hpercent : '%' ∉ a) (hnewline : '\n' ∉ a) :
    Front (line.count '%') (arg qt (line ++ '\n' :: rest) a) := by
  have hlowest : lowestMarker qt (line ++ '\n' :: rest) = some m := by
    rw [lowestMarker_break breaks_newline, hlow, Option.elim_some]
    cases hk : lowestMarker qt rest with
    | none => rfl
    | some k => exact congrArg some (min_eq_left (hm.trans (above_iff.mp hrest k hk)))
  rw [HttpStrings.arg, hlowest]
  simp only
  rw [replaceMarker_break breaks_newline 0 line (Nat.zero_le _)]
  exact ⟨_, _, rfl, fun h => (mem_replaceMarker h).elim hnewline hline, count_replaceMarker_lt hpercent hlow⟩

theorem lowestMarker_line (key : QString) : lowestMarker qt (['k', '='] ++ key) = lowestMarker qt key := by
  simp [lowestMarker, marker]

theorem count_line (key : QString) : (['k', '='] ++ key).count '%' = key.count '%' := by simp

theorem notMem_uniqueText {c : Char} {unique : Bool} (h₁ : c ≠ '1') (h₂ : c ≠ '*') : c ∉ uniqueText unique := by
  cases unique with
  | false => simpa [uniqueText] using h₂
  | true => simpa [uniqueText] using h₁

/-- The markers of a key are filled in by one of the last three arguments. -/
theorem front_data {m : Nat} (hname : Named info.name) (hkey : '\n' ∉ info.key) (hlow : lowestMarker qt info.key = some m) (hm : m ≤ 4) :
    Front (info.key.count '%') (info.data qt) := by
  have hline : '\n' ∉ ['k', '='] ++ info.key := by simpa using hkey
  have hpercent : '%' ∉ info.name := hname.notMem (by decide) (by decide)
  have hnewline : '\n' ∉ info.name := hname.notMem (by decide) (by decide)
  have hlow' := (lowestMarker_line info.key).trans hlow
  rw [data_eq, ← count_line]
  by_cases h₂ : m ≤ 2
  · exact ((front_arg hline hlow' above_behindKey.2 h₂ hpercent hnewline).arg (notMem_branchText (by decide))
      (notMem_branchText (by decide))).arg (notMem_uniqueText (by decide) (by decide)) (notMem_uniqueText (by decide) (by decide))
  · rw [arg_name (above_of_lowestMarker hlow (not_le.mp h₂))]
    by_cases h₃ : m ≤ 3
    · have hrest : Above qt 2 (['n', '='] ++ info.name ++ behindName) :=
        (above_of_notMem (by simpa using hpercent)).append breaks_newline above_behindName.2
      have := front_arg hline hlow' hrest h₃ (a := branchText info.branch) (notMem_branchText (by decide)) (notMem_branchText (by decide))
      refine Front.arg ?_ (notMem_uniqueText (by decide) (by decide)) (notMem_uniqueText (by decide) (by decide))
      simpa using this
    · have hname' : '%' ∉ ['n', '='] ++ info.name := by simpa using hpercent
      have hbranch : '%' ∉ ['b', '='] ++ branchText info.branch := by simpa using notMem_branchText (by decide)
      have hrest : Above qt 3 (['n', '='] ++ info.name ++ '\n' :: (['b', '='] ++ branchText info.branch ++ behindBranch)) :=
        (above_of_notMem hname').append breaks_newline ((above_of_notMem hbranch).append breaks_newline above_behindBranch.2)
      have := front_arg hline hlow' hrest hm (a := uniqueText info.unique) (notMem_uniqueText (by decide) (by decide))
        (notMem_uniqueText (by decide) (by decide))
      rw [arg_branch (above_of_lowestMarker hlow (not_le.mp h₃)) hpercent]
      simpa using this

/-- A link is read back as it is. -/
def RoundTrips (qt : Qt L) (info : LinkInfo) : Prop := ({} : LinkInfo).fromData qt (info.data qt) = .ok info

theorem not_front_of_fromData {d : QString} (h : ({} : LinkInfo).fromData qt d = .ok info) : ¬Front (info.key.count '%') d := by
  rintro ⟨line, rest, rfl, hline, hcount⟩
  obtain ⟨lines, hsplit, -⟩ := key_of_fromData h
  rw [List.splitOn_append_cons_self_of_not_mem hline] at hsplit
  obtain ⟨rfl, -⟩ := List.cons.inj hsplit
  exact absurd (count_line info.key) hcount.ne

theorem roundTrips_iff (hname : Named info.name) : RoundTrips qt info ↔ Readable qt info.key := by
  constructor
  · intro h
    obtain ⟨-, -, hplain⟩ := key_of_fromData h
    refine ⟨hplain, above_iff.mpr fun m hm => ?_⟩
    by_contra hle
    exact not_front_of_fromData h (front_data hname hplain.newline hm (not_lt.mp hle))
  · intro h
    rw [RoundTrips, data_eq_textOf hname h.markers]
    exact fromData_textOf hname h.toPlain

end Links
end Snapwebsites
