import Snapwebsites.Dbutils.ColumnName

/-! # Names that are edited

The name of a column, unedited, makes the key of the column again: for each layout of the keys the ones that come back are those
of `Key.Invertible` (`setColumnName_getColumnName_iff`). -/

namespace Snapwebsites
namespace Dbutils
open QString

section
variable {A : Accessors} {Q : ToDouble} {U : Uuid} {tableName rowName : QString}

theorem some_eq_iff {a b : Bytes} : (some a = some b) ↔ a = b := Option.some_inj

/-! ### Times -/

theorem time_inj {n m : Int64} : A.int64Value.write n = A.int64Value.write m ↔ n = m := write_inj_iff A.int64Value

/-- A name with a time and a text has more than three parts. -/
theorem list_throws (h : rowKind tableName rowName = .list) (priority : UInt8) (t : Time) (s : QString) :
    setColumnName A Q U tableName rowName (getColumnName A U tableName rowName ((Key.list priority t s).bytes A)) = none := by
  have hpriority : ' ' ∉ number (priority.toNat : Int) := fun h => by
    have := isDigit_of_mem_number h
    revert this
    decide
  have hkey : (A.unsignedCharValue.write priority ++ A.int64Value.write t.value ++ s.utf8).drop 1 = A.int64Value.write t.value ++ s.utf8 := by
    rw [List.append_assoc, List.drop_left' (A.unsignedCharValue_length priority)]
  have hfirst : safeValueOf A.unsignedCharValue 0 (A.unsignedCharValue.write priority ++ A.int64Value.write t.value ++ s.utf8) = priority := by
    rw [List.append_assoc, safeValueOf_append]
  obtain ⟨p, parts, hparts⟩ := List.exists_cons_of_ne_nil
    (List.splitOn_ne_nil ' ' (A.stringValue ((A.unsignedCharValue.write priority ++ A.int64Value.write t.value ++ s.utf8).drop 9)))
  rw [setColumnName, getColumnName, h]
  dsimp only
  rw [Key.bytes, hfirst, hkey, safeValueOf_append, List.append_assoc, List.cons_append,
    List.splitOn_append_cons_self_of_not_mem hpriority, splitOn_time t.isTime, hparts]

theorem images_throws (h : rowKind tableName rowName = .images) (t : Time) (s : QString) :
    setColumnName A Q U tableName rowName (getColumnName A U tableName rowName ((Key.image t s).bytes A)) = none := by
  obtain ⟨p, parts, hparts⟩ := List.exists_cons_of_ne_nil
    (List.splitOn_ne_nil ' ' (A.stringValue ((A.int64Value.write t.value ++ s.utf8).drop 8)))
  rw [setColumnName, getColumnName, h]
  dsimp only
  rw [Key.bytes, safeValueOf_append, splitOn_time t.isTime, hparts]

theorem time_kept_iff (h : rowKind tableName rowName = .time) (t : Time) :
    setColumnName A Q U tableName rowName (getColumnName A U tableName rowName ((Key.time t).bytes A)) = some ((Key.time t).bytes A) ↔
      ¬ Cut (t.value.toInt % 60000000).toNat := by
  rw [setColumnName, getColumnName, h]
  dsimp only
  rw [Key.bytes, safeValueOf_write, stringToMicroseconds_microsecondsToString Q t.isTime, some_eq_iff, time_inj, readTime_eq_iff]

/-- The name of a bounce has three parts at least, so that it is always taken for a time. -/
theorem bounces_kept_iff (h : rowKind tableName rowName = .bounces) (t : Time) (uuid : Option Bytes) (huuid : ∀ b ∈ uuid, b.length = 16) :
    setColumnName A Q U tableName rowName (getColumnName A U tableName rowName ((Key.bounce t uuid huuid).bytes A)) =
        some ((Key.bounce t uuid huuid).bytes A) ↔
      uuid = none ∧ ¬ Cut (t.value.toInt % 60000000).toNat := by
  have htime := A.int64Value_length t.value
  rw [setColumnName, getColumnName, h]
  dsimp only
  cases uuid with
  | none =>
    have hkey : (Key.bounce t none huuid).bytes A = A.int64Value.write t.value := List.append_nil _
    rw [hkey, htime, if_neg (by decide), List.append_nil, safeValueOf_write, splitOn_microsecondsToString t.isTime]
    dsimp only
    rw [stringToMicroseconds_microsecondsToString Q t.isTime, some_eq_iff, time_inj, readTime_eq_iff]
    exact ⟨fun hcut => ⟨rfl, hcut⟩, And.right⟩
  | some b =>
    have hb := huuid b rfl
    have hkey : (Key.bounce t (some b) huuid).bytes A = A.int64Value.write t.value ++ b := rfl
    have hlength : (A.int64Value.write t.value ++ b).length = 24 := by rw [List.length_append, htime, hb]
    obtain ⟨p, parts, hparts⟩ := List.exists_cons_of_ne_nil
      (List.splitOn_ne_nil ' ' (U.unparse (((A.int64Value.write t.value ++ b).drop 8).take 16)))
    rw [hkey, hlength, if_pos le_rfl, safeValueOf_append, splitOn_time t.isTime, hparts]
    dsimp only
    rw [some_eq_iff]
    refine iff_of_false (fun heq => ?_) fun h => Option.some_ne_none _ h.1
    have := congrArg List.length heq
    rw [A.int64Value_length, hlength] at this
    omega

/-! ### Texts -/

theorem takeWhile_utf8 (s : QString) : s.utf8.takeWhile (· ≠ 0) = (constData s).utf8 := by
  induction s with
  | nil => rfl
  | cons c s ih =>
    by_cases hc : c = nul
    · subst hc
      have hnul : constData (nul :: s) = [] := takeWhile_ne_cons s
      rw [hnul]
      rfl
    · have hzero : ∀ x ∈ String.utf8EncodeChar c, decide (x ≠ 0) = true := fun x hx =>
        decide_eq_true fun h0 : x = 0 => hc (Char.toNat_inj.mp (toNat_eq_of_mem (h0 ▸ hx) (by decide)))
      have hcons : constData (c :: s) = c :: constData s := List.takeWhile_cons_of_pos (decide_eq_true hc)
      rw [hcons, utf8, List.flatMap_cons, List.takeWhile_append_of_pos hzero, ← utf8, ih]
      rfl

theorem fromCString_eq_self_iff (s : QString) : fromCString s.utf8 = s ↔ nul ∉ s ∧ s.head? ≠ some bom := by
  rw [fromCString, takeWhile_utf8, decodeUtf8_utf8]
  constructor
  · intro h
    have hsub := fromUtf8_sublist (constData s)
    have hcut := constData_sublist s
    have hlength := congrArg List.length h
    have hself : constData s = s := hcut.eq_of_length (le_antisymm hcut.length_le (by rw [← hlength]; exact hsub.length_le))
    have hnul := nul_notMem_constData s
    rw [hself] at h hnul
    exact ⟨hnul, (fromUtf8_eq_self_iff s).mp h⟩
  · rintro ⟨hnul, hbom⟩
    rw [constData_eq_self hnul, fromUtf8_eq_self hbom]

theorem utf8_append (s t : QString) : utf8 (s ++ t) = s.utf8 ++ t.utf8 := List.flatMap_append

theorem text_kept_iff (s : QString) (h : (Key.text s).Of tableName rowName) :
    setColumnName A Q U tableName rowName (getColumnName A U tableName rowName s.utf8) = some s.utf8 ↔ nul ∉ s ∧ s.head? ≠ some bom := by
  rw [setColumnName, getColumnName]
  rcases h with h | ⟨h, hreference⟩ <;> rw [h] <;> dsimp only
  · rw [some_eq_iff, utf8_eq_iff, fromCString_eq_self_iff]
  · rw [if_neg hreference, some_eq_iff]
    split_ifs with hprefix
    · -- the name starts as a reference, which the key does not
      refine iff_of_false (fun heq => hreference ⟨_, heq⟩) fun hself => hreference ?_
      rw [(fromCString_eq_self_iff s).mpr hself] at hprefix
      obtain ⟨rest, rfl⟩ := hprefix
      exact ⟨utf8 rest, (utf8_append _ _).symm⟩
    · rw [utf8_eq_iff, fromCString_eq_self_iff]

/-- The reference is in front of the key twice. -/
theorem attachment_not_kept (h : rowKind tableName rowName = .branch) (sum : Bytes) (hsum : sum.length = 16) :
    setColumnName A Q U tableName rowName (getColumnName A U tableName rowName ((Key.attachment sum hsum).bytes A)) ≠
      some ((Key.attachment sum hsum).bytes A) := by
  have hreference : reference.utf8.length = 32 := by decide
  rw [setColumnName, getColumnName, h]
  dsimp only
  rw [Key.bytes, if_pos (List.prefix_append _ _), if_pos (List.prefix_append _ _), ne_eq, some_eq_iff, List.append_cancel_left_eq]
  intro heq
  have hlength := congrArg List.length heq
  rw [utf8_append, List.length_append, hreference, hsum] at hlength
  omega

/-! ### Scripts -/

theorem underscore_notMem_version (version : List UInt32) : '_' ∉ join '.' (version.map fun n => number n.toNat) :=
  notMem_join (by decide) fun part hpart hmem => by
    obtain ⟨n, -, rfl⟩ := List.mem_map.mp hpart
    have := isDigit_of_mem_number hmem
    revert this
    decide

theorem scripts_kept_iff (h : rowKind tableName rowName = .scripts) (name browser : QString) (version : List UInt32)
    (hname : '_' ∉ name) (hbrowser : '_' ∉ browser) :
    setColumnName A Q U tableName rowName (getColumnName A U tableName rowName ((Key.script name browser version hname hbrowser).bytes A)) =
        some ((Key.script name browser version hname hbrowser).bytes A) ↔
      (∀ c ∈ name ++ browser, c.toNat < 128) ∧ version ≠ [] := by
  have hunderscore : utf8 ['_'] = [0x5F] := by decide
  have htext : scriptName A 2 ((Key.script name browser version hname hbrowser).bytes A) =
      name.utf8.map latin1 ++ '_' :: (browser.utf8.map latin1 ++ '_' :: join '.' (version.map fun n => number n.toNat)) := by
    rw [Key.bytes, List.append_assoc, List.cons_append, scriptName_append 1 (underscore_notMem_utf8 hname),
      scriptName_append 0 (underscore_notMem_utf8 hbrowser), scriptName, versionOf_flatMap]
  have hsplit : (scriptName A 2 ((Key.script name browser version hname hbrowser).bytes A)).splitOn '_' =
      [name.utf8.map latin1, browser.utf8.map latin1, join '.' (version.map fun n => number n.toNat)] := by
    rw [htext, List.splitOn_append_cons_self_of_not_mem (underscore_notMem_latin1 (underscore_notMem_utf8 hname)),
      List.splitOn_append_cons_self_of_not_mem (underscore_notMem_latin1 (underscore_notMem_utf8 hbrowser)),
      List.splitOn_eq_singleton (underscore_notMem_version version)]
  rw [setColumnName, getColumnName, h]
  dsimp only
  rw [hsplit]
  dsimp only
  rw [some_eq_iff, utf8_append, utf8_append, hunderscore]
  constructor
  · intro heq
    obtain ⟨hle, hascii⟩ := length_utf8_latin1 name.utf8
    obtain ⟨hle', hascii'⟩ := length_utf8_latin1 browser.utf8
    have hlength := congrArg List.length heq
    rcases List.eq_nil_or_concat version with rfl | ⟨front, last, rfl⟩
    · simp [Key.bytes, join, A.uint32Value_length] at hlength
      omega
    · have hne : front.concat last ≠ [] := by simp
      rw [revisions_join hne] at hlength
      simp only [Key.bytes, List.length_append, List.length_cons, List.length_nil] at hlength
      refine ⟨fun c hc => ?_, hne⟩
      rcases List.mem_append.mp hc with hc | hc
      · exact ascii_of_utf8 (hascii (by omega)) c hc
      · exact ascii_of_utf8 (hascii' (by omega)) c hc
  · rintro ⟨hascii, hne⟩
    obtain ⟨hname', hbrowser'⟩ := List.forall_mem_append.mp hascii
    rw [revisions_join hne, map_latin1_utf8 hname', map_latin1_utf8 hbrowser', Key.bytes]
    simp

/-! ### Keys -/

/-- The name of a key makes the same key exactly when the key is invertible. -/
theorem setColumnName_getColumnName_iff (A : Accessors) (Q : ToDouble) (U : Uuid) (tableName rowName : QString) (key : Key)
    (h : key.Of tableName rowName) :
    setColumnName A Q U tableName rowName (getColumnName A U tableName rowName (key.bytes A)) = some (key.bytes A) ↔ key.Invertible := by
  cases key with
  | md5 sum hsum =>
    rw [setColumnName, getColumnName, h]
    exact iff_of_true (stringToKey_keyToString hsum) trivial
  | list priority t s =>
    rw [list_throws h]
    exact iff_of_false nofun id
  | image t s =>
    rw [images_throws h]
    exact iff_of_false nofun id
  | attachment sum hsum => exact iff_of_false (attachment_not_kept h sum hsum) id
  | script name browser version hname hbrowser => exact scripts_kept_iff h name browser version hname hbrowser
  | user s =>
    rw [setColumnName, getColumnName, h]
    dsimp only
    rw [Key.bytes, A.stringValue_utf8, some_eq_iff, utf8_eq_iff, fromUtf8_eq_self_iff]
    exact Iff.rfl
  | number n =>
    have h₀ := n.le_toInt
    have h₁ := n.toInt_lt
    rw [setColumnName, getColumnName, h]
    dsimp only
    rw [Key.bytes, safeValueOf_write, toLongLong_of_number (by omega) (by omega), Option.getD_some, Int64.ofInt_toInt]
    exact iff_of_true rfl trivial
  | time t => exact time_kept_iff h t
  | bounce t uuid huuid => exact bounces_kept_iff h t uuid huuid
  | text s => exact text_kept_iff s h

end

/-- Five groups of digits. -/
def Uuid.dashed : Uuid where
  unparse b := keyToString (b.take 4) ++ '-' :: keyToString ((b.drop 4).take 2) ++ '-' :: keyToString ((b.drop 6).take 2) ++
    '-' :: keyToString ((b.drop 8).take 2) ++ '-' :: keyToString (b.drop 10)
  parse s := ((pairs (s.filter (· ≠ '-'))).mapM hexToByte).getD []
  parse_unparse b _ := by
    have hkeep : ∀ key : Bytes, (keyToString key).filter (· ≠ '-') = keyToString key := fun key =>
      List.filter_eq_self.mpr fun c hc => by
        obtain ⟨n, hn, rfl⟩ := mem_keyToString hc
        have hdigit : ∀ n < 16, Nat.digitChar n ≠ '-' := by decide
        exact decide_eq_true (hdigit n hn)
    have happend : ∀ key key' : Bytes, keyToString key ++ keyToString key' = keyToString (key ++ key') := fun _ _ => List.flatMap_append.symm
    have hgroups : b.take 4 ++ (b.drop 4).take 2 ++ (b.drop 6).take 2 ++ (b.drop 8).take 2 ++ b.drop 10 = b := by
      have htake : ∀ m, b.take m ++ (b.drop m).take 2 = b.take (m + 2) := fun m => List.take_add.symm
      rw [htake, htake, htake, List.take_append_drop]
    have hdash : ∀ s : QString, ('-' :: s).filter (· ≠ '-') = s.filter (· ≠ '-') := fun s => List.filter_cons_of_neg (by simp)
    simp only [List.filter_append, hdash, hkeep, happend, hgroups]
    rw [pairs_keyToString, mapM_byteToHex, Option.getD_some]

theorem serverstats_kept :
    setColumnName .network .nearest .dashed "serverstats".toList [] (getColumnName .network .dashed "serverstats".toList []
      ((Key.number 1).bytes .network)) = some ((Key.number 1).bytes .network) :=
  (setColumnName_getColumnName_iff .network .nearest .dashed "serverstats".toList [] (.number 1)
    (show rowKind "serverstats".toList [] = .number by decide)).mpr trivial

/-- The key of a list: what is printed of it is refused. -/
theorem list_not_kept :
    ¬ ∀ (tableName rowName : QString) (key : Key), key.Of tableName rowName →
      setColumnName .network .nearest .dashed tableName rowName (getColumnName .network .dashed tableName rowName (key.bytes .network)) =
        some (key.bytes .network) := fun h => by
  have hrow : rowKind "list".toList [] = .list := by decide
  have hlist := h "list".toList [] (.list 5 ⟨0, by decide, by decide⟩ ['a']) hrow
  rw [list_throws hrow] at hlist
  cases hlist

end Dbutils
end Snapwebsites
