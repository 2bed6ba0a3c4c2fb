import Snapwebsites.Dbutils.Lossless

/-! # Names of columns

`get_column_name()` prints the key of a column, and `set_column_name()` makes a key of such a text. Which layout the key has is
decided by the names of the table and of the row, by one chain of conditions that both functions have (`rowKind`). -/

namespace Snapwebsites
namespace Dbutils
open QString

/-! ### Tables and rows -/

inductive RowKind
  | md5
  | list
  | images
  | branch
  | scripts
  | users
  | number
  | time
  | bounces
  | text
deriving DecidableEq

/-- The conditions on `f_tableName` and `f_rowName`; a branch also looks at the key or the name. -/
def rowKind (tableName rowName : QString) : RowKind :=
  if tableName = "files".toList ∧ rowName = "new".toList then .md5
  else if tableName = "list".toList ∧ rowName ≠ "*standalone*".toList then .list
  else if tableName = "files".toList ∧ rowName = "images".toList then .images
  else if tableName = "branch".toList then .branch
  else if tableName = "files".toList ∧ rowName = "javascripts".toList ∨ tableName = "files".toList ∧ rowName = "css".toList then .scripts
  else if tableName = "users".toList then .users
  else if tableName = "shorturl".toList ∧ "/*index_row*".toList <:+ rowName ∨ tableName = "serverstats".toList then .number
  else if tableName = "tracker".toList ∨ tableName = "backend".toList ∧ ¬ ['*'] <+: rowName ∨
    tableName = "firewall".toList ∧ ¬ "ip::".toList <+: rowName then .time
  else if tableName = "emails".toList ∧ rowName = "bounced_raw".toList then .bounces
  else .text

/-- `content_attachment_reference` -/
def reference : QString := "content::attachment::reference::".toList

/-- `uuid_unparse()` and `uuid_parse()`, which are not part of the repository. -/
structure Uuid where
  unparse : Bytes → QString
  parse : QString → Bytes
  parse_unparse : ∀ b, b.length = 16 → parse (unparse b) = b

/-! ### Printing -/

/-- `name += key[i]`: the byte is taken for a character of Latin-1. -/
def latin1 (b : UInt8) : Char := Char.ofNat b.toNat

/-- The numbers of a version, on four bytes each. -/
def versionOf (A : Accessors) : Bytes → List UInt32
  | a :: b :: c :: d :: key => safeValueOf A.uint32Value 0 (a :: b :: c :: d :: key) :: versionOf A key
  | _ => []

/-- `<name>_<browser>_<version>`; the counter is the number of underscores left to find. -/
def scriptName (A : Accessors) : Nat → Bytes → QString
  | 0, key => join '.' ((versionOf A key).map fun n => number n.toNat)
  | _ + 1, [] => []
  | sep + 1, b :: key => latin1 b :: scriptName A (if b = 0x5F then sep else sep + 1) key

/-- `get_column_name()` -/
def getColumnName (A : Accessors) (U : Uuid) (tableName rowName : QString) (key : Bytes) : QString :=
  match rowKind tableName rowName with
  | .md5 => keyToString key
  | .list =>
    number (safeValueOf A.unsignedCharValue 0 key).toNat ++
      ' ' :: microsecondsToString (safeValueOf A.int64Value 0 (key.drop 1)).toInt true ++ ' ' :: A.stringValue (key.drop 9)
  | .images => microsecondsToString (safeValueOf A.int64Value 0 key).toInt true ++ ' ' :: A.stringValue (key.drop 8)
  | .branch => if reference.utf8 <+: key then reference ++ keyToString (key.drop reference.length) else fromCString key
  | .scripts => scriptName A 2 key
  | .users => A.stringValue key
  | .number => number (safeValueOf A.int64Value 0 key).toInt
  | .time => microsecondsToString (safeValueOf A.int64Value 0 key).toInt true
  | .bounces => microsecondsToString (safeValueOf A.int64Value 0 key).toInt true ++
    if 24 ≤ key.length then ' ' :: U.unparse ((key.drop 8).take 16) else []
  | .text => fromCString key

/-! ### Reading -/

/-- `arr[0][0].toLatin1()` -/
def firstLatin1 (s : QString) : UInt8 :=
  match s.flatMap utf16 with
  | u :: _ => if u < 256 then UInt8.ofNat u else 0
  | [] => 0

/-- `set_column_name()` on an empty key; nothing when it throws. -/
def setColumnName (A : Accessors) (Q : ToDouble) (U : Uuid) (tableName rowName name : QString) : Option Bytes :=
  match rowKind tableName rowName with
  | .md5 => stringToKey name
  | .list =>
    match name.splitOn ' ' with
    | [priority, time, str] =>
      some (A.unsignedCharValue.write (firstLatin1 priority) ++ A.int64Value.write (Int64.ofInt (stringToMicroseconds Q time)) ++ utf8 str)
    | _ => none
  | .images =>
    match name.splitOn ' ' with
    | [time, str] => some (A.int64Value.write (Int64.ofInt (stringToMicroseconds Q time)) ++ utf8 str)
    | _ => none
  | .branch => some (if reference <+: name then reference.utf8 ++ name.utf8 else name.utf8)
  | .scripts =>
    match name.splitOn '_' with
    | [script, browser, version] =>
      some (utf8 (script ++ ['_']) ++ utf8 (browser ++ ['_']) ++
        (version.splitOn '.').flatMap fun rev => A.uint32Value.write (UInt32.ofNat ((toUInt rev).getD 0)))
    | _ => none
  | .users => some name.utf8
  | .number => some (A.int64Value.write (Int64.ofInt ((toLongLong name).getD 0)))
  | .time => some (A.int64Value.write (Int64.ofInt (stringToMicroseconds Q name)))
  | .bounces => some <|
    match name.splitOn ' ' with
    | [time, uuid] => A.int64Value.write (Int64.ofInt (stringToMicroseconds Q time)) ++ U.parse uuid
    | _ => A.int64Value.write (Int64.ofInt (stringToMicroseconds Q name))
  | .text => some name.utf8

/-! ### Keys -/

/-- The keys of each layout. -/
inductive Key
  | md5 (sum : Bytes) (h : sum.length = 16)
  | list (priority : UInt8) (t : Time) (s : QString)
  | image (t : Time) (s : QString)
  | attachment (sum : Bytes) (h : sum.length = 16)
  | script (name browser : QString) (version : List UInt32) (hname : '_' ∉ name) (hbrowser : '_' ∉ browser)
  | user (s : QString)
  | number (n : Int64)
  | time (t : Time)
  | bounce (t : Time) (uuid : Option Bytes) (h : ∀ b ∈ uuid, b.length = 16)
  | text (s : QString)

namespace Key

def bytes (A : Accessors) : Key → Bytes
  | md5 sum _ => sum
  | list priority t s => A.unsignedCharValue.write priority ++ A.int64Value.write t.value ++ s.utf8
  | image t s => A.int64Value.write t.value ++ s.utf8
  | attachment sum _ => reference.utf8 ++ sum
  | script name browser version _ _ => name.utf8 ++ 0x5F :: browser.utf8 ++ 0x5F :: version.flatMap A.uint32Value.write
  | user s => s.utf8
  | number n => A.int64Value.write n
  | time t => A.int64Value.write t.value
  | bounce t uuid _ => A.int64Value.write t.value ++ uuid.getD []
  | text s => s.utf8

/-- The rows that have such keys. Of the keys of a branch those that do not start as an attachment reference does are texts. -/
def Of (tableName rowName : QString) : Key → Prop
  | md5 _ _ => rowKind tableName rowName = .md5
  | list _ _ _ => rowKind tableName rowName = .list
  | image _ _ => rowKind tableName rowName = .images
  | attachment _ _ => rowKind tableName rowName = .branch
  | script _ _ _ _ _ => rowKind tableName rowName = .scripts
  | user _ => rowKind tableName rowName = .users
  | number _ => rowKind tableName rowName = .number
  | time _ => rowKind tableName rowName = .time
  | bounce _ _ _ => rowKind tableName rowName = .bounces
  | text s => rowKind tableName rowName = .text ∨ rowKind tableName rowName = .branch ∧ ¬ reference.utf8 <+: s.utf8

/-- The keys that come back: a printed time has more blanks than the parts of lists, images and bounces allow for, the reference
    of an attachment is put in front of its name once more, a script is read as Latin-1 and always gets a version, and texts end
    at a NUL and lose a byte order mark. -/
def Invertible : Key → Prop
  | md5 _ _ => True
  | list _ _ _ => False
  | image _ _ => False
  | attachment _ _ => False
  | script name browser version _ _ => (∀ c ∈ name ++ browser, c.toNat < 128) ∧ version ≠ []
  | user s => s.head? ≠ some bom
  | number _ => True
  | time t => ¬ Cut (t.value.toInt % 60000000).toNat
  | bounce t uuid _ => uuid = none ∧ ¬ Cut (t.value.toInt % 60000000).toNat
  | text s => nul ∉ s ∧ s.head? ≠ some bom

end Key

/-! ### Scripts -/

section
variable {A : Accessors} {s : QString}

theorem toNat_latin1 (b : UInt8) : (latin1 b).toNat = b.toNat := SnapUri.toNat_ofNat_byte b

theorem underscore_notMem_latin1 {b : Bytes} (h : 0x5F ∉ b) : '_' ∉ b.map latin1 := fun hmem => by
  obtain ⟨x, hx, heq⟩ := List.mem_map.mp hmem
  have hnat := congrArg Char.toNat heq
  rw [toNat_latin1] at hnat
  exact h (by rwa [show x = 0x5F from UInt8.toNat_inj.mp hnat] at hx)

theorem underscore_notMem_utf8 (h : '_' ∉ s) : 0x5F ∉ s.utf8 := fun hmem => by
  obtain ⟨c, hc, hbyte⟩ := List.mem_flatMap.mp hmem
  have hunderscore : c = '_' := Char.toNat_inj.mp (toNat_eq_of_mem hbyte (by decide))
  exact h (hunderscore ▸ hc)

theorem scriptName_append (sep : Nat) {a : Bytes} (h : 0x5F ∉ a) (key : Bytes) :
    scriptName A (sep + 1) (a ++ 0x5F :: key) = a.map latin1 ++ '_' :: scriptName A sep key := by
  induction a with
  | nil =>
    have hchar : latin1 0x5F = '_' := by decide
    rw [List.nil_append, scriptName, if_pos rfl, hchar]
    rfl
  | cons b a ih =>
    rw [List.mem_cons, not_or] at h
    obtain ⟨hb, ha⟩ := h
    rw [List.cons_append, scriptName, if_neg (Ne.symm hb), ih ha, List.map_cons, List.cons_append]

theorem versionOf_flatMap : ∀ version : List UInt32, versionOf A (version.flatMap A.uint32Value.write) = version
  | [] => rfl
  | n :: version => by
    have hlength := A.uint32Value_length n
    have hfirst := safeValueOf_append A.uint32Value 0 n (version.flatMap A.uint32Value.write)
    rw [List.flatMap_cons]
    rcases hwrite : A.uint32Value.write n with _ | ⟨a, _ | ⟨b, _ | ⟨c, _ | ⟨d, _ | ⟨e, rest⟩⟩⟩⟩⟩ <;> rw [hwrite] at hlength
    case cons.cons.cons.cons.nil =>
      rw [hwrite] at hfirst
      simp only [List.cons_append, List.nil_append] at hfirst ⊢
      rw [versionOf, hfirst, versionOf_flatMap version]
    all_goals simp at hlength

/-- The revisions that are read of a version that is printed. -/
theorem revisions_join {version : List UInt32} (h : version ≠ []) :
    ((join '.' (version.map fun n => number n.toNat)).splitOn '.').flatMap (fun rev => A.uint32Value.write (UInt32.ofNat ((toUInt rev).getD 0))) =
      version.flatMap A.uint32Value.write := by
  have hdot : ∀ part ∈ version.map fun n => number n.toNat, '.' ∉ part := fun part hpart hmem => by
    obtain ⟨n, -, rfl⟩ := List.mem_map.mp hpart
    have := isDigit_of_mem_number hmem
    revert this
    decide
  rw [join, List.splitOn_intercalate '.' hdot (by simpa using h), List.flatMap_map]
  refine List.flatMap_congr fun n _ => ?_
  rw [toUInt_number n.toNat_lt, Option.getD_some, UInt32.ofNat_toNat]

/-- Bytes that are taken for Latin-1 do not get fewer, and stay as many only when they are of ASCII. -/
theorem length_utf8_latin1 (b : Bytes) : b.length ≤ (utf8 (b.map latin1)).length ∧
    ((utf8 (b.map latin1)).length = b.length → ∀ x ∈ b, x.toNat < 128) := by
  induction b with
  | nil => exact ⟨le_rfl, fun _ => by simp⟩
  | cons x b ih =>
    obtain ⟨hle, hascii⟩ := ih
    have hpos := (latin1 x).utf8Size_pos
    have hone : (latin1 x).utf8Size = 1 → x.toNat < 128 := fun h => by
      rw [← toNat_latin1 x]
      exact Nat.lt_succ_of_le (Char.utf8Size_eq_one_iff.mp h)
    have hlength : (utf8 ((x :: b).map latin1)).length = (latin1 x).utf8Size + (utf8 (b.map latin1)).length := by
      rw [List.map_cons, utf8, List.flatMap_cons, List.length_append, String.length_utf8EncodeChar, ← utf8]
    rw [hlength, List.length_cons]
    refine ⟨by omega, fun h => List.forall_mem_cons.mpr ⟨hone (by omega), hascii (by omega)⟩⟩

theorem ascii_of_utf8 (h : ∀ x ∈ s.utf8, x.toNat < 128) : ∀ c ∈ s, c.toNat < 128 := fun c hc => by
  have hlength := String.length_utf8EncodeChar c
  have hpos := c.utf8Size_pos
  obtain ⟨x, hx⟩ := List.exists_mem_of_length_pos (by omega : 0 < (String.utf8EncodeChar c).length)
  have hbyte := h x (List.mem_flatMap.mpr ⟨c, hc, hx⟩)
  rw [toNat_eq_of_mem hx hbyte]
  exact hbyte

theorem map_latin1_utf8 (h : ∀ c ∈ s, c.toNat < 128) : s.utf8.map latin1 = s := by
  rw [utf8_ascii h, List.map_map]
  refine List.map_congr_left (fun c hc => ?_) |>.trans (List.map_id s)
  refine Char.toNat_inj.mp ?_
  have hc := h c hc
  rw [Function.comp_apply, toNat_latin1, UInt8.toNat_ofNat']
  show c.toNat % 256 = c.toNat
  omega

end

end Dbutils
end Snapwebsites
