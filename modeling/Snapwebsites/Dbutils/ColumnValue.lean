import Snapwebsites.Dbutils.Keys
import Snapwebsites.Dbutils.Microseconds

/-! # Values of cells

`get_column_value()` prints the value of a cell as the type of its column says, and `set_column_value()` makes a value
of such a text. -/

namespace Snapwebsites
namespace Dbutils
open QString SnapChild SnapChild.Parser

/-- What cassvalue, which is not part of the repository, makes of the bytes of a cell: the formats of the numbers, the texts
    of floating point numbers with the bytes of such texts, and strings. A buffer has a limit to its size, which a value that
    came out of the database keeps and which nothing that is written back for it exceeds. -/
structure Accessors where
  signedCharValue : Format Int8
  unsignedCharValue : Format UInt8
  int16Value : Format Int16
  uint16Value : Format UInt16
  int32Value : Format Int32
  uint32Value : Format UInt32
  int64Value : Format Int64
  uint64Value : Format UInt64
  floatText : Bytes → Option QString
  doubleText : Bytes → Option QString
  ofFloatText : QString → Bytes
  ofDoubleText : QString → Bytes
  stringValue : Bytes → QString
  unsignedCharValue_length : ∀ n, (unsignedCharValue.write n).length = 1
  uint32Value_length : ∀ n, (uint32Value.write n).length = 4
  int64Value_length : ∀ n, (int64Value.write n).length = 8
  uint64Value_length : ∀ n, (uint64Value.write n).length = 8
  stringValue_utf8 : ∀ s, stringValue (utf8 s) = fromUtf8 s

/-- `value.int64Value()` and the like, which throw when there are too few bytes. -/
def valueOf {α : Type} (format : Format α) (value : Bytes) : Option α := (format.read value).map Prod.fst

/-- `value.safeInt64Value()` and the like, which give a zero then. -/
def safeValueOf {α : Type} (format : Format α) (zero : α) (value : Bytes) : α := (valueOf format value).getD zero

/-- `dbutils::column_type_t` -/
inductive ColumnType
  | int8Value
  | uint8Value
  | int16Value
  | uint16Value
  | int32Value
  | uint32Value
  | int64Value
  | uint64Value
  | float32Value
  | float64Value
  | float64OrEmptyValue
  | timeMicroseconds
  | timeSeconds
  | timeMicrosecondsAndString
  | priorityAndTimeMicrosecondsAndString
  | hexarrayValue
  | hexarrayLimitedValue
  | md5arrayValue
  | secureValue
  | statusValue
  | stringValue
  | rightsValue
  | binaryValue
deriving DecidableEq

/-! ### Printing -/

def timeNotSet : QString := "time not set (0)".toList
def notChecked : QString := "not checked (-1)".toList
def notSecure : QString := "not secure (0)".toList
def isSecure : QString := "secure (1)".toList
def unknownSecure : QString := "unknown secure status (".toList
def unknownStatus : QString := "unknown content status (".toList
def hexMark : QString := "(hex) ".toList
def md5Mark : QString := "(md5) ".toList
def errorDetected : QString := "ERROR DETECTED".toList

/-- `QString::replace()` -/
def replace (before after : QString) (s : QString) : QString := replaceMany s [(before, after)]

def escape (s : QString) : QString := replace ['\n'] ['\\', 'n'] (replace ['\r'] ['\\', 'r'] s)

def unescape (s : QString) : QString := replace ['\\', 'n'] ['\n'] (replace ['\\', 'r'] ['\r'] s)

/-- `%Y-%m-%d %H:%M:%S` -/
def secondsText (seconds : Int) : QString := dateText (gmtimeR seconds) ++ ' ' :: clock (gmtimeR seconds)

/-- The bytes of a value with a blank behind each; only some of them where the display is limited. -/
def hexText (displayLen : Nat) (displayOnly limited : Bool) (value : Bytes) : QString :=
  let displayLimited := displayOnly && limited
  let maxLength := if displayLimited then min displayLen value.length else value.length
  (if displayOnly then hexMark else []) ++ (value.take maxLength).flatMap (fun byte => byteToHex byte ++ [' ']) ++
    if displayLimited ∧ value.length > maxLength then ['.', '.', '.'] else []

def secureText (secure : Int) : QString :=
  if secure = -1 then notChecked
  else if secure = 0 then notSecure
  else if secure = 1 then isSecure
  else unknownSecure ++ number secure ++ [')']

/-- The names that are accepted for each status. -/
def statusNames : List (List QString) :=
  [["0".toList, "unknown".toList, "unknown state".toList], ["1".toList, "create".toList], ["2".toList, "normal".toList],
    ["3".toList, "hidden".toList], ["4".toList, "moved".toList], ["5".toList, "deleted".toList]]

/-- The last of its names, which is the one that is displayed. -/
def statusText (status : Nat) : QString :=
  match statusNames[status]? with
  | some names => names.getLastD []
  | none => unknownStatus ++ number status ++ [')']

/-- The text of a value; nothing when the value is too short for its type. -/
def columnText (A : Accessors) (displayLen : Nat) (displayOnly : Bool) (value : Bytes) : ColumnType → Option QString
  | .int8Value => (valueOf A.signedCharValue value).map fun n => number n.toInt
  | .uint8Value => (valueOf A.unsignedCharValue value).map fun n => number n.toNat
  | .int16Value => (valueOf A.int16Value value).map fun n => number n.toInt
  | .uint16Value => (valueOf A.uint16Value value).map fun n => number n.toNat
  | .int32Value => (valueOf A.int32Value value).map fun n => number n.toInt
  | .uint32Value => (valueOf A.uint32Value value).map fun n => number n.toNat
  | .int64Value => (valueOf A.int64Value value).map fun n => number n.toInt
  | .uint64Value => (valueOf A.uint64Value value).map fun n => number n.toNat
  | .float32Value => A.floatText value
  | .float64Value => A.doubleText value
  | .float64OrEmptyValue => if value = [] then some [] else A.doubleText value
  | .timeMicroseconds =>
    let time := safeValueOf A.int64Value 0 value
    some (if time = 0 then timeNotSet else microsecondsToString time.toInt true)
  | .timeMicrosecondsAndString =>
    some (microsecondsToString (safeValueOf A.int64Value 0 value).toInt true ++ ' ' :: A.stringValue (value.drop 8))
  | .priorityAndTimeMicrosecondsAndString =>
    some (number (safeValueOf A.unsignedCharValue 0 value).toNat ++
      ' ' :: microsecondsToString (safeValueOf A.int64Value 0 (value.drop 1)).toInt true ++ ' ' :: A.stringValue (value.drop 9))
  | .timeSeconds => (valueOf A.uint64Value value).map fun time =>
    if time = 0 then timeNotSet
    else secondsText time.toInt64.toInt ++ if displayOnly then [' ', '('] ++ number time.toNat ++ [')'] else []
  | .binaryValue => some (hexText displayLen displayOnly false value)
  | .hexarrayValue => some (hexText displayLen displayOnly false value)
  | .hexarrayLimitedValue => some (hexText displayLen displayOnly true value)
  | .md5arrayValue => some ((if displayOnly then md5Mark else []) ++ keyToString value)
  | .secureValue => (valueOf A.signedCharValue value).map fun n => secureText n.toInt
  | .statusValue => (valueOf A.uint32Value value).map fun status =>
    if displayOnly then statusText (status.toNat % 256) else number (status.toNat % 256 : Nat)
  | .stringValue => some (escape (A.stringValue value))
  | .rightsValue =>
    some (microsecondsToString (safeValueOf A.int64Value 0 value).toInt true ++ ' ' :: escape (A.stringValue (value.drop 8)))

/-- `get_column_value()`, for a column of a type. -/
def getColumnValue (A : Accessors) (displayLen : Nat) (ct : ColumnType) (value : Bytes) (displayOnly : Bool) : QString :=
  (columnText A displayLen displayOnly value ct).getD errorDetected

/-! ### Reading -/

/-- The names and numbers of `secure`. -/
def secureOf (v : QString) : Option Int8 :=
  if v = notChecked ∨ v = ['-', '1'] then some (-1)
  else if v = notSecure ∨ v = ['0'] then some 0
  else if v = isSecure ∨ v = ['1'] then some 1
  else none

def statusOf (stateName : QString) : Option Nat := statusNames.findIdx? fun names => names.contains stateName

/-- `v.mid(pos + 1)`, where `pos` is the place of the first character: a character of two units leaves the second one behind,
    which has no form in UTF-8. -/
def mid1 : QString → QString
  | [] => []
  | c :: s => if (utf16 c).length = 1 then s else '?' :: s

/-- The permissions behind the parenthesis of the time. -/
def permissions (v : QString) : QString :=
  if v.head? = some ')' then [] else mid1 ((v.dropWhile (· ≠ ')')).tail.dropWhile isSpace)

/-- `set_column_value()`, for a column of a type; nothing when it throws. The value is empty when a time is not one. -/
def setColumnValue (A : Accessors) (Q : ToDouble) (ct : ColumnType) (v : QString) : Option Bytes :=
  match ct with
  | .int8Value => some (A.signedCharValue.write (Int8.ofInt (toIntOrZero v)))
  | .uint8Value => some (A.unsignedCharValue.write (UInt8.ofNat ((toUInt v).getD 0)))
  | .int16Value => some (A.int16Value.write (Int8.ofInt (toIntOrZero v)).toInt16)
  | .uint16Value => some (A.uint16Value.write (UInt8.ofNat ((toUInt v).getD 0)).toUInt16)
  | .int32Value => some (A.int32Value.write (Int32.ofInt ((toLongLong v).getD 0)))
  | .uint32Value => some (A.uint32Value.write (UInt32.ofNat ((toULongLong v).getD 0)))
  | .int64Value => some (A.int64Value.write (Int64.ofInt ((toLongLong v).getD 0)))
  | .uint64Value => some (A.uint64Value.write (UInt64.ofNat ((toULongLong v).getD 0)))
  | .float32Value => some (A.ofFloatText v)
  | .float64Value => some (A.ofDoubleText v)
  | .float64OrEmptyValue => some (if v = [] then [] else A.ofDoubleText v)
  | .timeMicroseconds => some (A.int64Value.write (Int64.ofInt (stringToMicroseconds Q v)))
  | .timeMicrosecondsAndString =>
    match v.splitOn ' ' with
    | date :: time :: str => some <| match fromTimestamp Q date time with
      | some t => A.int64Value.write (Int64.ofInt t) ++ (join ' ' str).utf8
      | none => []
    | _ => some []
  | .priorityAndTimeMicrosecondsAndString =>
    match v.splitOn ' ' with
    | priority :: date :: time :: str => some <| match toInt priority, fromTimestamp Q date time with
      | some p, some t => A.unsignedCharValue.write (UInt8.ofInt p) ++ A.int64Value.write (Int64.ofInt t) ++ (join ' ' str).utf8
      | _, _ => []
    | _ => some []
  | .timeSeconds =>
    match v.splitOn ' ' with
    | date :: time :: _ => some <| match fields date time with
      | some tm => A.uint64Value.write (UInt64.ofInt (mkgmtime tm))
      | none => []
    | _ => some []
  | .binaryValue => stringToKey v
  | .hexarrayValue => stringToKey v
  | .hexarrayLimitedValue => stringToKey v
  | .md5arrayValue => stringToKey v
  | .secureValue => (secureOf v).map A.signedCharValue.write
  | .statusValue => (statusOf (trimmed v)).map fun status => A.uint32Value.write (UInt32.ofNat status)
  | .stringValue => some (unescape v).utf8
  | .rightsValue => some (A.int64Value.write (Int64.ofInt (stringToMicroseconds Q v)) ++ (permissions v).utf8)

/-! ### Cells -/

/-- A time of the years from 1970 to 9999, in microseconds. -/
structure Time where
  value : Int64
  isTime : IsTime value.toInt

/-- Such a time in seconds. -/
structure Seconds where
  value : UInt64
  lt : value.toNat < 86400 * (Calendar.daysBeforeYear 10000 - Calendar.daysBeforeYear 1970)

/-- What a column of each of the types holds, but for the floating point ones. -/
inductive Cell
  | int8 (n : Int8)
  | uint8 (n : UInt8)
  | int16 (n : Int16)
  | uint16 (n : UInt16)
  | int32 (n : Int32)
  | uint32 (n : UInt32)
  | int64 (n : Int64)
  | uint64 (n : UInt64)
  | timeMicroseconds (t : Time)
  | timeSeconds (t : Seconds)
  | timeMicrosecondsAndString (t : Time) (s : QString)
  | priorityAndTimeMicrosecondsAndString (priority : UInt8) (t : Time) (s : QString)
  | hexarray (b : Bytes)
  | hexarrayLimited (b : Bytes)
  | md5array (b : Bytes) (h : b.length = 16)
  | secure (n : Int8)
  | status (n : UInt32)
  | string (s : QString)
  | rights (t : Time) (s : QString)
  | binary (b : Bytes)

namespace Cell

def type : Cell → ColumnType
  | int8 _ => .int8Value
  | uint8 _ => .uint8Value
  | int16 _ => .int16Value
  | uint16 _ => .uint16Value
  | int32 _ => .int32Value
  | uint32 _ => .uint32Value
  | int64 _ => .int64Value
  | uint64 _ => .uint64Value
  | timeMicroseconds _ => .timeMicroseconds
  | timeSeconds _ => .timeSeconds
  | timeMicrosecondsAndString _ _ => .timeMicrosecondsAndString
  | priorityAndTimeMicrosecondsAndString _ _ _ => .priorityAndTimeMicrosecondsAndString
  | hexarray _ => .hexarrayValue
  | hexarrayLimited _ => .hexarrayLimitedValue
  | md5array _ _ => .md5arrayValue
  | secure _ => .secureValue
  | status _ => .statusValue
  | string _ => .stringValue
  | rights _ _ => .rightsValue
  | binary _ => .binaryValue

def bytes (A : Accessors) : Cell → Bytes
  | int8 n => A.signedCharValue.write n
  | uint8 n => A.unsignedCharValue.write n
  | int16 n => A.int16Value.write n
  | uint16 n => A.uint16Value.write n
  | int32 n => A.int32Value.write n
  | uint32 n => A.uint32Value.write n
  | int64 n => A.int64Value.write n
  | uint64 n => A.uint64Value.write n
  | timeMicroseconds t => A.int64Value.write t.value
  | timeSeconds t => A.uint64Value.write t.value
  | timeMicrosecondsAndString t s => A.int64Value.write t.value ++ s.utf8
  | priorityAndTimeMicrosecondsAndString priority t s => A.unsignedCharValue.write priority ++ A.int64Value.write t.value ++ s.utf8
  | hexarray b => b
  | hexarrayLimited b => b
  | md5array b _ => b
  | secure n => A.signedCharValue.write n
  | status n => A.uint32Value.write n
  | string s => s.utf8
  | rights t s => A.int64Value.write t.value ++ s.utf8
  | binary b => b

/-- The values that are not changed into others: `int16` and `uint16` are narrowed to a byte, a time of zero has a text that
    is no time, a time loses a microsecond where its double does, the number of a time stays in front of the string behind it,
    a status keeps its low byte only, a string its backslashes only where no `r` nor `n` follows, and rights lose their first
    character. -/
def Lossless : Cell → Prop
  | int16 n => -128 ≤ n.toInt ∧ n.toInt ≤ 127
  | uint16 n => n.toNat < 256
  | timeMicroseconds t => t.value ≠ 0 ∧ ¬ Cut (t.value.toInt % 60000000).toNat
  | timeSeconds t => t.value ≠ 0
  | timeMicrosecondsAndString _ _ => False
  | priorityAndTimeMicrosecondsAndString _ _ _ => False
  | status n => n.toNat < 256 ∨ 6 ≤ n.toNat % 256
  | string s => s.head? ≠ some bom ∧ ¬ ['\\', 'r'] <:+: s ∧ ¬ ['\\', 'n'] <:+: s
  | rights t s => s = [] ∧ ¬ Cut (t.value.toInt % 60000000).toNat
  | _ => True

end Cell
end Dbutils
end Snapwebsites
