import Snapwebsites.SnapChild.Mkgmtime
import Snapwebsites.SnapUri.Codec

/-! # Dates as texts

`date_to_string()` and `string_to_date()`. The parser reads a C string from the front: each of its functions takes the fields
read so far and the text from `f_s` on, and gives both back, or fails. Behind the text stands its NUL (`peek`). -/

namespace Snapwebsites
namespace SnapChild
open QString

/-! ### The tables -/

def weekDayName : List QString :=
  ["Sunday".toList, "Monday".toList, "Tuesday".toList, "Wedneday".toList, "Thursday".toList, "Friday".toList, "Saturday".toList]

def monthName : List QString :=
  ["January".toList, "February".toList, "Marsh".toList, "April".toList, "May".toList, "June".toList, "July".toList, "August".toList,
    "September".toList, "October".toList, "November".toList, "December".toList]

def monthDays : List Int := [31, 28, 31, 30, 31, 30, 31, 31, 30, 31, 30, 31]

/-- From A to Z; J is not used. -/
def timezoneAdjust : List Int := [-1, -2, -3, -4, -5, -6, -7, -8, -9, 0, -10, -11, -12, 1, 2, 3, 4, 5, 6, 7, 8, 9, 10, 11, 12, 0]

/-! ### Printing -/

inductive DateFormat
  | short
  | shortUs
  | long
  | time
  | email
  | http

/-- `%1` filled with zeros up to a width. -/
def padded (width : Nat) (n : Int) : QString := (number n).leftpad width '0'

/-- The first three letters of a name. -/
def abbreviation (names : List QString) (n : Int) : QString := (names.getD n.toNat []).take 3

/-- `hh:mm:ss` -/
def clock (tm : Tm) : QString := padded 2 tm.hour ++ ':' :: padded 2 tm.min ++ ':' :: padded 2 tm.sec

/-- `dd MMM yyyy hh:mm:ss +0000` -/
def email (tm : Tm) : QString :=
  padded 2 tm.mday ++ ' ' :: abbreviation monthName tm.mon ++ ' ' :: padded 4 (tm.year + 1900) ++ ' ' :: clock tm ++ " +0000".toList

def dateToString (v : Int) (dateFormat : DateFormat) : QString :=
  let timeInfo := gmtimeR (v.tdiv 1000000)
  match dateFormat with
  | .short => number (timeInfo.year + 1900) ++ '-' :: padded 2 (timeInfo.mon + 1) ++ '-' :: padded 2 timeInfo.mday
  | .shortUs => padded 2 (timeInfo.mon + 1) ++ '-' :: padded 2 timeInfo.mday ++ '-' :: number (timeInfo.year + 1900)
  | .long => number (timeInfo.year + 1900) ++ '-' :: padded 2 (timeInfo.mon + 1) ++ '-' :: padded 2 timeInfo.mday ++ 'T' :: clock timeInfo ++ ['Z']
  | .time => clock timeInfo
  | .email => email timeInfo
  | .http => abbreviation weekDayName timeInfo.wday ++ ", ".toList ++ email timeInfo

/-! ### Reading -/

namespace Parser

def byte (c : Char) : UInt8 := UInt8.ofNat c.toNat

/-- The bytes of a text of the source. -/
def bytes (s : QString) : Bytes := s.map byte

/-- `f_s[n]` -/
def peek (s : Bytes) (n : Nat) : UInt8 := s.getD n 0

/-- `isspace()` in the C locale. -/
def isspace (b : UInt8) : Bool := b = 0x20 || (0x09 ≤ b && b ≤ 0x0D)

def isDigit (b : UInt8) : Bool := byte '0' ≤ b && b ≤ byte '9'

def isLetter (b : UInt8) : Bool := byte 'a' ≤ b && b ≤ byte 'z'

def strlen (s : Bytes) : Nat := (s.takeWhile (· ≠ 0)).length

def skipSpaces (s : Bytes) : Bytes := s.dropWhile isspace

/-- The characters of a word, compared one by one from `f_s[0]` on. -/
def begins (s : Bytes) (word : QString) : Bool := (bytes word).isPrefixOf s

/-- Behind the three letters of a name: all of the name when its other letters follow, else just the three. -/
def skipName (name : QString) (s : Bytes) : Bytes :=
  if begins (s.drop 3) (name.drop 3) then s.drop name.length else s.drop 3

def weekDays : List (QString × Nat) :=
  [("mon".toList, 1), ("tue".toList, 2), ("wed".toList, 3), ("thu".toList, 4), ("fri".toList, 5), ("sat".toList, 6), ("sun".toList, 0)]

def parseWeekDay (tm : Tm) (s : Bytes) : Option (Tm × Bytes) := do
  let day ← weekDays.find? fun day => begins s day.1
  pure ({ tm with wday := day.2 }, skipName (weekDayName.getD day.2 []) s)

def months : List (QString × Nat) :=
  [("jan".toList, 0), ("feb".toList, 1), ("mar".toList, 2), ("apr".toList, 3), ("may".toList, 4), ("jun".toList, 5), ("jul".toList, 6),
    ("aug".toList, 7), ("sep".toList, 8), ("oct".toList, 9), ("nov".toList, 10), ("dec".toList, 11)]

def parseMonth (tm : Tm) (s : Bytes) : Option (Tm × Bytes) := do
  let month ← months.find? fun month => begins s month.1
  pure ({ tm with mon := month.2 }, skipSpaces (skipName (monthName.getD month.2 []) s))

/-- The digits are read as an `unsigned int`, which wraps, before they are counted. -/
def integer (minLen maxLen minValue maxValue : Nat) (s : Bytes) : Option (Int × Bytes) :=
  let count := (s.takeWhile isDigit).length
  let result := (s.takeWhile isDigit).foldl (fun result b => (result * 10 + (b.toNat - 48)) % 2 ^ 32) 0
  if count < minLen ∨ count > maxLen ∨ result < minValue ∨ result > maxValue then none
  else some (result, s.dropWhile isDigit)

/-- The character that has to come next. -/
def expect (c : Char) (s : Bytes) : Option Bytes := if peek s 0 = byte c then some (s.drop 1) else none

def parseTime (tm : Tm) (s : Bytes) : Option (Tm × Bytes) := do
  let (hour, s) ← integer 2 2 0 23 s
  let s ← expect ':' s
  let (min, s) ← integer 2 2 0 59 s
  let s ← expect ':' s
  let (sec, s) ← integer 2 2 0 60 s
  pure ({ tm with hour, min, sec }, skipSpaces s)

/-- The zones with a name, and what is added to the hours. -/
def zones : List (QString × Int) :=
  [("ut".toList, 0), ("utc".toList, 0), ("gmt".toList, 0), ("est".toList, -5), ("edt".toList, -4), ("cst".toList, -6), ("cdt".toList, -5),
    ("mst".toList, -7), ("mdt".toList, -6), ("pst".toList, -8), ("pdt".toList, -7)]

def isZone (s : Bytes) (zone : QString) : Bool := begins s zone && peek s zone.length = 0

/-- `+hhmm` or `-hhmm` -/
def isNumericZone (s : Bytes) : Bool :=
  (peek s 0 = byte '+' || peek s 0 = byte '-') && isDigit (peek s 1) && isDigit (peek s 2) && isDigit (peek s 3) &&
    isDigit (peek s 4) && peek s 5 = 0

/-- `(f_s[n] - '0') * 10 + f_s[n + 1] - '0'` -/
def twoDigits (s : Bytes) (n : Nat) : Int := ((peek s n).toNat - 48) * 10 + (peek s (n + 1)).toNat - 48

/-- The first character of a zone, as a factor. -/
def zoneSign (s : Bytes) : Int := if peek s 0 = byte '+' then 1 else -1

def parseTimezone (tm : Tm) (s : Bytes) : Option Tm :=
  if peek s 0 = 0 then some tm
  else match zones.find? fun zone => isZone s zone.1 with
    | some zone => some { tm with hour := tm.hour + zone.2 }
    | none =>
      if isLetter (peek s 0) && peek s 0 ≠ byte 'j' && peek s 1 = 0 then
        some { tm with hour := tm.hour + timezoneAdjust.getD ((peek s 0).toNat - 97) 0 }
      else if isNumericZone s then
        some { tm with hour := tm.hour + twoDigits s 1 * zoneSign s, min := tm.min + twoDigits s 3 * zoneSign s }
      else none

/-- `parse_ansi()` up to the zone. -/
def ansiFields (tm : Tm) (s : Bytes) : Option (Tm × Bytes) := do
  let (tm, s) ← parseMonth tm (skipSpaces s)
  let (mday, s) ← integer 1 2 1 31 s
  let (tm, s) ← parseTime tm (skipSpaces s)
  let (year, s) ← integer 2 4 0 3000 s
  pure ({ tm with mday, year }, skipSpaces s)

def parseAnsi (tm : Tm) (s : Bytes) : Option Tm := do
  let (tm, s) ← ansiFields tm s
  parseTimezone tm s

def parseUs (tm : Tm) (s : Bytes) : Option Tm := do
  let (tm, s) ← parseMonth tm (skipSpaces s)
  let (mday, s) ← integer 1 2 1 31 (skipSpaces s)
  let (year, s) ← integer 2 4 0 3000 (skipSpaces s)
  let (tm, _) ← parseTime tm (skipSpaces s)
  pure { tm with mday, year }

/-- A `-` that may stand between two fields. -/
def skipDash (s : Bytes) : Bytes := if peek s 0 = byte '-' then s.drop 1 else s

/-- The end of `parse()`, from the day of the month up to the zone. -/
def rfcFields (tm : Tm) (s : Bytes) : Option (Tm × Bytes) := do
  let (mday, s) ← integer 1 2 1 31 s
  let (tm, s) ← parseMonth tm (skipSpaces (skipDash s))
  let (year, s) ← integer 2 4 0 3000 (if peek s 0 = byte '-' then skipSpaces (s.drop 1) else s)
  let (tm, s) ← parseTime tm (skipSpaces s)
  pure ({ tm with mday, year }, s)

def parseRfc (tm : Tm) (s : Bytes) : Option Tm := do
  let (tm, s) ← rfcFields tm s
  parseTimezone tm s

/-- `YYYY-MM-DD` -/
def parseShort (tm : Tm) (s : Bytes) : Option Tm := do
  let (year, s) ← integer 4 4 0 3000 s
  let s ← expect '-' s
  let (mon, s) ← integer 2 2 1 12 s
  let s ← expect '-' s
  let (mday, _) ← integer 2 2 1 31 s
  pure { tm with year, mon := mon - 1, mday }

def isShort (s : Bytes) : Bool := s.length = 10 && peek s 4 = byte '-' && peek s 7 = byte '-'

/-- The time is last: the date and time of a preprocessor, where simplifying makes a day of one digit one character shorter. -/
def isUs (s : Bytes) : Bool :=
  (strlen s = 20 && peek s 14 = byte ':' && peek s 17 = byte ':') || (strlen s = 19 && peek s 13 = byte ':' && peek s 16 = byte ':')

def parse (s : Bytes) : Option Tm :=
  if isShort s then parseShort {} s
  else if isLetter (peek s 0) then
    match parseWeekDay {} s with
    | none => if isUs s then parseUs {} s else parseAnsi {} s
    | some (tm, s) =>
      if peek s 0 = byte ' ' then parseAnsi tm s
      else if peek s 0 = byte ',' then parseRfc tm (skipSpaces (s.drop 1))
      else none
  else parseRfc {} s

end Parser

/-! ### The number -/

/-- What `snap_logic_exception` says, with the number in place of `%1`. -/
inductive LogicError
  | month (n : Int)
  | year (n : Int)
  deriving DecidableEq

def LogicError.what : LogicError → QString
  | month n => "last_day_of_month called with ".toList ++ number n ++ " as the month number".toList
  | year n => "last_day_of_month called with ".toList ++ number n ++ " as the year number".toList

def lastDayOfMonth (month year : Int) : Except LogicError Int :=
  if month < 1 ∨ month > 12 then .error (.month month)
  else if month = 2 then
    if year ≤ 1752 then .ok (if year.tmod 4 = 0 then 29 else 28)
    else .ok (if year.tmod 4 = 0 ∧ (year.tmod 100 ≠ 0 ∨ year.tmod 400 = 0) then 29 else 28)
  else if month = 9 ∧ year = 1752 then .error (.year year)
  else .ok (monthDays.getD (month - 1).toNat 0)

/-- A year of two digits is one of the hundred years from 1970 on. -/
def fullYear (year : Int) : Int :=
  if year < 100 then if year + 1900 < 1970 then year + 1900 + 100 else year + 1900 else year

/-- `mkgmtime()` counts years from 1900. -/
def fromTm (tm : Tm) : Int := mkgmtime { tm with year := fullYear tm.year - 1900 }

/-- The number, with -1 for a text that is no date. `toLower` is `QString::toLower()`. -/
def stringToDate (toLower : QString → QString) (date : QString) : Except LogicError Int :=
  match Parser.parse (utf8 (toLower (simplified date))) with
  | none => .ok (-1)
  | some tm => do
    let last ← lastDayOfMonth (tm.mon + 1) (fullYear tm.year)
    if tm.mday > last then .ok (-1) else .ok (fromTm tm)

end SnapChild
end Snapwebsites
