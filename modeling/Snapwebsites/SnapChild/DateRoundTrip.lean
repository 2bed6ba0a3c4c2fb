import Snapwebsites.SnapChild.StringToDate

/-! # Printed dates are read back

What `date_to_string()` prints of the years up to 2999 goes through `string_to_date()`: each field is read off the
front of the text as it was printed, the day exists, and `mkgmtime()` undoes `gmtime_r()` (`stringToDate_dateToString`). -/

namespace Snapwebsites
namespace SnapChild
open QString Calendar

namespace Parser
variable {s rest : Bytes} {c : Char} {q : QString}

/-! ### Characters -/

theorem toNat_byte (h : c.toNat < 128) : (byte c).toNat = c.toNat := UInt8.toNat_ofNat_of_lt' (Nat.lt_trans h (by decide))

theorem digit_bounds (h : c.isDigit = true) : 48 ≤ c.toNat ∧ c.toNat ≤ 57 := by
  simp only [Char.isDigit, Bool.and_eq_true, decide_eq_true_eq] at h
  exact h

theorem isDigit_iff {b : UInt8} : isDigit b = true ↔ 48 ≤ b.toNat ∧ b.toNat ≤ 57 := by
  simp only [isDigit, Bool.and_eq_true, decide_eq_true_eq, UInt8.le_iff_toNat_le]
  rfl

theorem isDigit_byte (h : c.isDigit = true) : isDigit (byte c) = true := by
  have hc := digit_bounds h
  rw [isDigit_iff, toNat_byte (by omega)]
  exact hc

theorem isDigit_bytes (h : ∀ c ∈ q, c.isDigit = true) : ∀ b ∈ bytes q, isDigit b = true := fun b hb => by
  obtain ⟨c, hc, rfl⟩ := List.mem_map.mp hb
  exact isDigit_byte (h c hc)

theorem not_isspace_of_isDigit {b : UInt8} (h : isDigit b = true) : isspace b = false := by
  rw [isDigit_iff] at h
  have h₁ : b.toNat ≠ (0x20 : UInt8).toNat := fun he => absurd (he ▸ h.1) (by decide)
  have h₂ : ¬ b.toNat ≤ (0x0D : UInt8).toNat := fun he => absurd (h.1.trans he) (by decide)
  simp only [isspace, Bool.or_eq_false_iff, Bool.and_eq_false_iff, decide_eq_false_iff_not, ← UInt8.toNat_inj, UInt8.le_iff_toNat_le]
  exact ⟨h₁, .inr h₂⟩

theorem not_isLetter_of_isDigit {b : UInt8} (h : isDigit b = true) : isLetter b = false := by
  rw [isDigit_iff] at h
  have hlow : ¬ (byte 'a').toNat ≤ b.toNat := fun he => absurd (he.trans h.2) (by decide)
  simp only [isLetter, Bool.and_eq_false_iff, decide_eq_false_iff_not, UInt8.le_iff_toNat_le]
  exact .inl hlow

/-! ### Numbers -/

/-- What is printed of a number that fits: as many digits as there is room for, of that value. -/
structure IsPadded (width n : Nat) (q : QString) : Prop where
  length : q.length = width
  digits : ∀ c ∈ q, c.isDigit = true
  value : Nat.ofDigitChars 10 q 0 = n

theorem isPadded (width : Nat) {n : Nat} (hwidth : 0 < width) (h : n < 10 ^ width) : IsPadded width n (padded width n) := by
  have hnumber : number n = Nat.toDigits 10 n := if_neg (by omega)
  have hlen : (Nat.toDigits 10 n).length ≤ width := (Nat.length_toDigits_le_iff (by decide) hwidth).mpr h
  rw [padded, hnumber]
  refine ⟨?_, fun c hc => ?_, ?_⟩
  · rw [List.length_leftpad]
    exact max_eq_left hlen
  · rcases List.mem_append.mp hc with hc | hc
    · rw [List.eq_of_mem_replicate hc]
      rfl
    · exact Nat.isDigit_of_mem_toDigits (by decide) (by decide) hc
  · rw [List.leftpad, Nat.ofDigitChars_append, Nat.ofDigitChars_replicate_zero, Nat.mul_zero, Nat.ofDigitChars_ten_toDigits]

theorem foldl_digits (h : ∀ c ∈ q, c.isDigit = true) (result : Nat) :
    (bytes q).foldl (fun result b => (result * 10 + (b.toNat - 48)) % 2 ^ 32) (result % 2 ^ 32) =
      Nat.ofDigitChars 10 q result % 2 ^ 32 := by
  induction q generalizing result with
  | nil => rfl
  | cons c q ih =>
    obtain ⟨hc, hq⟩ := List.forall_mem_cons.mp h
    have hbounds := digit_bounds hc
    have hstep : (result % 2 ^ 32 * 10 + ((byte c).toNat - 48)) % 2 ^ 32 = (10 * result + (c.toNat - 48)) % 2 ^ 32 := by
      rw [toNat_byte (by omega)]
      omega
    rw [bytes, List.map_cons, List.foldl_cons, hstep, ← bytes, ih hq, Nat.ofDigitChars_cons]
    rfl

theorem dropWhile_of_peek {p : UInt8 → Bool} (h : p (peek s 0) = false) :
    s.takeWhile p = [] ∧ s.dropWhile p = s := by
  cases s with
  | nil => exact ⟨rfl, rfl⟩
  | cons b s =>
    have hb : p b = false := h
    simp [hb]

/-- The digits in front of a text are read as their number. -/
theorem integer_append {width n minLen maxLen minValue maxValue : Nat} (hq : IsPadded width n q) (hlen : minLen ≤ width ∧ width ≤ maxLen)
    (hn : minValue ≤ n ∧ n ≤ maxValue) (h32 : n < 2 ^ 32) (hrest : isDigit (peek rest 0) = false) :
    integer minLen maxLen minValue maxValue (bytes q ++ rest) = some ((n : Int), rest) := by
  have hdigits := isDigit_bytes hq.digits
  obtain ⟨htake, hdrop⟩ := dropWhile_of_peek (p := isDigit) hrest
  have hvalue := foldl_digits hq.digits 0
  rw [Nat.zero_mod, hq.value, Nat.mod_eq_of_lt h32] at hvalue
  have hlength : (bytes q).length = width := by rw [bytes, List.length_map, hq.length]
  unfold integer
  rw [List.takeWhile_append_of_pos hdigits, List.dropWhile_append_of_pos hdigits, htake, hdrop, List.append_nil, hvalue, hlength,
    if_neg (by omega)]

theorem expect_byte (c : Char) (s : Bytes) : expect c (byte c :: s) = some s := if_pos rfl

/-! ### Names -/

/-- The letters of a month as they are read, in lower case. -/
def monthLetters (n : Nat) : QString := (months.getD n ([], 0)).1

def dayLetters (n : Nat) : QString := (abbreviation weekDayName n).map Char.toLower

theorem abbreviation_month {n : Nat} (h : n < 12) : (abbreviation monthName n).map Char.toLower = monthLetters n := by
  interval_cases n <;> decide

/-- The three letters of a name with a blank behind them. -/
theorem parseMonth_letters (tm : Tm) {n : Nat} (h : n < 12) (s : Bytes) (hs : isspace (peek s 0) = false) :
    parseMonth tm (bytes (monthLetters n) ++ byte ' ' :: s) = some ({ tm with mon := n }, s) := by
  have hskip : skipSpaces (byte ' ' :: s) = s := (dropWhile_of_peek (p := isspace) hs).2
  interval_cases n <;> exact congrArg (fun s => some (_, s)) hskip

theorem parseWeekDay_letters (tm : Tm) {n : Nat} (h : n < 7) (s : Bytes) :
    parseWeekDay tm (bytes (dayLetters n) ++ byte ',' :: s) = some ({ tm with wday := n }, byte ',' :: s) := by
  interval_cases n <;> rfl

/-! ### Layouts -/

/-- A date in UTC of the years from 1970 to 2999. -/
structure IsUtc (tm : Tm) : Prop extends tm.Utc where
  year : 70 ≤ tm.year ∧ tm.year < 1100

variable {tm : Tm}

theorem isPadded_of_nonneg (width : Nat) {n : Int} (hwidth : 0 < width) (h₀ : 0 ≤ n) (h : n < (10 ^ width : Nat)) :
    IsPadded width n.toNat (padded width n) := by
  obtain ⟨k, rfl⟩ := Int.eq_ofNat_of_zero_le h₀
  exact isPadded width hwidth (Int.ofNat_lt.mp h)

/-- Two digits in front of a text. -/
theorem integer_two {n : Int} {minLen minValue maxValue : Nat} (hlen : minLen ≤ 2) (hn : minValue ≤ n ∧ n ≤ maxValue) (hmax : maxValue < 100)
    (hrest : isDigit (peek rest 0) = false) :
    integer minLen 2 minValue maxValue (bytes (padded 2 n) ++ rest) = some (n, rest) := by
  have h : integer minLen 2 minValue maxValue (bytes (padded 2 n) ++ rest) = some ((n.toNat : Int), rest) :=
    integer_append (isPadded_of_nonneg 2 (by decide) (by omega) (by omega)) ⟨hlen, le_rfl⟩ (by omega) (by omega) hrest
  rwa [Int.toNat_of_nonneg (by omega)] at h

theorem integer_four {n : Int} {minLen maxValue : Nat} (hlen : minLen ≤ 4) (hn : 0 ≤ n ∧ n ≤ maxValue) (hmax : maxValue < 10000)
    (hrest : isDigit (peek rest 0) = false) :
    integer minLen 4 0 maxValue (bytes (padded 4 n) ++ rest) = some (n, rest) := by
  have h : integer minLen 4 0 maxValue (bytes (padded 4 n) ++ rest) = some ((n.toNat : Int), rest) :=
    integer_append (isPadded_of_nonneg 4 (by decide) (by omega) (by omega)) ⟨hlen, le_rfl⟩ (by omega) (by omega) hrest
  rwa [Int.toNat_of_nonneg (by omega)] at h

/-- A number is neither a blank nor a letter. -/
theorem isDigit_peek (width : Nat) {n : Int} (hwidth : 0 < width) (h₀ : 0 ≤ n) (h : n < (10 ^ width : Nat)) (rest : Bytes) :
    isDigit (peek (bytes (padded width n) ++ rest) 0) = true := by
  have hpadded := isPadded_of_nonneg width hwidth h₀ h
  cases hq : padded width n with
  | nil =>
    have := hpadded.length
    rw [hq, List.length_nil] at this
    omega
  | cons c q => exact isDigit_byte (hpadded.digits c (hq ▸ List.mem_cons_self))

/-- The bytes of `hh:mm:ss` in front of a text. -/
def clockBytes (tm : Tm) (rest : Bytes) : Bytes :=
  bytes (padded 2 tm.hour) ++ byte ':' :: (bytes (padded 2 tm.min) ++ byte ':' :: (bytes (padded 2 tm.sec) ++ rest))

/-- The bytes of `dd mmm yyyy hh:mm:ss` in front of a text. -/
def emailBytes (tm : Tm) (rest : Bytes) : Bytes :=
  bytes (padded 2 tm.mday) ++ byte ' ' :: (bytes (monthLetters tm.mon.toNat) ++ byte ' ' ::
    (bytes (padded 4 (tm.year + 1900)) ++ byte ' ' :: clockBytes tm rest))

theorem parseTime_clockBytes (h : IsUtc tm) (tm' : Tm) (hrest : isDigit (peek rest 0) = false) :
    parseTime tm' (clockBytes tm rest) = some ({ tm' with hour := tm.hour, min := tm.min, sec := tm.sec }, skipSpaces rest) := by
  have hhour := h.hour
  have hmin := h.min
  have hsec := h.sec
  simp only [parseTime, clockBytes, Option.bind_eq_bind, Option.pure_def]
  rw [integer_two le_rfl ⟨hhour.1, by omega⟩ (by decide) rfl, Option.bind_some, expect_byte, Option.bind_some,
    integer_two le_rfl ⟨hmin.1, by omega⟩ (by decide) rfl, Option.bind_some, expect_byte, Option.bind_some,
    integer_two le_rfl ⟨hsec.1, by omega⟩ (by decide) hrest, Option.bind_some]

theorem rfcFields_emailBytes (h : IsUtc tm) (tm' : Tm) (hrest : isDigit (peek rest 0) = false) :
    rfcFields tm' (emailBytes tm rest) = some ({ tm' with
      sec := tm.sec, min := tm.min, hour := tm.hour, mday := tm.mday, mon := tm.mon, year := tm.year + 1900 }, skipSpaces rest) := by
  obtain ⟨hmon, hmon'⟩ := h.mon
  have hyear := h.year
  have hday := isDigit_peek 4 (n := tm.year + 1900) (by decide) (by omega) (by omega) (byte ' ' :: clockBytes tm rest)
  have hclock := isDigit_peek 2 (n := tm.hour) (by decide) h.hour.1 (by have := h.hour.2; omega)
    (byte ':' :: (bytes (padded 2 tm.min) ++ byte ':' :: (bytes (padded 2 tm.sec) ++ rest)))
  have hmonth : skipSpaces (skipDash (byte ' ' :: (bytes (monthLetters tm.mon.toNat) ++ byte ' ' ::
      (bytes (padded 4 (tm.year + 1900)) ++ byte ' ' :: clockBytes tm rest)))) = bytes (monthLetters tm.mon.toNat) ++ byte ' ' ::
        (bytes (padded 4 (tm.year + 1900)) ++ byte ' ' :: clockBytes tm rest) := by
    generalize tm.mon = mon at hmon hmon' ⊢
    interval_cases mon <;> rfl
  have hblank : skipSpaces (byte ' ' :: clockBytes tm rest) = clockBytes tm rest :=
    (dropWhile_of_peek (p := isspace) (not_isspace_of_isDigit hclock)).2
  have hdash : peek (bytes (padded 4 (tm.year + 1900)) ++ byte ' ' :: clockBytes tm rest) 0 ≠ byte '-' := fun he => by
    rw [he] at hday
    exact absurd hday (by decide)
  simp only [rfcFields, emailBytes, Option.bind_eq_bind, Option.pure_def]
  rw [integer_two (by decide) ⟨h.mday.1, h.mday_le⟩ (by decide) rfl, Option.bind_some, hmonth,
    parseMonth_letters _ (by omega) _ (not_isspace_of_isDigit hday), Option.bind_some, if_neg hdash,
    integer_four (by decide) ⟨by omega, by omega⟩ (by decide) rfl, Option.bind_some, hblank, parseTime_clockBytes h _ hrest,
    Option.bind_some, Int.toNat_of_nonneg hmon]

/-- `+0000` adds nothing. -/
theorem parseTimezone_zero (tm : Tm) : parseTimezone tm (bytes "+0000".toList) = some tm := by
  have hzero : parseTimezone tm (bytes "+0000".toList) = some { tm with hour := tm.hour + 0, min := tm.min + 0 } := rfl
  rw [hzero, Int.add_zero, Int.add_zero]

theorem parseRfc_emailBytes (h : IsUtc tm) (tm' : Tm) :
    parseRfc tm' (emailBytes tm (bytes " +0000".toList)) = some { tm' with
      sec := tm.sec, min := tm.min, hour := tm.hour, mday := tm.mday, mon := tm.mon, year := tm.year + 1900 } := by
  have hskip : skipSpaces (bytes " +0000".toList) = bytes "+0000".toList := rfl
  rw [parseRfc, rfcFields_emailBytes h tm' rfl, hskip]
  exact parseTimezone_zero _

theorem length_emailBytes (h : IsUtc tm) (rest : Bytes) : (emailBytes tm rest).length = 20 + rest.length := by
  obtain ⟨hmon, hmon'⟩ := h.mon
  have hmday := h.mday_le
  have hyear := h.year
  have hmday := isPadded_of_nonneg 2 (n := tm.mday) (by decide) (by have := h.mday.1; omega) (by omega)
  have hyear := isPadded_of_nonneg 4 (n := tm.year + 1900) (by decide) (by omega) (by omega)
  have hhour := isPadded_of_nonneg 2 (n := tm.hour) (by decide) h.hour.1 (by have := h.hour.2; omega)
  have hmin := isPadded_of_nonneg 2 (n := tm.min) (by decide) h.min.1 (by have := h.min.2; omega)
  have hsec := isPadded_of_nonneg 2 (n := tm.sec) (by decide) h.sec.1 (by have := h.sec.2; omega)
  have hletters : (monthLetters tm.mon.toNat).length = 3 := by
    generalize tm.mon = mon at hmon hmon' ⊢
    interval_cases mon <;> rfl
  simp only [emailBytes, clockBytes, bytes, List.length_append, List.length_cons, List.length_map, hmday.length, hyear.length,
    hhour.length, hmin.length, hsec.length, hletters]
  omega

/-- Without a day of the week. -/
theorem parse_emailBytes (h : IsUtc tm) : parse (emailBytes tm (bytes " +0000".toList)) = some { tm with year := tm.year + 1900, wday := 0 } := by
  have hshort : isShort (emailBytes tm (bytes " +0000".toList)) = false := by
    rw [isShort, length_emailBytes h]
    rfl
  have hdigit := isDigit_peek 2 (n := tm.mday) (by decide) (by have := h.mday.1; omega) (by have := h.mday_le; omega)
    (byte ' ' :: (bytes (monthLetters tm.mon.toNat) ++ byte ' ' ::
      (bytes (padded 4 (tm.year + 1900)) ++ byte ' ' :: clockBytes tm (bytes " +0000".toList))))
  rw [parse, hshort, if_neg Bool.false_ne_true, emailBytes, not_isLetter_of_isDigit hdigit, if_neg Bool.false_ne_true, ← emailBytes,
    parseRfc_emailBytes h]

theorem parse_httpBytes (h : IsUtc tm) : parse (bytes (dayLetters tm.wday.toNat) ++ byte ',' :: byte ' ' :: emailBytes tm (bytes " +0000".toList)) =
    some { tm with year := tm.year + 1900 } := by
  obtain ⟨hwday, hwday'⟩ := h.wday
  have hdigit := isDigit_peek 2 (n := tm.mday) (by decide) (by have := h.mday.1; omega) (by have := h.mday_le; omega)
    (byte ' ' :: (bytes (monthLetters tm.mon.toNat) ++ byte ' ' ::
      (bytes (padded 4 (tm.year + 1900)) ++ byte ' ' :: clockBytes tm (bytes " +0000".toList))))
  have hskip : skipSpaces (List.drop 1 (byte ',' :: byte ' ' :: emailBytes tm (bytes " +0000".toList))) =
      emailBytes tm (bytes " +0000".toList) :=
    (dropWhile_of_peek (p := isspace) (not_isspace_of_isDigit hdigit)).2
  have hletters : (bytes (dayLetters tm.wday.toNat)).length = 3 ∧
      ∀ s, isLetter (peek (bytes (dayLetters tm.wday.toNat) ++ s) 0) = true := by
    generalize tm.wday = wday at hwday hwday' ⊢
    interval_cases wday <;> exact ⟨rfl, fun _ => rfl⟩
  have hshort : isShort (bytes (dayLetters tm.wday.toNat) ++ byte ',' :: byte ' ' :: emailBytes tm (bytes " +0000".toList)) = false := by
    rw [isShort, List.length_append, hletters.1, List.length_cons, List.length_cons, length_emailBytes h]
    rfl
  have hcomma : peek (byte ',' :: byte ' ' :: emailBytes tm (bytes " +0000".toList)) 0 = byte ',' := rfl
  rw [parse, hshort, if_neg Bool.false_ne_true, hletters.2, if_pos rfl, parseWeekDay_letters _ (by omega)]
  dsimp only
  rw [hcomma, if_neg (by decide), if_pos rfl, hskip, parseRfc_emailBytes h, Int.toNat_of_nonneg hwday]

/-- `yyyy-mm-dd` -/
def shortBytes (tm : Tm) : Bytes :=
  bytes (padded 4 (tm.year + 1900)) ++ byte '-' :: (bytes (padded 2 (tm.mon + 1)) ++ byte '-' :: bytes (padded 2 tm.mday))

theorem parse_shortBytes (h : IsUtc tm) : parse (shortBytes tm) = some { mday := tm.mday, mon := tm.mon, year := tm.year + 1900 } := by
  obtain ⟨hmon, hmon'⟩ := h.mon
  have hyear := h.year
  have hmday := h.mday_le
  have hyears := isPadded_of_nonneg 4 (n := tm.year + 1900) (by decide) (by omega) (by omega)
  have hmonths := isPadded_of_nonneg 2 (n := tm.mon + 1) (by decide) (by omega) (by omega)
  have hdays := isPadded_of_nonneg 2 (n := tm.mday) (by decide) (by have := h.mday.1; omega) (by omega)
  have hshort : isShort (shortBytes tm) = true := by
    obtain ⟨a, b, c, d, hq⟩ := List.length_eq_four.mp hyears.length
    obtain ⟨e, f, hm⟩ := List.length_eq_two.mp hmonths.length
    obtain ⟨g, k, hd⟩ := List.length_eq_two.mp hdays.length
    rw [shortBytes, hq, hm, hd]
    rfl
  have hlast : integer 2 2 1 31 (bytes (padded 2 tm.mday) ++ []) = some (tm.mday, []) :=
    integer_two le_rfl ⟨h.mday.1, hmday⟩ (by decide) rfl
  rw [List.append_nil] at hlast
  rw [parse, hshort, if_pos rfl]
  simp only [parseShort, shortBytes, Option.bind_eq_bind, Option.pure_def]
  rw [integer_four le_rfl ⟨by omega, by omega⟩ (by decide) rfl, Option.bind_some, expect_byte, Option.bind_some,
    integer_two le_rfl ⟨by omega, by omega⟩ (by decide) rfl, Option.bind_some, expect_byte, Option.bind_some, hlast, Option.bind_some,
    Int.add_sub_cancel]

/-! ### The text and its bytes -/

/-- A word of a date: its characters are ASCII and none is a blank. -/
def IsWord (q : QString) : Prop := ∀ c ∈ q, c.toNat < 128 ∧ QString.isSpace c = false

theorem IsWord.append {p q : QString} (hp : IsWord p) (hq : IsWord q) : IsWord (p ++ q) := List.forall_mem_append.mpr ⟨hp, hq⟩

theorem IsWord.cons {c : Char} {q : QString} (hc : c.toNat < 128 ∧ QString.isSpace c = false) (hq : IsWord q) : IsWord (c :: q) :=
  List.forall_mem_cons.mpr ⟨hc, hq⟩

theorem isWord_digits (h : ∀ c ∈ q, c.isDigit = true) : IsWord q := fun c hc => by
  have := digit_bounds (h c hc)
  exact ⟨by omega, isSpace_of_isDigit (h c hc)⟩

theorem map_toLower_digits (h : ∀ c ∈ q, c.isDigit = true) : q.map Char.toLower = q := by
  refine (List.map_congr_left fun c hc => ?_).trans (List.map_id q)
  have hbounds := digit_bounds (h c hc)
  have hupper : ¬ (c.val ≥ 'A'.val ∧ c.val ≤ 'Z'.val) := fun hupper => by
    have hlow : 65 ≤ c.toNat := hupper.1
    omega
  exact dif_neg hupper

theorem toLower_ascii (h : c.toNat < 128) : c.toLower.toNat < 128 := by
  unfold Char.toLower
  split_ifs with hupper
  · have hhigh : c.val.toNat ≤ 90 := hupper.2
    have hadd : (c.val + ('a'.val - 'A'.val)).toNat ≤ c.val.toNat + 32 := by
      rw [UInt32.toNat_add]
      exact Nat.mod_le _ _
    exact Nat.lt_of_le_of_lt hadd (by omega)
  · exact h

/-- A printed date: `simplified()` keeps it, and it is ASCII. -/
structure IsText (q : QString) : Prop where
  simple : Simple q
  head : ∀ c, q.head? = some c → QString.isSpace c = false
  ascii : ∀ c ∈ q, c.toNat < 128

theorem isText_word (h : IsWord q) : IsText q :=
  ⟨simple_word fun c hc => (h c hc).2, fun c hc => (h c (List.mem_of_mem_head? hc)).2, fun c hc => (h c hc).1⟩

/-- One more word behind a blank. -/
theorem IsText.blank {p : QString} (hp : IsText p) (hne : p ≠ []) (hq : IsWord q) (hq' : q ≠ []) : IsText (p ++ ' ' :: q) where
  simple := hp.simple.append ((simple_word fun c hc => (hq c hc).2).blank hq' fun c hc => (hq c (List.mem_of_mem_head? hc)).2)
  head c hc := hp.head c (by rwa [List.head?_append_of_ne_nil _ hne] at hc)
  ascii := List.forall_mem_append.mpr ⟨hp.ascii, List.forall_mem_cons.mpr ⟨by decide, fun c hc => (hq c hc).1⟩⟩

/-- The bytes that are parsed. -/
theorem utf8_text {toLower : QString → QString} (hlower : ∀ t : QString, (∀ c ∈ t, c.toNat < 128) → toLower t = t.map Char.toLower)
    (h : IsText q) : utf8 (toLower (simplified q)) = bytes (q.map Char.toLower) := by
  rw [h.simple.simplified h.head, hlower q h.ascii, utf8_ascii]
  · rfl
  · intro c hc
    obtain ⟨d, hd, rfl⟩ := List.mem_map.mp hc
    exact toLower_ascii (h.ascii d hd)

/-- The printed fields of a date. -/
structure Printed (tm : Tm) : Prop where
  mday : IsPadded 2 tm.mday.toNat (padded 2 tm.mday)
  mon : IsPadded 2 (tm.mon + 1).toNat (padded 2 (tm.mon + 1))
  year : IsPadded 4 (tm.year + 1900).toNat (padded 4 (tm.year + 1900))
  hour : IsPadded 2 tm.hour.toNat (padded 2 tm.hour)
  min : IsPadded 2 tm.min.toNat (padded 2 tm.min)
  sec : IsPadded 2 tm.sec.toNat (padded 2 tm.sec)

theorem IsUtc.printed (h : IsUtc tm) : Printed tm := by
  have hmday := h.mday
  have hmday' := h.mday_le
  obtain ⟨hmon, hmon'⟩ := h.mon
  have hyear := h.year
  have hhour := h.hour
  have hmin := h.min
  have hsec := h.sec
  constructor <;> exact isPadded_of_nonneg _ (by decide) (by omega) (by omega)

theorem IsPadded.ne_nil {width n : Nat} (h : IsPadded width n q) (hwidth : 0 < width) : q ≠ [] := fun hq => by
  have := h.length
  rw [hq, List.length_nil] at this
  omega

theorem isWord_clock (h : IsUtc tm) : IsWord (clock tm) := by
  have hcolon : (':').toNat < 128 ∧ QString.isSpace ':' = false := by decide
  have hmin := (isWord_digits h.printed.hour.digits).append (.cons hcolon (isWord_digits h.printed.min.digits))
  exact hmin.append (.cons hcolon (isWord_digits h.printed.sec.digits))

theorem isWord_month (h : tm.Month) : IsWord (abbreviation monthName tm.mon) ∧ abbreviation monthName tm.mon ≠ [] := by
  obtain ⟨hmon, hmon'⟩ := h
  generalize tm.mon = mon at hmon hmon' ⊢
  interval_cases mon <;> exact ⟨by unfold IsWord; decide, by decide⟩

theorem isWord_weekDay (h : 0 ≤ tm.wday ∧ tm.wday < 7) : IsWord (abbreviation weekDayName tm.wday ++ [',']) := by
  obtain ⟨hwday, hwday'⟩ := h
  generalize tm.wday = wday at hwday hwday' ⊢
  interval_cases wday <;> unfold IsWord <;> decide

theorem isWord_zone : IsWord "+0000".toList := by
  unfold IsWord
  decide

theorem clock_ne_nil (h : IsUtc tm) : clock tm ≠ [] := fun hnil =>
  h.printed.hour.ne_nil (by decide) (List.append_eq_nil_iff.mp (List.append_eq_nil_iff.mp hnil).1).1

/-- The words of `email()` behind a text. -/
theorem isText_email (h : IsUtc tm) {front : QString} (hfront : IsText front) (hne : front ≠ []) :
    IsText (front ++ ' ' :: abbreviation monthName tm.mon ++ ' ' :: padded 4 (tm.year + 1900) ++ ' ' :: clock tm ++ " +0000".toList) := by
  obtain ⟨hmonth, hmonth'⟩ := isWord_month h.mon
  have hne' : ∀ {p q : QString}, p ++ ' ' :: q ≠ [] := fun {_ _} hnil => by simp at hnil
  have hyear := (hfront.blank hne hmonth hmonth').blank hne' (isWord_digits h.printed.year.digits) (h.printed.year.ne_nil (by decide))
  exact (hyear.blank hne' (isWord_clock h) (clock_ne_nil h)).blank hne' isWord_zone (by decide)

theorem isText_mday (h : IsUtc tm) : IsText (email tm) :=
  isText_email h (isText_word (isWord_digits h.printed.mday.digits)) (h.printed.mday.ne_nil (by decide))

/-- With the day of the week in front. -/
theorem isText_weekDay (h : IsUtc tm) : IsText (abbreviation weekDayName tm.wday ++ ", ".toList ++ email tm) := by
  have hne : abbreviation weekDayName tm.wday ++ [','] ≠ [] := by simp
  have hfront := (isText_word (isWord_weekDay h.wday)).blank hne (isWord_digits h.printed.mday.digits) (h.printed.mday.ne_nil (by decide))
  have htext := isText_email h hfront (by simp)
  rwa [show abbreviation weekDayName tm.wday ++ ", ".toList ++ email tm = abbreviation weekDayName tm.wday ++ [','] ++
    ' ' :: padded 2 tm.mday ++ ' ' :: abbreviation monthName tm.mon ++ ' ' :: padded 4 (tm.year + 1900) ++ ' ' :: clock tm ++
      " +0000".toList by simp [email]]

theorem isWord_short (h : IsUtc tm) : IsWord (padded 4 (tm.year + 1900) ++ '-' :: padded 2 (tm.mon + 1) ++ '-' :: padded 2 tm.mday) := by
  have hdash : ('-').toNat < 128 ∧ QString.isSpace '-' = false := by decide
  have hmon := (isWord_digits h.printed.year.digits).append (.cons hdash (isWord_digits h.printed.mon.digits))
  exact hmon.append (.cons hdash (isWord_digits h.printed.mday.digits))

theorem toLower_clock (h : IsUtc tm) : (clock tm).map Char.toLower = clock tm := by
  have hcolon : (':').toLower = ':' := by decide
  simp only [clock, List.map_append, List.map_cons, map_toLower_digits h.printed.hour.digits, map_toLower_digits h.printed.min.digits,
    map_toLower_digits h.printed.sec.digits, hcolon]

theorem bytes_email (h : IsUtc tm) : bytes ((email tm).map Char.toLower) = emailBytes tm (bytes " +0000".toList) := by
  have hblank : (' ').toLower = ' ' := by decide
  have hzone : " +0000".toList.map Char.toLower = " +0000".toList := by decide
  have hmonth : (abbreviation monthName tm.mon).map Char.toLower = monthLetters tm.mon.toNat := by
    have := abbreviation_month (n := tm.mon.toNat) (by have := h.mon.2; omega)
    rwa [Int.toNat_of_nonneg h.mon.1] at this
  simp only [email, emailBytes, clockBytes, List.map_append, List.map_cons, map_toLower_digits h.printed.mday.digits, hblank, hmonth,
    map_toLower_digits h.printed.year.digits, toLower_clock h, hzone]
  simp only [bytes, clock, List.map_append, List.map_cons, List.append_assoc, List.cons_append]

theorem bytes_weekDay (h : IsUtc tm) : bytes ((abbreviation weekDayName tm.wday ++ ", ".toList ++ email tm).map Char.toLower) =
    bytes (dayLetters tm.wday.toNat) ++ byte ',' :: byte ' ' :: emailBytes tm (bytes " +0000".toList) := by
  have hcomma : ", ".toList.map Char.toLower = [',', ' '] := by decide
  rw [← bytes_email h, dayLetters, Int.toNat_of_nonneg h.wday.1, List.map_append, List.map_append, hcomma]
  simp only [bytes, List.map_append, List.map_cons, List.append_assoc, List.cons_append, List.nil_append]

theorem bytes_short (h : IsUtc tm) :
    bytes ((padded 4 (tm.year + 1900) ++ '-' :: padded 2 (tm.mon + 1) ++ '-' :: padded 2 tm.mday).map Char.toLower) = shortBytes tm := by
  have hdash : ('-').toLower = '-' := by decide
  simp only [shortBytes, List.map_append, List.map_cons, hdash, map_toLower_digits h.printed.year.digits,
    map_toLower_digits h.printed.mon.digits, map_toLower_digits h.printed.mday.digits]
  simp only [bytes, List.map_append, List.map_cons, List.append_assoc, List.cons_append]

/-- A year of four digits needs no zeros. -/
theorem number_eq_padded {n : Int} (h : 1000 ≤ n) : number n = padded 4 n := by
  obtain ⟨k, rfl⟩ := Int.eq_ofNat_of_zero_le (show 0 ≤ n by omega)
  have hnumber : number k = Nat.toDigits 10 k := if_neg (by omega)
  have hlong : ¬ (Nat.toDigits 10 k).length ≤ 3 := by
    rw [Nat.length_toDigits_le_iff (by decide) (by decide)]
    omega
  rw [padded, hnumber, List.leftpad, show 4 - (Nat.toDigits 10 k).length = 0 by omega]
  rfl

end Parser

/-! ### The round trip -/

theorem isUtc_gmtimeR {t : Int} (h₀ : 0 ≤ t) (h : t < 86400 * (daysBeforeYear 3000 - epoch)) : Parser.IsUtc (gmtimeR t) :=
  ⟨utc_gmtimeR t, by have := year_gmtimeR h₀ h; omega⟩

theorem lastDayOfMonth_eq {mon year : Int} (hmon : 0 ≤ mon ∧ mon < 12) (hyear : 1752 < year) :
    lastDayOfMonth (mon + 1) year = .ok (daysInMonth year mon.toNat) := by
  obtain ⟨hmon, hmon'⟩ := hmon
  have hleap : (year.tmod 4 = 0 ∧ (year.tmod 100 ≠ 0 ∨ year.tmod 400 = 0)) ↔ leap year = true := by
    rw [leap_iff, Int.tmod_eq_emod_of_nonneg (by omega), Int.tmod_eq_emod_of_nonneg (by omega), Int.tmod_eq_emod_of_nonneg (by omega)]
  unfold lastDayOfMonth
  simp only [hleap]
  rw [if_neg (by omega), if_neg (by omega : ¬ year ≤ 1752), if_neg (by omega : ¬ (mon + 1 = 9 ∧ year = 1752))]
  interval_cases mon <;> rfl

section
variable {tm tm' : Tm} {toLower : QString → QString}

/-- The instant of the fields, for the years that a text can have. -/
theorem fromTm_eq (hmon : tm.Month) (hyear : 0 ≤ fullYear tm.year ∧ fullYear tm.year ≤ 3000)
    (hfields : tm.mday.natAbs + tm.hour.natAbs + tm.min.natAbs + tm.sec.natAbs ≤ 1000) :
    fromTm tm = 86400 * (dayNumber (fullYear tm.year) tm.mon.toNat tm.mday - epoch) + 3600 * tm.hour + 60 * tm.min + tm.sec := by
  have hmkgmtime : fromTm tm = Tm.instant { tm with year := fullYear tm.year - 1900 } := mkgmtime_eq hmon (by dsimp only; omega)
  rw [hmkgmtime, Tm.instant, Int.sub_add_cancel]

/-- The fields of a UTC date are accepted, and give its instant. -/
theorem fromTm_utc (h : Parser.IsUtc tm) (hyear : tm'.year = tm.year + 1900) (hmon : tm'.mon = tm.mon) (hmday : tm'.mday = tm.mday)
    (htime : tm'.hour.natAbs + tm'.min.natAbs + tm'.sec.natAbs ≤ 200) :
    (do
      let last ← lastDayOfMonth (tm'.mon + 1) (fullYear tm'.year)
      if tm'.mday > last then .ok (-1) else .ok (fromTm tm') : Except LogicError Int) =
        .ok (86400 * (dayNumber (tm.year + 1900) tm.mon.toNat tm.mday - epoch) + 3600 * tm'.hour + 60 * tm'.min + tm'.sec) := by
  have hy := h.year
  have hday := h.mday
  have hday' := h.mday_le
  have hmonth : tm'.Month := by
    rw [Tm.Month, hmon]
    exact h.mon
  have hfull : fullYear tm'.year = tm.year + 1900 := by rw [hyear, fullYear, if_neg (by omega)]
  rw [fromTm_eq hmonth (by omega) (by omega), hfull, hmon, lastDayOfMonth_eq h.mon (by omega), hmday]
  change (if tm.mday > daysInMonth (tm.year + 1900) tm.mon.toNat then _ else _) = _
  rw [if_neg (by omega)]

/-- What is read of a printed text whose bytes give the fields of a UTC date. -/
theorem stringToDate_utc (hlower : ∀ t : QString, (∀ c ∈ t, c.toNat < 128) → toLower t = t.map Char.toLower) {q : QString}
    (hq : Parser.IsText q) (hparse : Parser.parse (Parser.bytes (q.map Char.toLower)) = some tm') (h : Parser.IsUtc tm)
    (hyear : tm'.year = tm.year + 1900) (hmon : tm'.mon = tm.mon) (hmday : tm'.mday = tm.mday)
    (htime : tm'.hour.natAbs + tm'.min.natAbs + tm'.sec.natAbs ≤ 200) :
    stringToDate toLower q =
      .ok (86400 * (dayNumber (tm.year + 1900) tm.mon.toNat tm.mday - epoch) + 3600 * tm'.hour + 60 * tm'.min + tm'.sec) := by
  rw [stringToDate, Parser.utf8_text hlower hq, hparse]
  exact fromTm_utc h hyear hmon hmday htime

/-- The EMAIL and HTTP texts of a time up to the end of 2999 give its seconds, the SHORT text the beginning of its day. -/
theorem stringToDate_dateToString (hlower : ∀ t : QString, (∀ c ∈ t, c.toNat < 128) → toLower t = t.map Char.toLower) {v : Int}
    (h₀ : 0 ≤ v) (h : v < 1000000 * (86400 * (daysBeforeYear 3000 - daysBeforeYear 1970))) :
    stringToDate toLower (dateToString v .email) = .ok (v / 1000000) ∧
      stringToDate toLower (dateToString v .http) = .ok (v / 1000000) ∧
      stringToDate toLower (dateToString v .short) = .ok (v / 1000000 - v / 1000000 % 86400) := by
  have hepoch : daysBeforeYear 1970 = epoch := by decide
  have hutc := isUtc_gmtimeR (t := v / 1000000) (by omega) (by omega)
  have hinstant := gmtimeR_instant (v / 1000000)
  have hprinted := hutc.printed
  have hsec := hutc.sec
  have hmin := hutc.min
  have hhour := hutc.hour
  have htime : (gmtimeR (v / 1000000)).hour.natAbs + (gmtimeR (v / 1000000)).min.natAbs + (gmtimeR (v / 1000000)).sec.natAbs ≤ 200 := by
    omega
  have hseconds : v.tdiv 1000000 = v / 1000000 := Int.tdiv_eq_ediv_of_nonneg h₀
  have hemail : dateToString v .email = email (gmtimeR (v / 1000000)) := by rw [dateToString, hseconds]
  have hhttp : dateToString v .http =
      abbreviation weekDayName (gmtimeR (v / 1000000)).wday ++ ", ".toList ++ email (gmtimeR (v / 1000000)) := by
    rw [dateToString, hseconds]
  have hshort : dateToString v .short = padded 4 ((gmtimeR (v / 1000000)).year + 1900) ++
      '-' :: padded 2 ((gmtimeR (v / 1000000)).mon + 1) ++ '-' :: padded 2 (gmtimeR (v / 1000000)).mday := by
    rw [dateToString, hseconds, ← Parser.number_eq_padded (by have := hutc.year; omega)]
  unfold Tm.instant at hinstant
  refine ⟨?_, ?_, ?_⟩
  · have hparse := Parser.parse_emailBytes hutc
    rw [← Parser.bytes_email hutc] at hparse
    rw [hemail, stringToDate_utc hlower (Parser.isText_mday hutc) hparse hutc rfl rfl rfl htime, hinstant]
  · have hparse := Parser.parse_httpBytes hutc
    rw [← Parser.bytes_weekDay hutc] at hparse
    rw [hhttp, stringToDate_utc hlower (Parser.isText_weekDay hutc) hparse hutc rfl rfl rfl htime, hinstant]
  · have hparse := Parser.parse_shortBytes hutc
    rw [← Parser.bytes_short hutc] at hparse
    rw [hshort, stringToDate_utc hlower (Parser.isText_word (Parser.isWord_short hutc)) hparse hutc rfl rfl rfl (by dsimp only; decide)]
    refine congrArg Except.ok ?_
    dsimp only
    omega

/-- November 6, 1994, at 08:49:37. -/
theorem stringToDate_dateToString_1994 :
    stringToDate (List.map Char.toLower) (dateToString 784111777123456 .email) = .ok (784111777123456 / 1000000) ∧
      stringToDate (List.map Char.toLower) (dateToString 784111777123456 .http) = .ok (784111777123456 / 1000000) ∧
      stringToDate (List.map Char.toLower) (dateToString 784111777123456 .short) =
        .ok (784111777123456 / 1000000 - 784111777123456 / 1000000 % 86400) :=
  stringToDate_dateToString (fun _ _ => rfl) (by decide) (by decide)

end

end SnapChild
end Snapwebsites
