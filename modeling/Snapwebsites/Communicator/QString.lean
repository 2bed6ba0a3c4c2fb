import Mathlib.Data.Char
import Mathlib.Data.List.DropRight
import Mathlib.Data.List.TakeWhile
import Mathlib.Data.String.Basic
import Mathlib.Tactic.Common
import Snapwebsites.Lib.Format

/-! # Texts

`QString` and the few operations of Qt and snapdev that the communicator library applies to texts. A
text is the list of its characters. `QChar` is a UTF-16 unit; the model works on characters and goes
down to the units only where the source narrows one (`QString.appendUnit`). -/

namespace Snapwebsites

abbrev QString := List Char

namespace QString

/-- A property of the characters of a text is decided by going over the text, not over all characters. -/
instance (priority := 1100) decidableForallMem (p : Char → Prop) [DecidablePred p] (s : List Char) : Decidable (∀ c ∈ s, p c) :=
  List.decidableBAll p s

/-- The character that ends a C string. -/
def nul : Char := Char.ofNat 0

/-- `QChar::isSpace()`: the ASCII blanks and the separators of Unicode. -/
def isSpace (c : Char) : Bool :=
  c.toNat = 0x20 || (0x09 ≤ c.toNat && c.toNat ≤ 0x0D) || c.toNat = 0x85 || c.toNat = 0xA0 || c.toNat = 0x1680 ||
    (0x2000 ≤ c.toNat && c.toNat ≤ 0x200A) || c.toNat = 0x2028 || c.toNat = 0x2029 || c.toNat = 0x202F ||
    c.toNat = 0x205F || c.toNat = 0x3000

def trimmed (s : QString) : QString := (s.dropWhile isSpace).rdropWhile isSpace

/-- `QString::simplified()` from a place on; the flag is a blank that is held back. -/
def simplifiedFrom : Bool → QString → QString
  | _, [] => []
  | blank, c :: s =>
    if isSpace c then simplifiedFrom true s
    else if blank then ' ' :: c :: simplifiedFrom false s
    else c :: simplifiedFrom false s

def simplified (s : QString) : QString := simplifiedFrom false (s.dropWhile isSpace)

/-- What a pointer into the text sees: everything before the first NUL. -/
def constData (s : QString) : QString := s.takeWhile (· ≠ nul)

/-- The bytes of a text in UTF-8. -/
def utf8 (s : QString) : Bytes := s.flatMap String.utf8EncodeChar

/-- The UTF-16 units of a character. -/
def utf16 (c : Char) : List Nat :=
  if c.toNat < 0x10000 then [c.toNat]
  else [0xD800 + (c.toNat - 0x10000) / 0x400, 0xDC00 + (c.toNat - 0x10000) % 0x400]

/-- `QString::length()`, in UTF-16 units. -/
def units (s : QString) : Nat := (s.flatMap utf16).length

/-- `s += m->unicode()`: an `ushort` converts to `char` without a user defined conversion, so the call
    is `QString::operator+=(char)`, which keeps the low byte and reads it as Latin-1. -/
def appendUnit (c : Char) : QString := (utf16 c).map fun u => Char.ofNat (u % 0x100)

/-- `QString::fromUtf8()` of a text in UTF-8 gives the text back, less a leading byte order mark. -/
def fromUtf8 : QString → QString
  | c :: s => if c.toNat = 0xFEFF then s else c :: s
  | [] => []

/-- `string_replace_many()`: one pass from the left; where a pattern is found, the first of the list
    that matches is replaced and the pass goes on behind it. The counter is the number of characters
    of that pattern left to skip. -/
def replaceManyFrom (patterns : List (QString × QString)) : Nat → QString → QString
  | _, [] => []
  | n + 1, _ :: s => replaceManyFrom patterns n s
  | 0, c :: s =>
    match patterns.find? fun p => p.1.isPrefixOf (c :: s) with
    | some p => p.2 ++ replaceManyFrom patterns (p.1.length - 1) s
    | none => c :: replaceManyFrom patterns 0 s

def replaceMany (s : QString) (patterns : List (QString × QString)) : QString := replaceManyFrom patterns 0 s

/-- `QString("%1").arg(n)`. -/
def number (n : Int) : QString := if n < 0 then '-' :: Nat.toDigits 10 n.natAbs else Nat.toDigits 10 n.natAbs

def digits (s : QString) : Option Nat :=
  if s ≠ [] ∧ s.all Char.isDigit then some (Nat.ofDigitChars 10 s 0) else none

/-- `QString::toLongLong(&ok, 10)`. -/
def toLongLong (s : QString) : Option Int := do
  let n ← match trimmed s with
    | '-' :: s => (digits s).map fun n => -(n : Int)
    | '+' :: s => (digits s).map Nat.cast
    | s => (digits s).map Nat.cast
  if -0x8000000000000000 ≤ n ∧ n < 0x8000000000000000 then some n else none

/-- `QString::toInt(&ok, 10)`. -/
def toInt (s : QString) : Option Int := (toLongLong s).filter fun n => -0x80000000 ≤ n ∧ n < 0x80000000

/-- `split(separator, QString::SkipEmptyParts)`. -/
def splitParts (separator : Char) (s : QString) : List QString := (s.splitOn separator).filter (· ≠ [])

def join (separator : Char) (parts : List QString) : QString := [separator].intercalate parts

/-! ### What a conversion drops -/

/-- U+FEFF, which `fromUtf8` drops in front of a text. -/
def bom : Char := Char.ofNat 0xFEFF

theorem fromUtf8_eq_self {s : QString} (h : s.head? ≠ some bom) : fromUtf8 s = s := by
  cases s with
  | nil => rfl
  | cons c s =>
    refine if_neg fun hc => h ?_
    have : c = bom := Char.toNat_inj.mp hc
    rw [this]
    rfl

theorem fromUtf8_bom (s : QString) : fromUtf8 (bom :: s) = s := rfl

theorem fromUtf8_sublist (s : QString) : (fromUtf8 s).Sublist s := by
  cases s with
  | nil => exact List.Sublist.refl _
  | cons c s =>
    show List.Sublist (if c.toNat = 0xFEFF then s else c :: s) (c :: s)
    split
    · exact List.sublist_cons_self c s
    · exact List.Sublist.refl _

theorem constData_sublist (s : QString) : (constData s).Sublist s := List.takeWhile_sublist _

theorem constData_eq_self {s : QString} (h : nul ∉ s) : constData s = s :=
  List.takeWhile_eq_self_iff.mpr fun c hc => decide_eq_true fun hn : c = nul => h (hn ▸ hc)

/-! ### Scanning up to a character -/

section Scan
variable {x : Char} {s : QString}

theorem takeWhile_ne_append (h : x ∉ s) (t : QString) :
    (s ++ t).takeWhile (fun c => decide (c ≠ x)) = s ++ t.takeWhile (fun c => decide (c ≠ x)) :=
  List.takeWhile_append_of_pos fun c hc => decide_eq_true fun hx : c = x => h (hx ▸ hc)

theorem dropWhile_ne_append (h : x ∉ s) (t : QString) :
    (s ++ t).dropWhile (fun c => decide (c ≠ x)) = t.dropWhile (fun c => decide (c ≠ x)) :=
  List.dropWhile_append_of_pos fun c hc => decide_eq_true fun hx : c = x => h (hx ▸ hc)

theorem takeWhile_ne_cons (t : QString) : (x :: t).takeWhile (fun c => decide (c ≠ x)) = [] :=
  List.takeWhile_cons_of_neg (by simp)

theorem dropWhile_ne_cons (t : QString) : (x :: t).dropWhile (fun c => decide (c ≠ x)) = x :: t :=
  List.dropWhile_cons_of_neg (by simp)

theorem notMem_takeWhile_ne (x : Char) (s : QString) : x ∉ s.takeWhile (fun c => decide (c ≠ x)) := fun h => by
  have := List.mem_takeWhile_imp h
  simp at this

theorem nul_notMem_constData (s : QString) : nul ∉ constData s := notMem_takeWhile_ne nul s

/-- Two texts that agree up to the first `x`. -/
theorem append_cons_inj {a b r t : QString} (h : a ++ x :: r = b ++ x :: t) (ha : x ∉ a) (hb : x ∉ b) :
    a = b ∧ r = t := by
  have htake : ∀ {a r : QString}, x ∉ a → (a ++ x :: r).takeWhile (fun c => decide (c ≠ x)) = a := fun ha => by
    rw [takeWhile_ne_append ha, takeWhile_ne_cons, List.append_nil]
  have hab : a = b := by rw [← htake ha, h, htake hb]
  subst hab
  exact ⟨rfl, (List.cons.inj (List.append_cancel_left h)).2⟩

end Scan

/-! ### Blanks -/

theorem trimmed_inside (s : QString) : trimmed s <:+: s :=
  (List.rdropWhile_prefix _ _).isInfix.trans (List.dropWhile_suffix _).isInfix

theorem head?_trimmed {s : QString} {c : Char} (h : (trimmed s).head? = some c) : isSpace c = false := by
  have hne : trimmed s ≠ [] := List.ne_nil_of_mem (List.mem_of_head? h)
  obtain ⟨rest, hrest⟩ : ∃ rest, trimmed s ++ rest = s.dropWhile isSpace := List.rdropWhile_prefix isSpace _
  have hhead : (s.dropWhile isSpace).head? = some c := by
    rw [← hrest, List.head?_append_of_ne_nil _ hne]
    exact h
  have hnot := List.head?_dropWhile_not isSpace s
  rw [hhead] at hnot
  simpa using hnot

theorem trimmed_eq_self {s : QString} (hd : ∀ c, s.head? = some c → isSpace c = false)
    (hl : ∀ c, s.getLast? = some c → isSpace c = false) : trimmed s = s := by
  have hdrop : s.dropWhile isSpace = s := by
    cases s with
    | nil => rfl
    | cons c s => simp [hd c rfl]
  unfold trimmed
  rw [hdrop]
  refine List.rdropWhile_eq_self_iff.mpr fun hne => ?_
  simp [hl _ (List.getLast?_eq_getLast_of_ne_nil hne)]

/-- What is cut off at the end is not looked for in front of a character that stays. -/
theorem rdropWhile_append {p : Char → Bool} {s : QString} (hne : s ≠ []) (hl : ∀ c, s.getLast? = some c → p c = false)
    (t : QString) : (s ++ t).rdropWhile p = s ++ t.rdropWhile p := by
  have hs : s.reverse.dropWhile p = s.reverse := by
    obtain ⟨u, c, rfl⟩ := (List.eq_nil_or_concat s).resolve_left hne
    simp [hl c (by simp)]
  unfold List.rdropWhile
  rw [List.reverse_append, List.dropWhile_append, hs]
  split
  · rename_i h
    rw [List.isEmpty_iff] at h
    simp [h]
  · simp

theorem rdropWhile_append_of_ne_nil {s t : QString} (ht : t.rdropWhile isSpace ≠ []) :
    (s ++ t).rdropWhile isSpace = s ++ t.rdropWhile isSpace := by
  have hne : (t.reverse.dropWhile isSpace).isEmpty = false := by
    rw [List.isEmpty_eq_false_iff]
    exact fun h => ht (by unfold List.rdropWhile; rw [h]; rfl)
  unfold List.rdropWhile
  rw [List.reverse_append, List.dropWhile_append, hne]
  simp

/-! ### Simplified texts -/

section Simplified
variable {s t : QString}

theorem dropWhile_isSpace (h : ∀ c, s.head? = some c → isSpace c = false) : s.dropWhile isSpace = s := by
  cases s with
  | nil => rfl
  | cons c s => simp [h c rfl]

/-- A text that `simplified()` leaves in front of any other. -/
def Simple (s : QString) : Prop := ∀ rest, simplifiedFrom false (s ++ rest) = s ++ simplifiedFrom false rest

theorem Simple.append (hs : Simple s) (ht : Simple t) : Simple (s ++ t) := fun rest => by
  rw [List.append_assoc, hs, ht, List.append_assoc]

theorem simple_word (h : ∀ c ∈ s, isSpace c = false) : Simple s := by
  intro rest
  induction s with
  | nil => rfl
  | cons c s ih =>
    have hc := h c List.mem_cons_self
    rw [List.cons_append, simplifiedFrom, hc, if_neg Bool.false_ne_true, if_neg Bool.false_ne_true,
      ih fun d hd => h d (List.mem_cons_of_mem _ hd), List.cons_append]

theorem Simple.blank (hs : Simple s) (hne : s ≠ []) (h : ∀ c, s.head? = some c → isSpace c = false) : Simple (' ' :: s) := by
  intro rest
  rw [List.cons_append, List.cons_append, ← hs rest]
  cases s with
  | nil => exact absurd rfl hne
  | cons c s =>
    have hc := h c rfl
    have hspace : isSpace ' ' = true := by decide
    rw [List.cons_append, simplifiedFrom, hspace, if_pos rfl, simplifiedFrom, hc, if_neg Bool.false_ne_true, if_pos rfl,
      simplifiedFrom, hc, if_neg Bool.false_ne_true, if_neg Bool.false_ne_true]

theorem Simple.simplified (hs : Simple s) (h : ∀ c, s.head? = some c → isSpace c = false) : simplified s = s := by
  have hself := hs []
  rw [List.append_nil] at hself
  rw [QString.simplified, dropWhile_isSpace h, hself]
  exact List.append_nil s

end Simplified

/-! ### Numbers and lists -/

theorem isSpace_of_isDigit {c : Char} (h : c.isDigit = true) : isSpace c = false := by
  have hc : 48 ≤ c.toNat ∧ c.toNat ≤ 57 := by
    simp only [Char.isDigit, Bool.and_eq_true, decide_eq_true_eq] at h
    exact h
  simp only [isSpace, Bool.or_eq_false_iff, Bool.and_eq_false_iff, decide_eq_false_iff_not]
  omega

/-- Digits are neither trimmed nor signed. -/
theorem toLongLong_digits {s : QString} (hdigit : ∀ c ∈ s, c.isDigit = true) (hne : s ≠ []) (h : Nat.ofDigitChars 10 s 0 < 2 ^ 63) :
    toLongLong s = some (Nat.ofDigitChars 10 s 0 : Int) := by
  have htrim : trimmed s = s :=
    trimmed_eq_self (fun c hc => isSpace_of_isDigit (hdigit c (List.mem_of_mem_head? hc)))
      (fun c hc => isSpace_of_isDigit (hdigit c (List.mem_of_getLast? hc)))
  have hdigits : digits s = some (Nat.ofDigitChars 10 s 0) := by
    unfold digits
    rw [if_pos ⟨hne, List.all_eq_true.mpr hdigit⟩]
  unfold toLongLong
  rw [htrim]
  split
  · have := hdigit '-' List.mem_cons_self
    cases this
  · have := hdigit '+' List.mem_cons_self
    cases this
  · rw [hdigits, Option.map_some, Option.bind_eq_bind, Option.bind_some]
    exact if_pos ⟨by omega, by omega⟩

theorem toLongLong_number {n : Int} (h₀ : 0 ≤ n) (h : n < 0x8000000000000000) : toLongLong (number n) = some n := by
  obtain ⟨k, rfl⟩ := Int.eq_ofNat_of_zero_le h₀
  have hnumber : number k = Nat.toDigits 10 k := if_neg (by omega)
  rw [hnumber, toLongLong_digits (fun c hc => Nat.isDigit_of_mem_toDigits (by decide) (by decide) hc) Nat.toDigits_ne_nil
    (by rw [Nat.ofDigitChars_ten_toDigits]; omega), Nat.ofDigitChars_ten_toDigits]

theorem mem_number {c : Char} {n : Int} (h : c ∈ number n) : c = '-' ∨ c.isDigit = true := by
  unfold number at h
  split at h
  · exact (List.mem_cons.mp h).imp_right (Nat.isDigit_of_mem_toDigits (by decide) (by decide))
  · exact .inr (Nat.isDigit_of_mem_toDigits (by decide) (by decide) h)

theorem isDigit_of_mem_number {n : Nat} {c : Char} (h : c ∈ number n) : c.isDigit = true := by
  rw [number, if_neg (by omega)] at h
  exact Nat.isDigit_of_mem_toDigits (by decide) (by decide) h

theorem digits_number (n : Nat) : digits (number n) = some n := by
  have hnumber : number n = Nat.toDigits 10 n := by rw [number, if_neg (by omega), Int.natAbs_natCast]
  rw [digits, if_pos ⟨by rw [hnumber]; exact Nat.toDigits_ne_nil, List.all_eq_true.mpr fun _ => isDigit_of_mem_number⟩, hnumber,
    Nat.ofDigitChars_ten_toDigits]

/-- A sign is neither trimmed nor a digit. -/
theorem trimmed_number (n : Int) : trimmed (number n) = number n := by
  have hdigit : ∀ c ∈ Nat.toDigits 10 n.natAbs, isSpace c = false := fun c hc =>
    isSpace_of_isDigit (Nat.isDigit_of_mem_toDigits (by decide) (by decide) hc)
  have hspace : ∀ c ∈ number n, isSpace c = false := fun c hc => by
    unfold number at hc
    split at hc
    · rcases List.mem_cons.mp hc with rfl | hc
      · decide
      · exact hdigit c hc
    · exact hdigit c hc
  exact trimmed_eq_self (fun c hc => hspace c (List.mem_of_mem_head? hc)) (fun c hc => hspace c (List.mem_of_getLast? hc))

theorem number_natCast (n : Nat) : number n = Nat.toDigits 10 n := by
  rw [number, if_neg (by omega), Int.natAbs_natCast]

theorem digits_toDigits (n : Nat) : digits (Nat.toDigits 10 n) = some n := by rw [← number_natCast, digits_number]

/-- A number that fits is read back, whatever its sign. -/
theorem toLongLong_of_number {n : Int} (h₀ : -0x8000000000000000 ≤ n) (h : n < 0x8000000000000000) : toLongLong (number n) = some n := by
  rcases lt_or_ge n 0 with hneg | hnonneg
  · obtain ⟨k, rfl⟩ : ∃ k : Nat, n = -(k : Int) := ⟨n.natAbs, by omega⟩
    have habs : (-(k : Int)).natAbs = k := by omega
    have htrim : trimmed (number (-(k : Int))) = '-' :: Nat.toDigits 10 k := by rw [trimmed_number, number, if_pos hneg, habs]
    unfold toLongLong
    simp only [htrim, digits_toDigits]
    exact if_pos ⟨h₀, h⟩
  · exact toLongLong_number hnonneg h

theorem toInt_of_number {n : Int} (h₀ : -0x80000000 ≤ n) (h : n < 0x80000000) : toInt (number n) = some n := by
  rw [toInt, toLongLong_of_number (by omega) (by omega), Option.filter_some, if_pos (by simp; omega)]

theorem join_cons_cons (separator : Char) (s t : QString) (parts : List QString) :
    join separator (s :: t :: parts) = s ++ separator :: join separator (t :: parts) := by
  rw [join, List.intercalate_cons_cons, List.append_assoc]
  rfl

theorem mem_join {separator : Char} : ∀ {parts : List QString}, x ∈ join separator parts → x = separator ∨ ∃ s ∈ parts, x ∈ s
  | [], h => by cases h
  | [s], h => .inr ⟨s, List.mem_singleton_self s, by rwa [join, List.intercalate_singleton] at h⟩
  | s :: t :: parts, h => by
    rw [join_cons_cons, List.mem_append, List.mem_cons] at h
    obtain h | h | h := h
    · exact .inr ⟨s, List.mem_cons_self, h⟩
    · exact .inl h
    · exact (mem_join h).imp_right fun ⟨s, hs, hx⟩ => ⟨s, List.mem_cons_of_mem _ hs, hx⟩

theorem mem_join_of_mem {separator : Char} {s : QString} (hx : x ∈ s) :
    ∀ {parts : List QString}, s ∈ parts → x ∈ join separator parts
  | [t], h => by
    rwa [join, List.intercalate_singleton, ← List.mem_singleton.mp h]
  | t :: u :: parts, h => by
    rw [join_cons_cons, List.mem_append, List.mem_cons]
    obtain rfl | h := List.mem_cons.mp h
    · exact .inl hx
    · exact .inr (.inr (mem_join_of_mem hx h))

theorem notMem_join {separator : Char} {parts : List QString} (hx : x ≠ separator) (h : ∀ s ∈ parts, x ∉ s) :
    x ∉ join separator parts := fun hmem =>
  (mem_join hmem).elim hx fun ⟨s, hs, hmem⟩ => h s hs hmem

theorem notMem_of_mem_splitOn {α : Type} [DecidableEq α] {c : α} : ∀ {s t : List α}, t ∈ s.splitOn c → c ∉ t
  | [], t, h => by
    rw [List.splitOn_nil, List.mem_singleton] at h
    simp [h]
  | x :: s, t, h => by
    rw [List.splitOn_cons_eq_if_modifyHead] at h
    split at h
    · rcases List.mem_cons.mp h with rfl | h
      · simp
      · exact notMem_of_mem_splitOn h
    · rename_i hx
      cases hsplit : s.splitOn c with
      | nil => exact absurd hsplit (List.splitOn_ne_nil c s)
      | cons p parts =>
        rw [hsplit, List.modifyHead_cons] at h
        rcases List.mem_cons.mp h with rfl | h
        · have hp : c ∉ p := notMem_of_mem_splitOn (hsplit ▸ List.mem_cons_self)
          intro hmem
          rcases List.mem_cons.mp hmem with rfl | hmem
          · exact hx (beq_self_eq_true _)
          · exact hp hmem
        · exact notMem_of_mem_splitOn (hsplit ▸ List.mem_cons_of_mem _ h)

/-- Parts that are put behind each other, with a separator behind what is not empty. -/
theorem foldl_join {α : Type} (separator : Char) (f : α → QString) : ∀ (l : List α) (r : QString), (∀ p ∈ l, f p ≠ []) →
    l.foldl (fun r p => (if r.isEmpty then [] else r ++ [separator]) ++ f p) r =
      join separator ((r :: l.map f).filter (· ≠ []))
  | [], r, _ => by
    by_cases hr : r = []
    · simp [hr, join]
    · simp [hr, join]
  | p :: l, r, h => by
    have hp : f p ≠ [] := h p List.mem_cons_self
    have ih := foldl_join separator f l ((if r.isEmpty then [] else r ++ [separator]) ++ f p)
      fun q hq => h q (List.mem_cons_of_mem _ hq)
    rw [List.foldl_cons, ih]
    by_cases hr : r = []
    · simp [hr, hp]
    · have hmap : ∀ {q : QString}, q ∈ l.map f → q ≠ [] := fun hq => by
        obtain ⟨p, hp, rfl⟩ := List.mem_map.mp hq
        exact h p (List.mem_cons_of_mem _ hp)
      have hfilter : (l.map f).filter (· ≠ []) = l.map f := List.filter_eq_self.mpr fun q hq => decide_eq_true (hmap hq)
      simp only [List.isEmpty_iff, hr, if_false, List.map_cons, List.filter_cons, hp, ne_eq, List.append_eq_nil_iff, and_false,
        not_false_eq_true, decide_true, if_true, hfilter, join_cons_cons]
      cases l.map f with
      | nil => simp [join]
      | cons q rest => simp [join_cons_cons]

theorem foldl_append_join {α : Type} (separator : Char) (f : α → QString) (l : List α) (s : QString) :
    l.foldl (fun s a => s ++ separator :: f a) s = join separator (s :: l.map f) := by
  induction l generalizing s with
  | nil =>
    rw [join, List.map_nil, List.intercalate_singleton]
    rfl
  | cons a l ih =>
    rw [List.foldl_cons, ih, List.map_cons, join_cons_cons]
    cases l with
    | nil => rw [List.map_nil, join, join, List.intercalate_singleton, List.intercalate_singleton]
    | cons b l => rw [List.map_cons, join_cons_cons, join_cons_cons, List.append_assoc, List.cons_append]

theorem splitParts_append (c : Char) (s t : QString) : splitParts c (s ++ c :: t) = splitParts c s ++ splitParts c t := by
  rw [splitParts, List.splitOn_append_cons_self, List.filter_append]
  rfl

theorem splitParts_of_notMem {c : Char} {s : QString} (hc : c ∉ s) (hs : s ≠ []) : splitParts c s = [s] := by
  rw [splitParts, List.splitOn_eq_singleton hc]
  exact List.filter_eq_self.mpr (by simpa using hs)

/-- Parts with a separator behind each. -/
theorem splitParts_flatMap {c : Char} : ∀ {parts : List QString}, (∀ s ∈ parts, c ∉ s ∧ s ≠ []) →
    splitParts c (parts.flatMap (· ++ [c])) = parts
  | [], _ => by simp [splitParts]
  | s :: parts, h => by
    rw [List.forall_mem_cons] at h
    rw [List.flatMap_cons, List.append_assoc, List.singleton_append, splitParts_append, splitParts_of_notMem h.1.1 h.1.2,
      splitParts_flatMap h.2]
    rfl

/-- Joined parts are split again, but for the empty ones. -/
theorem splitParts_join_filter {separator : Char} {parts : List QString} (hs : ∀ s ∈ parts, separator ∉ s) :
    splitParts separator (join separator parts) = parts.filter (· ≠ []) := by
  unfold splitParts join
  by_cases hparts : parts = []
  · subst hparts
    rfl
  · rw [List.splitOn_intercalate separator hs hparts]

theorem splitParts_join {separator : Char} {parts : List QString} (hne : ∀ s ∈ parts, s ≠ [])
    (hs : ∀ s ∈ parts, separator ∉ s) : splitParts separator (join separator parts) = parts := by
  rw [splitParts_join_filter hs]
  exact List.filter_eq_self.mpr fun s h => decide_eq_true (hne s h)

end QString
end Snapwebsites
