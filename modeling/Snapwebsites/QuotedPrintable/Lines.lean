import Snapwebsites.QuotedPrintable.Encoder

/-! # The lines of an encoded text

The pieces are laid out on a page, where a line that is full ends in an `=`. Every line has the form of quoted printable; a period
comes to stand alone only where the blank in front of it takes the last column. -/

namespace Snapwebsites
namespace QuotedPrintable

/-! ### Lines -/

/-- The lines of a text between its line ends; the counter is what is left of a line end. -/
def splitLines (nl : List Byte) : Nat → List Byte → List (List Byte)
  | _, [] => [[]]
  | n + 1, _ :: s => splitLines nl n s
  | 0, c :: s =>
    if nl.isPrefixOf (c :: s) then [] :: splitLines nl (nl.length - 1) s
    else (splitLines nl 0 s).modifyHead (c :: ·)

def isHexDigit (c : Byte) : Bool := byte '0' ≤ c && c ≤ byte '9' || byte 'A' ≤ c && c ≤ byte 'F'

/-- Characters that stand for themselves and whole codes. -/
inductive Coded : List Byte → Prop
  | nil : Coded []
  | plain {c : Byte} {s : List Byte} (hc : c ≠ byte '=') (h : Coded s) : Coded (c :: s)
  | hex {x y : Byte} {s : List Byte} (hx : isHexDigit x) (hy : isHexDigit y) (h : Coded s) : Coded (byte '=' :: x :: y :: s)

/-- The form of a line, with the `=` that ends it where the line goes on. -/
structure IsLine (l : List Byte) : Prop where
  length : l.length ≤ 76
  printable : ∀ c ∈ l, c = byte '\t' ∨ byte ' ' ≤ c ∧ c ≤ byte '~'
  blank : ∀ c, l.getLast? = some c → isBlank c = false
  coded : Coded l ∨ ∃ a, l = a ++ [byte '='] ∧ Coded a

/-- The form of an encoded text. -/
def InLines (flags : BitVec 32) (t : List Byte) : Prop :=
  ∀ l ∈ splitLines (lineEnd flags) 0 t, IsLine l ∧ (hasFlag flags noLonePeriod → l ≠ [byte '.'])

/-! ### The page -/

/-- The lines that ended, and the line that is being written. -/
structure Page where
  lines : List (List Byte) := []
  last : List Byte := []

variable {e : Encoder} {c next : Byte} {p : Piece} {ps : List Piece} {s t l nl x y : List Byte} {flags : BitVec 32} {g : Page}

/-- The page with the last line full. -/
def Page.full (g : Page) : List (List Byte) := g.lines ++ [g.last ++ [byte '=']]

def Page.put (g : Page) : Piece → Page
  | .plain c => if g.last.length ≥ 75 then { lines := g.full, last := [c] } else { g with last := g.last ++ [c] }
  | .hex c => if g.last.length ≥ 73 then { lines := g.full, last := hexCode c } else { g with last := g.last ++ hexCode c }
  | .lineEnd => { lines := g.lines ++ [g.last], last := [] }

def Page.all (g : Page) : List (List Byte) := g.lines ++ [g.last]

/-- The encoder has written the page. -/
structure Writes (e : Encoder) (g : Page) : Prop where
  result : e.result = g.lines.flatMap (· ++ lineEnd e.flags) ++ g.last
  line : e.line = g.last.length

theorem softBreak_eq (flags : BitVec 32) : softBreak flags = byte '=' :: lineEnd flags := by
  rw [softBreak, lineEnd]
  split
  · rfl
  · rfl

/-- A piece is written on the page as the encoder puts it. -/
theorem Writes.put (h : Writes e g) (hp : p.Valid) : Writes (put e p) (g.put p) := by
  have hfull : ∀ a, e.result ++ softBreak e.flags ++ a = g.full.flatMap (· ++ lineEnd e.flags) ++ a := by
    intro a
    rw [h.result, softBreak_eq, Page.full, List.flatMap_append, List.flatMap_singleton]
    simp
  cases p with
  | plain c =>
    rw [QuotedPrintable.put, addByte_plain hp.not_special.2, Page.put, h.line]
    split
    · exact ⟨hfull [c], rfl⟩
    · exact ⟨by rw [h.result, List.append_assoc], by rw [List.length_append]; rfl⟩
  | hex c =>
    rw [put_hex, Page.put, h.line]
    split
    · exact ⟨hfull (hexCode c), rfl⟩
    · exact ⟨by rw [h.result, List.append_assoc], by rw [List.length_append]; rfl⟩
  | lineEnd =>
    rw [put_lineEnd, Page.put]
    refine ⟨?_, rfl⟩
    rw [h.result, List.flatMap_append, List.flatMap_singleton, List.append_nil, List.append_assoc]

theorem Writes.foldl (h : Writes e g) (hps : ∀ p ∈ ps, p.Valid) : Writes (ps.foldl QuotedPrintable.put e) (ps.foldl Page.put g) := by
  induction ps generalizing e g with
  | nil => exact h
  | cons p ps ih => exact ih (h.put (hps p List.mem_cons_self)) fun q hq => hps q (List.mem_cons_of_mem _ hq)

theorem Writes.holding (h : Writes e g) (b : Byte) (r : Bool) : Writes (QuotedPrintable.holding e b r) g := ⟨h.result, h.line⟩

theorem Writes.addNext (h : Writes e g) (hheld : Holds e) (hc : c ≠ 0) :
    Writes (addNext e c next) ((pieces e c next).foldl Page.put g) := by
  rw [addNext_eq]
  exact (h.foldl fun p hp => pieces_valid hheld hc hp).holding _ _

/-! ### Splitting a page -/

theorem splitLines_skip (nl : List Byte) (x t : List Byte) : splitLines nl x.length (x ++ t) = splitLines nl 0 t := by
  induction x with
  | nil => rfl
  | cons c x ih => exact ih

theorem splitLines_end (hnl : nl ≠ []) (t : List Byte) : splitLines nl 0 (nl ++ t) = [] :: splitLines nl 0 t := by
  obtain ⟨c, x, rfl⟩ := List.exists_cons_of_ne_nil hnl
  rw [List.cons_append, splitLines, if_pos (by simp), List.length_cons, Nat.add_sub_cancel, splitLines_skip]

theorem splitLines_cons (hc : nl.head? ≠ some c) (hnl : nl ≠ []) (t : List Byte) :
    splitLines nl 0 (c :: t) = (splitLines nl 0 t).modifyHead (c :: ·) := by
  obtain ⟨d, x, rfl⟩ := List.exists_cons_of_ne_nil hnl
  have hne : d ≠ c := fun h => hc (by rw [h]; rfl)
  rw [splitLines, if_neg]
  simp [hne]

theorem splitLines_append (hl : ∀ c ∈ l, nl.head? ≠ some c) (hnl : nl ≠ []) (t : List Byte) :
    splitLines nl 0 (l ++ t) = (splitLines nl 0 t).modifyHead (l ++ ·) := by
  induction l with
  | nil => exact (congrFun List.modifyHead_id (splitLines nl 0 t)).symm
  | cons c l ih =>
    rw [List.cons_append, splitLines_cons (hl c List.mem_cons_self) hnl, ih fun c hc => hl c (List.mem_cons_of_mem _ hc),
      List.modifyHead_modifyHead]
    rfl

theorem splitLines_page (hnl : nl ≠ []) {ls : List (List Byte)} (hls : ∀ l ∈ ls ++ [x], ∀ c ∈ l, nl.head? ≠ some c) :
    splitLines nl 0 (ls.flatMap (· ++ nl) ++ x) = ls ++ [x] := by
  induction ls with
  | nil =>
    have h := splitLines_append (hls x (by simp)) hnl []
    rw [List.append_nil] at h
    rw [List.flatMap_nil, List.nil_append, h]
    simp [splitLines]
  | cons l ls ih =>
    rw [List.flatMap_cons, List.append_assoc, List.append_assoc, splitLines_append (hls l (by simp)) hnl, splitLines_end hnl,
      ih fun l hl => hls l (List.mem_cons_of_mem _ hl)]
    simp

theorem lineEnd_ne_nil (flags : BitVec 32) : lineEnd flags ≠ [] := by
  rw [lineEnd]
  split
  · exact List.cons_ne_nil _ _
  · exact List.cons_ne_nil _ _

theorem head_lineEnd (h : (lineEnd flags).head? = some c) : ¬ (c = byte '\t' ∨ byte ' ' ≤ c ∧ c ≤ byte '~') := by
  rw [lineEnd] at h
  split at h
  · rw [← Option.some.inj h]
    decide
  · rw [← Option.some.inj h]
    decide

/-! ### The form of the lines -/

theorem Coded.append (h : Coded x) (h' : Coded y) : Coded (x ++ y) := by
  induction h with
  | nil => exact h'
  | plain hc h ih => exact ih.plain hc
  | hex hx hy h ih => exact ih.hex hx hy

theorem toHex_digit (c : Byte) : isHexDigit (toHex c) = true :=
  forall_digit (q := fun _ d => isHexDigit d = true) (by decide) c

theorem coded_hexCode (c : Byte) : Coded (hexCode c) := Coded.nil.hex (toHex_digit _) (toHex_digit _)

/-- A character that stands on a line. -/
def Printable (c : Byte) : Prop := c = byte '\t' ∨ byte ' ' ≤ c ∧ c ≤ byte '~'

theorem printable_hexCode (hc : x = hexCode c) (h : next ∈ x) : Printable next := by
  have hdigit : ∀ c : Byte, Printable (toHex c) :=
    forall_digit (q := fun _ d => Printable d) (by unfold Printable; decide)
  subst hc
  simp only [hexCode, List.mem_cons, List.not_mem_nil, or_false] at h
  rcases h with rfl | rfl | rfl
  · exact .inr (by decide)
  · exact hdigit _
  · exact hdigit _

/-- A blank is the last character. -/
def Trails (l : List Byte) : Prop := ∃ c, l.getLast? = some c ∧ isBlank c

theorem not_trails_append (hc : isBlank c = false) (l : List Byte) : ¬ Trails (l ++ [c]) := by
  rintro ⟨d, hd, hblank⟩
  rw [List.getLast?_concat] at hd
  rw [← Option.some.inj hd, hc] at hblank
  cases hblank

theorem not_trails_hexCode (c : Byte) (l : List Byte) : ¬ Trails (l ++ hexCode c) := by
  have hdigit : ∀ c : Byte, isBlank (toHex c) = false :=
    forall_digit (q := fun _ d => isBlank d = false) (by decide)
  have happend : l ++ hexCode c = l ++ [byte '=', toHex (c >>> 4)] ++ [toHex c] := by
    rw [List.append_assoc]
    rfl
  rw [happend]
  exact not_trails_append (hdigit c) _

/-- What the line that is being written is made of. -/
structure IsPart (l : List Byte) : Prop where
  length : l.length ≤ 75
  printable : ∀ c ∈ l, Printable c
  coded : Coded l

theorem IsPart.isLine (h : IsPart l) (hend : ¬ Trails l) : IsLine l :=
  ⟨h.length.trans (Nat.le_succ _), h.printable, fun c hc => by
    rw [Bool.eq_false_iff]
    exact fun hblank => hend ⟨c, hc, hblank⟩, .inl h.coded⟩

/-- A line that is full goes on behind its `=`. -/
theorem IsPart.isLine_full (h : IsPart l) : IsLine (l ++ [byte '=']) := by
  refine ⟨?_, ?_, ?_, .inr ⟨l, rfl, h.coded⟩⟩
  · rw [List.length_append]
    exact Nat.succ_le_succ h.length
  · intro c hc
    rcases List.mem_append.mp hc with hc | hc
    · exact h.printable c hc
    · rw [List.mem_singleton.mp hc]
      exact .inr (by decide)
  · intro c hc
    rw [List.getLast?_concat] at hc
    rw [← Option.some.inj hc]
    decide

theorem isPart_nil : IsPart [] := ⟨Nat.zero_le _, by simp, .nil⟩

theorem IsPart.append (h : IsPart x) (h' : IsPart y) (hlength : x.length + y.length ≤ 75) : IsPart (x ++ y) := by
  refine ⟨by rwa [List.length_append], fun c hc => ?_, h.coded.append h'.coded⟩
  rcases List.mem_append.mp hc with hc | hc
  · exact h.printable c hc
  · exact h'.printable c hc

theorem isPart_plain (hc : (Piece.plain c).Valid) : IsPart [c] :=
  ⟨by simp, fun d hd => by rw [List.mem_singleton.mp hd]; exact hc.1, Coded.nil.plain hc.2⟩

theorem isPart_hexCode (c : Byte) : IsPart (hexCode c) :=
  ⟨by simp [hexCode], fun _ hd => printable_hexCode rfl hd, coded_hexCode c⟩

/-- The lines that ended have their form, and the last one can still get it. -/
structure Laid (g : Page) : Prop where
  lines : ∀ l ∈ g.lines, IsLine l
  last : IsPart g.last

theorem Laid.full (h : Laid g) (hl : l ∈ g.full) : IsLine l := by
  rcases List.mem_append.mp hl with hl | hl
  · exact h.lines l hl
  · rw [List.mem_singleton.mp hl]
    exact h.last.isLine_full

theorem Laid.put (h : Laid g) (hp : p.Valid) (hend : p = .lineEnd → ¬ Trails g.last) : Laid (g.put p) := by
  cases p with
  | plain c =>
    rw [Page.put]
    split
    · exact ⟨fun l => h.full, isPart_plain hp⟩
    · exact ⟨h.lines, h.last.append (isPart_plain hp) (by rw [List.length_singleton]; omega)⟩
  | hex c =>
    rw [Page.put]
    split
    · exact ⟨fun l => h.full, isPart_hexCode c⟩
    · have hcode : (hexCode c).length = 3 := rfl
      exact ⟨h.lines, h.last.append (isPart_hexCode c) (by omega)⟩
  | lineEnd =>
    refine ⟨fun l hl => ?_, isPart_nil⟩
    rcases List.mem_append.mp hl with hl | hl
    · exact h.lines l hl
    · rw [List.mem_singleton.mp hl]
      exact h.last.isLine (hend rfl)

theorem not_trails_put_hex (g : Page) (c : Byte) : ¬ Trails (g.put (.hex c)).last := by
  rw [Page.put]
  split
  · exact not_trails_hexCode c []
  · exact not_trails_hexCode c g.last

theorem not_trails_put_plain (hc : isBlank c = false) (g : Page) : ¬ Trails (g.put (.plain c)).last := by
  rw [Page.put]
  split
  · exact not_trails_append hc []
  · exact not_trails_append hc g.last

theorem Laid.put_text (h : Laid g) (hp : p.Valid) (hne : p ≠ .lineEnd) : Laid ([p].foldl Page.put g) :=
  h.put hp fun heq => absurd heq hne

theorem Laid.put_held_plain (h : Laid g) (hheld : Holds e) : Laid ((held .plain e).foldl Page.put g) := by
  have hvalid : ∀ p ∈ held .plain e, p.Valid := fun p hp => hheld.held (.inl rfl) hp
  rw [held] at hvalid ⊢
  split
  · rw [if_pos ‹_›] at hvalid
    exact h.put_text (hvalid _ (List.mem_singleton_self _)) Piece.noConfusion
  · exact h

/-- A blank that is held back goes on the line in hex where the line ends behind it. -/
theorem Laid.put_held_hex (h : Laid g) (hheld : Holds e) (hend : Trails g.last → e.buffer ≠ 0) :
    Laid ((held .hex e).foldl Page.put g) ∧ ¬ Trails ((held .hex e).foldl Page.put g).last := by
  rw [held]
  split
  · exact ⟨h.put_text (valid_blank (hheld.resolve_left ‹_›)).2 Piece.noConfusion, not_trails_put_hex g e.buffer⟩
  · exact ⟨h, fun htrails => ‹¬ e.buffer ≠ 0› (hend htrails)⟩

variable (next) in
/-- A character leaves the page with its lines, and a blank at its end only while another is held back. -/
theorem Laid.addNext (h : Laid g) (hheld : Holds e) (hc : c ≠ 0) (hend : Trails g.last → e.buffer ≠ 0) :
    Laid ((pieces e c next).foldl Page.put g) ∧
      (Trails ((pieces e c next).foldl Page.put g).last → (addNext e c next).buffer ≠ 0) := by
  have hvalid : ∀ p ∈ pieces e c next, p.Valid := fun p hp => pieces_valid hheld hc hp
  obtain ⟨ps, b, r, hadds, hpieces, heq⟩ := exists_adds e c next
  have hbuffer : (QuotedPrintable.addNext e c next).buffer = b := by
    rw [heq]
    rfl
  rw [hpieces] at hvalid
  rw [hpieces, hbuffer]
  cases hadds with
  | hex => exact ⟨h.put_text (p := .hex c) hc Piece.noConfusion, fun htrails => absurd htrails (not_trails_put_hex g c)⟩
  | blank => exact ⟨h.put_held_plain hheld, fun _ => hc⟩
  | merged => exact ⟨h, hend⟩
  | lineEnd =>
    obtain ⟨hlaid, hnot⟩ := h.put_held_hex hheld hend
    rw [List.foldl_append]
    refine ⟨hlaid.put (p := .lineEnd) trivial fun _ => hnot, ?_⟩
    rintro ⟨d, hd, -⟩
    cases hd
  | plain hhex hblank hline =>
    rw [List.foldl_append]
    refine ⟨(h.put_held_plain hheld).put_text (hvalid (.plain c) (by simp)) Piece.noConfusion, fun htrails => ?_⟩
    exact absurd htrails (not_trails_put_plain hblank _)

/-- The page of a text: every line has its form, the last one too. -/
theorem Laid.allPieces (h : Laid g) (hheld : Holds e) (hs : 0 ∉ s) (hend : Trails g.last → e.buffer ≠ 0) :
    ∀ l ∈ ((allPieces e s).foldl Page.put g).all, IsLine l := by
  induction s generalizing e g with
  | nil =>
    obtain ⟨hlaid, hnot⟩ := h.put_held_hex hheld hend
    intro l hl
    rcases List.mem_append.mp hl with hl | hl
    · exact hlaid.lines l hl
    · rw [List.mem_singleton.mp hl]
      exact hlaid.last.isLine hnot
  | cons c s ih =>
    rw [List.mem_cons, not_or] at hs
    obtain ⟨hlaid, hend⟩ := h.addNext (s.headD 0) hheld (Ne.symm hs.1) hend
    rw [QuotedPrintable.allPieces, List.foldl_append]
    exact ih hlaid (hheld.addNext _ _) hs.2 hend

/-- The lines of an encoded text are those of its page, and have their form. -/
theorem lines_encode (flags : BitVec 32) (hs : 0 ∉ s) :
    splitLines (lineEnd flags) 0 (encode flags s) = ((allPieces { flags } s).foldl Page.put {}).all ∧
      ∀ l ∈ ((allPieces { flags } s).foldl Page.put {}).all, IsLine l := by
  have hwrites : Writes { flags } {} := ⟨rfl, rfl⟩
  have hvalid := fun p (hp : p ∈ allPieces { flags } s) => allPieces_valid (.inl rfl) hs hp
  have hresult := (hwrites.foldl hvalid).result
  rw [foldl_put_flags] at hresult
  have hlaid : Laid {} := ⟨by simp, isPart_nil⟩
  have hlines := hlaid.allPieces (e := { flags }) (.inl rfl) hs fun h => by
    obtain ⟨c, hc, -⟩ := h
    cases hc
  rw [encode_eq flags hs, hresult]
  exact ⟨splitLines_page (lineEnd_ne_nil flags) fun l hl c hc h => head_lineEnd h ((hlines l hl).printable c hc), hlines⟩

/-! ### Periods -/

/-- A line end or the end of the text comes next. -/
def Ends (next : Byte) : Prop := isLineEnd next ∨ next = 0

/-- The blank in front of a period takes the last column, and the line ends behind the period. -/
def Squeezed (e : Encoder) (c next : Byte) : Prop := c = byte '.' ∧ Ends next ∧ e.line = 74 ∧ e.buffer ≠ 0

/-- No period is squeezed off its line. -/
def Fits : Encoder → List Byte → Prop
  | _, [] => True
  | e, c :: s => ¬ Squeezed e c (s.headD 0) ∧ Fits (addNext e c (s.headD 0)) s

def IsLone (l : List Byte) : Prop := l = [byte '.']

theorem not_isLone (h : 1 < l.length) : ¬ IsLone l := by
  rintro rfl
  exact absurd h (by decide)

/-- No line is a single period, and one that is being written can become more. -/
structure NoLone (e : Encoder) (g : Page) (next : Byte) : Prop where
  lines : ∀ l ∈ g.lines, ¬ IsLone l
  last : IsLone g.last → e.buffer ≠ 0 ∨ ¬ Ends next

theorem not_isLone_full (h : ∀ l ∈ g.lines, ¬ IsLone l) (hlast : g.last ≠ []) (hl : l ∈ g.full) : ¬ IsLone l := by
  rcases List.mem_append.mp hl with hl | hl
  · exact h l hl
  · rw [List.mem_singleton.mp hl]
    refine not_isLone ?_
    rw [List.length_append]
    exact Nat.succ_lt_succ (List.length_pos_iff.mpr hlast)

theorem put_hex_lone (h : ∀ l ∈ g.lines, ¬ IsLone l) (c : Byte) :
    (∀ l ∈ (g.put (.hex c)).lines, ¬ IsLone l) ∧ ¬ IsLone (g.put (.hex c)).last := by
  have hcode : (hexCode c).length = 3 := rfl
  rw [Page.put]
  split
  · have hne : g.last ≠ [] := List.length_pos_iff.mp (by omega)
    exact ⟨fun l hl => not_isLone_full h hne hl, not_isLone (l := hexCode c) (by omega)⟩
  · exact ⟨h, not_isLone (by rw [List.length_append]; omega)⟩

theorem put_plain_lone (h : ∀ l ∈ g.lines, ¬ IsLone l) (c : Byte) : (∀ l ∈ (g.put (.plain c)).lines, ¬ IsLone l) ∧
    (IsLone (g.put (.plain c)).last → c = byte '.' ∧ (g.last = [] ∨ g.last.length ≥ 75)) := by
  rw [Page.put]
  split
  · have hne : g.last ≠ [] := List.length_pos_iff.mp (by omega)
    exact ⟨fun l hl => not_isLone_full h hne hl, fun hlone => ⟨List.singleton_inj.mp hlone, .inr ‹_›⟩⟩
  · refine ⟨h, fun hlone => ?_⟩
    have hlast : g.last = [] := by
      have hlength := congrArg List.length hlone
      rw [List.length_append] at hlength
      exact List.length_eq_zero_iff.mp (Nat.succ.inj hlength)
    have hlone : g.last ++ [c] = [byte '.'] := hlone
    rw [hlast] at hlone
    exact ⟨List.singleton_inj.mp hlone, .inl hlast⟩

theorem held_plain_lone (h : ∀ l ∈ g.lines, ¬ IsLone l) : ∀ l ∈ ((held .plain e).foldl Page.put g).lines, ¬ IsLone l := by
  rw [held]
  split
  · exact (put_plain_lone h e.buffer).1
  · exact h

theorem held_hex_lone (h : NoLone e g next) (hnext : Ends next) :
    (∀ l ∈ ((held .hex e).foldl Page.put g).lines, ¬ IsLone l) ∧ ¬ IsLone ((held .hex e).foldl Page.put g).last := by
  rw [held]
  split
  · exact put_hex_lone h.lines e.buffer
  · refine ⟨h.lines, fun hlone => ?_⟩
    rcases h.last hlone with hbuffer | hnot
    · exact ‹¬ e.buffer ≠ 0› hbuffer
    · exact hnot hnext

/-- The column behind a blank that was held back. -/
theorem held_plain_last (g : Page) (hbuffer : e.buffer ≠ 0) : ((held .plain e).foldl Page.put g).last.length =
    if g.last.length ≥ 75 then 1 else g.last.length + 1 := by
  have hheld : held .plain e = [.plain e.buffer] := by rw [held, if_pos hbuffer]
  rw [hheld]
  show (g.put (.plain e.buffer)).last.length = _
  rw [Page.put]
  split
  · rfl
  · exact List.length_append

/-- A period that gets a line of its own without being encoded was squeezed off the line in front of it. -/
theorem NoLone.addNext (h : NoLone e g c) (hflag : hasFlag e.flags noLonePeriod = true) (hwrites : Writes e g)
    (hc : c ≠ 0) (hfits : ¬ Squeezed e c next) :
    NoLone (addNext e c next) ((pieces e c next).foldl Page.put g) next := by
  obtain ⟨ps, b, r, hadds, hpieces, heq⟩ := exists_adds e c next
  have hbuffer : (QuotedPrintable.addNext e c next).buffer = b := by
    rw [heq]
    rfl
  rw [hpieces]
  refine ⟨?_, ?_⟩
  · cases hadds with
    | hex => exact (put_hex_lone h.lines c).1
    | blank => exact held_plain_lone h.lines
    | merged => exact h.lines
    | lineEnd _ hline =>
      obtain ⟨hlines, hlast⟩ := held_hex_lone h (.inl hline)
      rw [List.foldl_append]
      intro l hl
      rcases List.mem_append.mp hl with hl | hl
      · exact hlines l hl
      · rw [List.mem_singleton.mp hl]
        exact hlast
    | plain =>
      rw [List.foldl_append]
      exact (put_plain_lone (held_plain_lone h.lines) c).1
  · rw [hbuffer]
    intro hlone
    cases hadds with
    | hex => exact absurd hlone (put_hex_lone h.lines c).2
    | blank => exact .inl hc
    | merged _ hlf =>
      refine .inl ((h.last hlone).resolve_right fun hnot => hnot (.inl ?_))
      rw [hlf]
      rfl
    | lineEnd =>
      rw [List.foldl_append] at hlone
      cases hlone
    | plain hhex =>
      refine .inr fun hnext => ?_
      rw [List.foldl_append] at hlone
      obtain ⟨rfl, hwhere⟩ := (put_plain_lone (held_plain_lone h.lines) c).2 hlone
      -- the period is encoded at the first column and behind the last one
      have hcolumn : ¬ (e.line = 0 ∨ e.line ≥ 75) := by
        intro hline
        have hlone : isLonePeriod e (byte '.') next = true := by
          simp only [isLonePeriod, hflag, Bool.true_and, Bool.and_eq_true, Bool.or_eq_true, decide_eq_true_eq, true_and]
          exact ⟨hnext, hline⟩
        rw [hexed, hlone] at hhex
        cases hhex
      rw [hwrites.line] at hcolumn
      by_cases hheld : e.buffer = 0
      · have hnil : held .plain e = [] := by rw [held, if_neg (by simpa using hheld)]
        rw [hnil] at hwhere
        rcases hwhere with hwhere | hwhere
        · exact hcolumn (.inl (List.length_eq_zero_iff.mpr hwhere))
        · exact hcolumn (.inr hwhere)
      · have hlast := held_plain_last g hheld
        refine hfits ⟨rfl, hnext, ?_, hheld⟩
        rw [hwrites.line]
        rcases hwhere with hwhere | hwhere
        · rw [hwhere] at hlast
          split at hlast
          · cases hlast
          · cases hlast
        · rw [hlast] at hwhere
          split at hwhere
          · omega
          · omega

theorem NoLone.allPieces (h : NoLone e g (s.headD 0)) (hflag : hasFlag e.flags noLonePeriod = true) (hwrites : Writes e g)
    (hheld : Holds e) (hs : 0 ∉ s) (hfits : Fits e s) : ∀ l ∈ ((allPieces e s).foldl Page.put g).all, ¬ IsLone l := by
  induction s generalizing e g with
  | nil =>
    obtain ⟨hlines, hlast⟩ := held_hex_lone h (.inr rfl)
    intro l hl
    rcases List.mem_append.mp hl with hl | hl
    · exact hlines l hl
    · rw [List.mem_singleton.mp hl]
      exact hlast
  | cons c s ih =>
    rw [List.mem_cons, not_or] at hs
    have hc := Ne.symm hs.1
    rw [QuotedPrintable.allPieces, List.foldl_append]
    exact ih (h.addNext hflag hwrites hc hfits.1) (by rw [addNext_flags, hflag]) (hwrites.addNext hheld hc) (hheld.addNext _ _)
      hs.2 hfits.2

theorem mem_foldl_put (h : l ∈ g.lines) (ps : List Piece) : l ∈ (ps.foldl Page.put g).lines := by
  induction ps generalizing g with
  | nil => exact h
  | cons p ps ih =>
    refine ih ?_
    cases p with
    | plain c =>
      rw [Page.put]
      split
      · exact List.mem_append_left _ h
      · exact h
    | hex c =>
      rw [Page.put]
      split
      · exact List.mem_append_left _ h
      · exact h
    | lineEnd => exact List.mem_append_left _ h

/-- Nothing is held back where blanks are encoded. -/
def NoBlanks (e : Encoder) : Prop := hasFlag e.flags binary = true → e.buffer = 0

theorem NoBlanks.addNext (h : NoBlanks e) (c next : Byte) : NoBlanks (addNext e c next) := by
  intro hbinary
  rw [addNext_flags] at hbinary
  obtain ⟨ps, b, r, hadds, -, heq⟩ := exists_adds e c next
  have hbuffer : (QuotedPrintable.addNext e c next).buffer = b := by
    rw [heq]
    rfl
  rw [hbuffer]
  cases hadds with
  | hex => exact h hbinary
  | blank hhex hblank =>
    have hencode : encodeChar e.flags c = true := by rw [encodeChar, hblank, Bool.or_true, if_pos rfl, hbinary]
    rw [hexed, hencode, Bool.or_true] at hhex
    cases hhex
  | merged => exact h hbinary
  | lineEnd => rfl
  | plain => rfl

/-- A squeezed period stands alone on the page. -/
theorem Squeezed.last (h : Squeezed e c next) (hwrites : Writes e g) : ((pieces e c next).foldl Page.put g).last = [byte '.'] ∧
    (addNext e c next).buffer = 0 ∧ (addNext e c next).cr = false := by
  obtain ⟨rfl, hnext, hline, hbuffer⟩ := h
  have hlone : isLonePeriod e (byte '.') next = false := by
    rw [isLonePeriod, hline, Bool.and_eq_false_iff]
    exact .inr rfl
  have hencode : encodeChar e.flags (byte '.') = false := by
    rw [encodeChar, if_neg (by decide), if_neg (by decide), if_neg (by decide)]
    rfl
  have hhex : ¬ hexed e (byte '.') next = true := by
    rw [hexed, hlone, hencode]
    exact Bool.false_ne_true
  have hblank : ¬ isBlank (byte '.') = true := by decide
  have hlf : ¬ (byte '.' = byte '\n' ∧ e.cr = true) := fun h => absurd h.1 (by decide)
  have hline' : ¬ isLineEnd (byte '.') = true := by decide
  have hlength := held_plain_last g hbuffer
  rw [addNext_eq, pieces, buffered, crAfter, if_neg hhex, if_neg hhex, if_neg hhex, if_neg hblank, if_neg hblank, if_neg hblank,
    if_neg hlf, if_neg hlf, if_neg hline', List.foldl_append]
  refine ⟨?_, rfl, rfl⟩
  rw [← hwrites.line, hline, if_neg (by decide)] at hlength
  show (Page.put _ (.plain (byte '.'))).last = _
  rw [Page.put, hlength, if_pos (le_refl _)]

/-- A line end behind the page that is being written ends its line. -/
theorem put_lineEnd_last (hbuffer : e.buffer = 0) (hcr : e.cr = false) (hbinary : hasFlag e.flags binary = false)
    (hline : isLineEnd c = true) (next : Byte) : g.last ∈ ((pieces e c next).foldl Page.put g).lines := by
  have hperiod : c ≠ byte '.' := by
    rintro rfl
    cases hline
  have hblank : isBlank c = false := by
    rw [Bool.eq_false_iff]
    intro hblank
    rw [blank_not_lineEnd hblank] at hline
    cases hline
  have hhex : ¬ hexed e c next = true := by
    rw [hexed, isLonePeriod, decide_eq_false hperiod, Bool.and_false, Bool.false_and, Bool.false_and, Bool.false_or, encodeChar,
      hline, Bool.true_or, if_pos rfl, hbinary]
    exact Bool.false_ne_true
  have hlf : ¬ (c = byte '\n' ∧ e.cr = true) := fun h => by
    rw [hcr] at h
    cases h.2
  rw [pieces, if_neg hhex, hblank, if_neg Bool.false_ne_true, if_neg hlf, if_pos hline, held, if_neg (by simpa using hbuffer)]
  exact List.mem_append_right _ (List.mem_singleton_self _)

/-- Where a period is squeezed off its line, it is a line of its own. -/
theorem exists_lone (hwrites : Writes e g) (hheld : Holds e) (hblanks : NoBlanks e) (hs : 0 ∉ s) (hfits : ¬ Fits e s) :
    ∃ l ∈ ((allPieces e s).foldl Page.put g).all, IsLone l := by
  induction s generalizing e g with
  | nil => exact absurd trivial hfits
  | cons c s ih =>
    rw [List.mem_cons, not_or] at hs
    rw [allPieces, List.foldl_append]
    by_cases hsqueezed : Squeezed e c (s.headD 0)
    · have hbinary : hasFlag e.flags binary = false := by
        rw [Bool.eq_false_iff]
        exact fun h => hsqueezed.2.2.2 (hblanks h)
      have hnext := hsqueezed.2.1
      obtain ⟨hlast, hbuffer, hcr⟩ := hsqueezed.last hwrites
      refine ⟨[byte '.'], ?_, rfl⟩
      rw [← hlast]
      cases s with
      | nil =>
        rw [allPieces, held, if_neg (by simpa using hbuffer)]
        exact List.mem_append_right _ (List.mem_singleton_self _)
      | cons d s =>
        have hline : isLineEnd d = true := hnext.resolve_right fun hzero => hs.2 (List.mem_cons.mpr (.inl hzero.symm))
        rw [allPieces, List.foldl_append]
        refine List.mem_append_left _ (mem_foldl_put (put_lineEnd_last hbuffer hcr ?_ hline _) _)
        rw [addNext_flags, hbinary]
    · refine ih (hwrites.addNext hheld (Ne.symm hs.1)) (hheld.addNext _ _) (hblanks.addNext _ _) hs.2 fun h => ?_
      exact hfits ⟨hsqueezed, h⟩

/-- Every line of an encoded text has its form if and only if no period is squeezed off its line, or the flag is not set. -/
theorem inLines_iff (flags : BitVec 32) (s : List Byte) (hs : 0 ∉ s) :
    InLines flags (encode flags s) ↔ (hasFlag flags noLonePeriod → Fits { flags } s) := by
  obtain ⟨hlines, hform⟩ := lines_encode flags hs
  have hwrites : Writes { flags } {} := ⟨rfl, rfl⟩
  rw [InLines, hlines]
  constructor
  · intro h hflag
    by_contra hfits
    obtain ⟨l, hl, hlone⟩ := exists_lone hwrites (.inl rfl) (fun _ => rfl) hs hfits
    exact (h l hl).2 hflag hlone
  · intro h l hl
    refine ⟨hform l hl, fun hflag => ?_⟩
    have hempty : NoLone { flags } {} (s.headD 0) := ⟨fun l hl => (by cases hl), fun h => (by cases h)⟩
    exact hempty.allPieces hflag hwrites (.inl rfl) hs (h hflag) l hl

theorem inLines_iff_text : (0 : Byte) ∉ [byte 'a', byte ' ', byte '.'] ∧
    (InLines noLonePeriod (encode noLonePeriod [byte 'a', byte ' ', byte '.']) ↔
      (hasFlag noLonePeriod noLonePeriod → Fits { flags := noLonePeriod } [byte 'a', byte ' ', byte '.'])) :=
  ⟨by decide, inLines_iff noLonePeriod _ (by decide)⟩

/-- A period behind 74 characters and a blank. -/
theorem not_inLines : ¬ ∀ (flags : BitVec 32) (s : List Byte), 0 ∉ s → InLines flags (encode flags s) := by
  intro h
  have hs : (0 : Byte) ∉ List.replicate 74 (byte 'a') ++ [byte ' ', byte '.'] := by decide
  have hmem : [byte '.'] ∈ splitLines (lineEnd noLonePeriod) 0
      (encode noLonePeriod (List.replicate 74 (byte 'a') ++ [byte ' ', byte '.'])) := by decide +kernel
  exact (h noLonePeriod _ hs _ hmem).2 (by decide) rfl

end QuotedPrintable
end Snapwebsites
