import Snapwebsites.QuotedPrintable.Encoder

/-! # Decoding what was encoded

`quoted_printable::decode()` gives the characters in the order in which the encoder put them. That is the order of the text unless
a character is put in hex while a blank is held back, and a line feed is missing where the carriage return that it is merged with
stands further in front. -/

namespace Snapwebsites
namespace QuotedPrintable

/-! ### The decoder -/

/-- `from_hex()`; nothing for its -1. -/
def fromHex (c : Byte) : Option Byte :=
  if byte '0' ≤ c ∧ c ≤ byte '9' then some (c - byte '0')
  else if byte 'a' ≤ c ∧ c ≤ byte 'f' then some (c - byte 'a' + 10)
  else if byte 'A' ≤ c ∧ c ≤ byte 'F' then some (c - byte 'A' + 10)
  else none

/-- What is behind the line end that follows an `=`, if there is one. -/
def skipBreak : List Byte → Option (List Byte)
  | [] => none
  | d :: t =>
    if d = byte '\r' then some (if t.head? = some (byte '\n') then t.tail else t)
    else if d = byte '\n' then some t
    else none

theorem skipBreak_length {s t : List Byte} (h : skipBreak s = some t) : t.length < s.length := by
  cases s with
  | nil => cases h
  | cons d u =>
    rw [skipBreak] at h
    split at h
    · rw [← Option.some.inj h, List.length_cons]
      split
      · rw [List.length_tail]
        omega
      · exact Nat.lt_succ_self _
    · split at h
      · rw [← Option.some.inj h]
        exact Nat.lt_succ_self _
      · cases h

/-- The next character and the text behind it, over any soft line ends; NUL at the end. -/
def getByte : List Byte → Byte × List Byte
  | [] => (0, [])
  | c :: s =>
    if c = 0 then (0, c :: s)
    else if c = byte '=' then
      match h : skipBreak s with
      | some t =>
        have : t.length < (c :: s).length := Nat.lt_succ_of_lt (skipBreak_length h)
        getByte t
      | none => (c, s)
    else (c, s)
  termination_by s => s.length
  decreasing_by exact this

def getc (s : List Byte) : Byte × List Byte :=
  let (c, s) := getByte s
  if c = 0 then (0, s)
  else if c = byte '=' then
    let (c, s) := getByte s
    match fromHex c with
    | none => (byte '?', s)
    | some p =>
      let (c, s) := getByte s
      match fromHex c with
      | none => (byte '?', s)
      | some q => (p * 16 + q, s)
  else (c, s)

theorem getByte_length (s : List Byte) : (getByte s).2.length ≤ s.length ∧ ((getByte s).1 ≠ 0 → (getByte s).2.length < s.length) := by
  fun_induction getByte s with
  | case1 => exact ⟨le_refl _, fun h => absurd rfl h⟩
  | case2 => exact ⟨le_refl _, fun h => absurd rfl h⟩
  | case3 _ _ _ _ hlt ih => exact ⟨ih.1.trans hlt.le, fun h => (ih.2 h).trans hlt⟩
  | case4 => exact ⟨Nat.le_succ _, fun _ => Nat.lt_succ_self _⟩
  | case5 => exact ⟨Nat.le_succ _, fun _ => Nat.lt_succ_self _⟩

theorem getc_length {s : List Byte} (h : (getc s).1 ≠ 0) : (getc s).2.length < s.length := by
  have hfirst := getByte_length s
  rw [getc] at h ⊢
  simp only at h ⊢
  split_ifs at h ⊢ with hzero hequal
  · exact absurd rfl h
  · have hlt := hfirst.2 hzero
    have hsecond := getByte_length (getByte s).2
    have hthird := getByte_length (getByte (getByte s).2).2
    split
    · exact hsecond.1.trans_lt hlt
    · split
      · exact (hthird.1.trans hsecond.1).trans_lt hlt
      · exact (hthird.1.trans hsecond.1).trans_lt hlt
  · exact hfirst.2 hzero

def process (s : List Byte) : List Byte :=
  if h : (getc s).1 = 0 then []
  else
    have : (getc s).2.length < s.length := getc_length h
    (getc s).1 :: process (getc s).2
  termination_by s.length

theorem process_eq (s : List Byte) : process s = if (getc s).1 = 0 then [] else (getc s).1 :: process (getc s).2 := by
  rw [process]
  split
  · rfl
  · rfl

def decode (input : List Byte) : List Byte := process input

/-! ### What a piece is decoded to -/

variable {e : Encoder} {c next prev : Byte} {p : Piece} {ps : List Piece} {s t x y v w : List Byte} {flags : BitVec 32}

/-- The text is decoded to these characters, whatever stands behind it. -/
def Decodes (x v : List Byte) : Prop := ∀ t, process (x ++ t) = v ++ process t

theorem Decodes.append (h : Decodes x v) (h' : Decodes y w) : Decodes (x ++ y) (v ++ w) := fun t => by
  rw [List.append_assoc, h, h', List.append_assoc]

theorem getByte_plain (hzero : c ≠ 0) (hequal : c ≠ byte '=') : getByte (c :: s) = (c, s) := by
  rw [getByte, if_neg hzero, if_neg hequal]

theorem decodes_plain (hzero : c ≠ 0) (hequal : c ≠ byte '=') : Decodes [c] [c] := fun t => by
  have hget : getc ([c] ++ t) = (c, t) := by
    rw [getc, List.singleton_append, getByte_plain hzero hequal]
    simp only
    rw [if_neg hzero, if_neg hequal]
  rw [process_eq, hget, if_neg hzero]
  rfl

theorem decodes_softBreak (flags : BitVec 32) : Decodes (softBreak flags) [] := fun t => by
  have hskip : ∃ x, softBreak flags ++ t = byte '=' :: x ∧ skipBreak x = some t := by
    rw [softBreak]
    split
    · exact ⟨byte '\n' :: t, rfl, rfl⟩
    · exact ⟨byte '\r' :: byte '\n' :: t, rfl, rfl⟩
  obtain ⟨x, hx, hskip⟩ := hskip
  have hget : getByte (softBreak flags ++ t) = getByte t := by
    rw [hx, getByte, if_neg (by decide), if_pos rfl]
    split
    · rename_i u hu
      rw [hskip] at hu
      rw [Option.some.inj hu]
    · rename_i hu
      rw [hskip] at hu
      cases hu
  have hgetc : getc (softBreak flags ++ t) = getc t := by
    rw [getc, hget, getc]
  rw [process_eq, hgetc, ← process_eq]
  rfl

theorem fromHex_toHex (c : Byte) : fromHex (toHex c) = some (c &&& 15) :=
  forall_digit (q := fun n d => fromHex d = some n) (by decide) c

theorem toHex_plain (c : Byte) : toHex c ≠ 0 ∧ toHex c ≠ byte '=' :=
  forall_digit (q := fun _ d => d ≠ 0 ∧ d ≠ byte '=') (by decide) c

theorem nibbles (c : Byte) : (c >>> 4 &&& 15) * 16 + (c &&& 15) = c :=
  forall_byte (q := fun c => (c >>> 4 &&& 15) * 16 + (c &&& 15) = c) (by decide +kernel) c

theorem decodes_hexCode (hc : c ≠ 0) : Decodes (hexCode c) [c] := fun t => by
  have hskip : skipBreak (toHex (c >>> 4) :: toHex c :: t) = none := by
    obtain ⟨hlf, hcr⟩ := Bool.or_eq_false_iff.mp (toHex_lineEnd (c >>> 4))
    rw [skipBreak, if_neg (of_decide_eq_false hcr), if_neg (of_decide_eq_false hlf)]
  have hequal : getByte (hexCode c ++ t) = (byte '=', toHex (c >>> 4) :: toHex c :: t) := by
    show getByte (byte '=' :: toHex (c >>> 4) :: toHex c :: t) = _
    rw [getByte, if_neg (by decide), if_pos rfl]
    split
    · rename_i u hu
      rw [hskip] at hu
      cases hu
    · rfl
  have hget : getc (hexCode c ++ t) = (c, t) := by
    rw [getc, hequal]
    simp only
    rw [if_neg (by decide), if_true, getByte_plain (toHex_plain _).1 (toHex_plain _).2, fromHex_toHex]
    simp only
    rw [getByte_plain (toHex_plain _).1 (toHex_plain _).2, fromHex_toHex]
    simp only
    rw [nibbles]
  rw [process_eq, hget, if_neg hc]
  rfl

theorem decodes_lineEnd (flags : BitVec 32) : Decodes (lineEnd flags) (lineEnd flags) := by
  rw [lineEnd]
  split
  · exact decodes_plain (by decide) (by decide)
  · exact (decodes_plain (c := byte '\r') (by decide) (by decide)).append (decodes_plain (c := byte '\n') (by decide) (by decide))

/-- What a piece stands for. -/
def Piece.value (flags : BitVec 32) : Piece → List Byte
  | .plain c => [c]
  | .hex c => [c]
  | .lineEnd => QuotedPrintable.lineEnd flags

theorem decodes_put (hp : p.Valid) (h : Decodes e.result v) : Decodes (put e p).result (v ++ p.value e.flags) := by
  have hsoft : Decodes (e.result ++ softBreak e.flags) v := by
    have hboth := h.append (decodes_softBreak e.flags)
    rwa [List.append_nil] at hboth
  cases p with
  | plain c =>
    have hplain := decodes_plain hp.not_special.1 hp.2
    rw [put, addByte_plain hp.not_special.2]
    split
    · exact hsoft.append hplain
    · exact h.append hplain
  | hex c =>
    rw [put_hex]
    split
    · exact hsoft.append (decodes_hexCode hp)
    · exact h.append (decodes_hexCode hp)
  | lineEnd =>
    rw [put_lineEnd]
    exact h.append (decodes_lineEnd e.flags)

variable (ps) in
theorem decodes_foldl (hps : ∀ p ∈ ps, p.Valid) (h : Decodes e.result v) :
    Decodes (ps.foldl put e).result (v ++ ps.flatMap (Piece.value e.flags)) := by
  induction ps generalizing e v with
  | nil => simpa using h
  | cons p ps ih =>
    have hrest := ih (fun q hq => hps q (List.mem_cons_of_mem _ hq)) (decodes_put (hps p List.mem_cons_self) h)
    rw [put_flags, List.append_assoc] at hrest
    exact hrest

/-- What the text adds, decoded. -/
def emitted (e : Encoder) (s : List Byte) : List Byte := (allPieces e s).flatMap (Piece.value e.flags)

theorem decode_encode (flags : BitVec 32) (hs : 0 ∉ s) : decode (encode flags s) = emitted { flags } s := by
  have hnil : Decodes [] [] := fun t => rfl
  have h := decodes_foldl (e := { flags }) (allPieces { flags } s) (fun p hp => allPieces_valid (.inl rfl) hs hp) hnil []
  have hend : process [] = [] := by
    rw [process_eq, getc, getByte]
    rfl
  rw [hend, List.append_nil, List.append_nil] at h
  rw [decode, encode_eq flags hs, h]
  rfl

theorem emitted_cons (e : Encoder) (c : Byte) (s : List Byte) : emitted e (c :: s) =
    (pieces e c (s.headD 0)).flatMap (Piece.value e.flags) ++ emitted (addNext e c (s.headD 0)) s := by
  rw [emitted, allPieces, List.flatMap_append, emitted, addNext_flags]

/-! ### The order of the characters -/

/-- The text with one line end for each CR LF, CR and LF; the flag says that a CR stands in front of it. -/
def withLineEnds (lineEnd : List Byte) : Bool → List Byte → List Byte
  | _, [] => []
  | cr, c :: s =>
    if c = byte '\r' then lineEnd ++ withLineEnds lineEnd true s
    else if c = byte '\n' then (if cr then [] else lineEnd) ++ withLineEnds lineEnd false s
    else c :: withLineEnds lineEnd false s

def expected (flags : BitVec 32) (s : List Byte) : List Byte :=
  if hasFlag flags binary then s else withLineEnds (lineEnd flags) false s

/-- No character is put in hex while a blank is held back. -/
def InOrder : Encoder → List Byte → Prop
  | _, [] => True
  | e, c :: s => (hexed e c (s.headD 0) → e.buffer = 0) ∧ InOrder (addNext e c (s.headD 0)) s

/-- A line feed is merged with the carriage return directly in front of it only. -/
def MergesPairs : Encoder → Byte → List Byte → Prop
  | _, _, [] => True
  | e, last, c :: s => (c = byte '\n' → e.cr → last = byte '\r') ∧ MergesPairs (addNext e c (s.headD 0)) c s

theorem hexed_text (hbinary : hasFlag e.flags binary = false) (hhex : hexed e c next) :
    isBlank c = false ∧ isLineEnd c = false := by
  rcases Bool.or_eq_true_iff.mp hhex with hlone | hencode
  · simp only [isLonePeriod, Bool.and_eq_true, decide_eq_true_eq] at hlone
    rw [hlone.1.1.2]
    decide
  · rw [encodeChar, hbinary] at hencode
    split at hencode
    · cases hencode
    · have hnot : (isLineEnd c || isBlank c) = false := by simpa using ‹¬ (isLineEnd c || isBlank c) = true›
      exact (Bool.or_eq_false_iff.mp hnot).symm

/-- What is held back. -/
def heldBack (e : Encoder) : List Byte := if e.buffer ≠ 0 then [e.buffer] else []

theorem held_value {f : Byte → Piece} (hf : ∀ c, (f c).value flags = [c]) : (held f e).flatMap (Piece.value flags) = heldBack e := by
  rw [held, heldBack]
  split
  · rw [List.flatMap_singleton, hf]
  · rfl

theorem emitted_nil (e : Encoder) : emitted e [] = heldBack e := held_value fun _ => rfl

theorem encodeChar_binary (hbinary : hasFlag flags binary = true) (hc : isLineEnd c ∨ isBlank c) : encodeChar flags c = true := by
  rw [encodeChar, if_pos (Bool.or_eq_true_iff.mpr hc), hbinary]

/-- With the flag nothing is held back, and every character is there. -/
theorem emitted_binary (hbinary : hasFlag e.flags binary = true) (hbuffer : e.buffer = 0) (hcr : e.cr = false) :
    emitted e s = s := by
  induction s generalizing e with
  | nil => rw [emitted_nil, heldBack, if_neg (by simpa using hbuffer)]
  | cons c s ih =>
    obtain ⟨ps, b, r, hadds, hpieces, heq⟩ := exists_adds e c (s.headD 0)
    have hflags := addNext_flags e c (s.headD 0)
    rw [emitted_cons, hpieces]
    have hrest : b = 0 → r = false → emitted (addNext e c (s.headD 0)) s = s := by
      intro hb hr
      refine ih (by rw [hflags, hbinary]) ?_ ?_
      · rw [heq]
        exact hb
      · rw [heq]
        exact hr
    cases hadds with
    | hex => rw [hrest hbuffer hcr, List.flatMap_singleton, Piece.value, List.singleton_append]
    | blank hhex hblank =>
      rw [hexed, encodeChar_binary hbinary (.inr hblank), Bool.or_true] at hhex
      cases hhex
    | merged _ _ hcr' =>
      rw [hcr] at hcr'
      cases hcr'
    | lineEnd hhex hline =>
      rw [hexed, encodeChar_binary hbinary (.inl hline), Bool.or_true] at hhex
      cases hhex
    | plain =>
      rw [hrest rfl rfl, held, if_neg (by simpa using hbuffer), List.nil_append, List.flatMap_singleton, Piece.value,
        List.singleton_append]

theorem not_special (hline : isLineEnd c = false) : c ≠ byte '\r' ∧ c ≠ byte '\n' := by
  obtain ⟨hlf, hcr⟩ := Bool.or_eq_false_iff.mp hline
  exact ⟨of_decide_eq_false hcr, of_decide_eq_false hlf⟩

theorem withLineEnds_text (hline : isLineEnd c = false) (nl : List Byte) (cr : Bool) :
    withLineEnds nl cr (c :: s) = c :: withLineEnds nl (decide (c = byte '\r')) s := by
  obtain ⟨hcr, hlf⟩ := not_special hline
  rw [withLineEnds, if_neg hcr, if_neg hlf, decide_eq_false hcr]

theorem withLineEnds_lineEnd {last : Byte} (hline : isLineEnd c = true) (hcr : c = byte '\n' → last ≠ byte '\r') (nl : List Byte) :
    withLineEnds nl (decide (last = byte '\r')) (c :: s) = nl ++ withLineEnds nl (decide (c = byte '\r')) s := by
  rw [withLineEnds]
  by_cases hc : c = byte '\r'
  · rw [if_pos hc, decide_eq_true hc]
  · have hlf : c = byte '\n' := by
      rcases Bool.or_eq_true_iff.mp hline with h | h
      · exact of_decide_eq_true h
      · exact absurd (of_decide_eq_true h) hc
    rw [if_neg hc, if_pos hlf, decide_eq_false (hcr hlf), if_neg Bool.false_ne_true, decide_eq_false hc]

/-- Where line feeds are merged with the carriage return in front of them only, the text is in order if and only if nothing was put
    in hex with a blank held back. -/
theorem emitted_iff (last : Byte) (hbinary : hasFlag e.flags binary = false) (hholds : Holds e)
    (hlast : last = byte '\r' → e.cr = true ∧ e.buffer = 0) (hmerges : MergesPairs e last s) :
    emitted e s = heldBack e ++ withLineEnds (lineEnd e.flags) (decide (last = byte '\r')) s ↔ InOrder e s := by
  induction s generalizing e last with
  | nil => simp [emitted_nil, withLineEnds, InOrder]
  | cons c s ih =>
    obtain ⟨hmerge, hmerges⟩ := hmerges
    obtain ⟨ps, b, r, hadds, hpieces, heq⟩ := exists_adds e c (s.headD 0)
    have hflags := addNext_flags e c (s.headD 0)
    have hback : heldBack (addNext e c (s.headD 0)) = if b ≠ 0 then [b] else [] := by
      rw [heq]
      rfl
    have hrest : (c = byte '\r' → r = true ∧ b = 0) → (emitted (addNext e c (s.headD 0)) s =
        (if b ≠ 0 then [b] else []) ++ withLineEnds (lineEnd e.flags) (decide (c = byte '\r')) s ↔
          InOrder (addNext e c (s.headD 0)) s) := by
      intro h
      rw [← hback, ← hflags]
      refine ih c (by rw [hflags, hbinary]) (hholds.addNext _ _) (fun hc => ?_) hmerges
      rw [heq]
      exact h hc
    rw [emitted_cons, hpieces, InOrder]
    cases hadds with
    | hex hhex =>
      obtain ⟨hblank, hline⟩ := hexed_text hbinary hhex
      have hrest := hrest fun hc => absurd hc (not_special hline).1
      rw [withLineEnds_text hline, List.flatMap_singleton, Piece.value]
      by_cases hbuffer : e.buffer = 0
      · rw [heldBack, if_neg (by simpa using hbuffer), List.singleton_append, List.nil_append, List.cons_inj_right]
        rw [if_neg (by simpa using hbuffer)] at hrest
        exact hrest.trans (and_iff_right fun _ => hbuffer).symm
      · rw [heldBack, if_pos hbuffer, List.singleton_append, List.singleton_append]
        refine iff_of_false (fun h => ?_) fun h => hbuffer (h.1 hhex)
        have hsame := (List.cons.inj h).1
        rw [hsame, hholds.resolve_left hbuffer] at hblank
        cases hblank
    | blank hhex hblank =>
      have hline := blank_not_lineEnd hblank
      have hzero : c ≠ 0 := (valid_blank hblank).2
      have hrest := hrest fun hc => absurd hc (not_special hline).1
      rw [if_pos hzero] at hrest
      rw [withLineEnds_text hline, held_value fun _ => rfl, List.append_cancel_left_eq]
      exact hrest.trans (and_iff_right fun h => by rw [hhex] at h; cases h).symm
    | merged hhex hc hcr =>
      have hlast' := hmerge hc hcr
      have hbuffer := (hlast hlast').2
      have hrest := hrest fun h => by
        rw [hc] at h
        cases h
      rw [if_neg (by simpa using hbuffer), decide_eq_false (by rw [hc]; decide)] at hrest
      rw [heldBack, if_neg (by simpa using hbuffer), withLineEnds, if_neg (by rw [hc]; decide), if_pos hc, decide_eq_true hlast',
        if_pos rfl]
      exact hrest.trans (and_iff_right fun h => by rw [hhex] at h; cases h).symm
    | lineEnd hhex hline hcr =>
      have hrest := hrest fun hc => ⟨decide_eq_true hc, rfl⟩
      rw [if_neg (by simp)] at hrest
      rw [withLineEnds_lineEnd hline fun hc h => hcr ⟨hc, (hlast h).1⟩, List.flatMap_append, held_value fun _ => rfl, List.flatMap_singleton, Piece.value, List.append_assoc,
        List.append_cancel_left_eq, List.append_cancel_left_eq]
      exact hrest.trans (and_iff_right fun h => by rw [hhex] at h; cases h).symm
    | plain hhex hblank hline =>
      have hrest := hrest fun hc => absurd hc (not_special hline).1
      rw [if_neg (by simp)] at hrest
      rw [withLineEnds_text hline, List.flatMap_append, held_value fun _ => rfl, List.flatMap_singleton, Piece.value,
        List.append_assoc, List.append_cancel_left_eq, List.singleton_append, List.cons_inj_right]
      exact hrest.trans (and_iff_right fun h => by rw [hhex] at h; cases h).symm

/-! ### The line feeds -/

theorem count_text (hline : isLineEnd c = false) : [c].count (byte '\n') = 0 := by
  rw [List.count_singleton, if_neg (by simpa using (not_special hline).2)]

theorem count_heldBack (h : Holds e) : (heldBack e).count (byte '\n') = 0 := by
  rw [heldBack]
  split
  · exact count_text (blank_not_lineEnd (h.resolve_left ‹_›))
  · rfl

theorem count_lineEnd (flags : BitVec 32) : (lineEnd flags).count (byte '\n') = 1 := by
  rw [lineEnd]
  split
  · rfl
  · rfl

/-- Line feeds are missing where the carriage return stands further in front. -/
theorem count_emitted (last : Byte) (hbinary : hasFlag e.flags binary = false) (hholds : Holds e)
    (hlast : last = byte '\r' → e.cr = true) :
    (emitted e s).count (byte '\n') ≤ (withLineEnds (lineEnd e.flags) (decide (last = byte '\r')) s).count (byte '\n') ∧
      ((emitted e s).count (byte '\n') = (withLineEnds (lineEnd e.flags) (decide (last = byte '\r')) s).count (byte '\n') →
        MergesPairs e last s) := by
  induction s generalizing e last with
  | nil =>
    refine ⟨?_, fun _ => trivial⟩
    rw [emitted_nil, count_heldBack hholds]
    exact Nat.zero_le _
  | cons c s ih =>
    obtain ⟨ps, b, r, hadds, hpieces, heq⟩ := exists_adds e c (s.headD 0)
    have hflags := addNext_flags e c (s.headD 0)
    have hheld : ∀ f : Byte → Piece, (∀ c, (f c).value e.flags = [c]) →
        ((held f e).flatMap (Piece.value e.flags)).count (byte '\n') = 0 := by
      intro f hf
      rw [held_value hf, count_heldBack hholds]
    -- what the character adds on both sides decides, as the rest is bounded already
    have hclose : ∀ m k : Nat, (ps.flatMap (Piece.value e.flags)).count (byte '\n') = m →
        (withLineEnds (lineEnd e.flags) (decide (last = byte '\r')) (c :: s)).count (byte '\n') =
          k + (withLineEnds (lineEnd e.flags) (decide (c = byte '\r')) s).count (byte '\n') →
        m ≤ k → (m = k → c = byte '\n' → e.cr → last = byte '\r') → (c = byte '\r' → r = true) →
        (emitted e (c :: s)).count (byte '\n') ≤
            (withLineEnds (lineEnd e.flags) (decide (last = byte '\r')) (c :: s)).count (byte '\n') ∧
          ((emitted e (c :: s)).count (byte '\n') =
              (withLineEnds (lineEnd e.flags) (decide (last = byte '\r')) (c :: s)).count (byte '\n') →
            MergesPairs e last (c :: s)) := by
      intro m k hm hk hle heqv hcr
      have hrest := ih (e := addNext e c (s.headD 0)) c (by rw [hflags, hbinary]) (hholds.addNext _ _)
        (fun hc => by rw [heq]; exact hcr hc)
      rw [hflags] at hrest
      rw [hk, emitted_cons, hpieces, List.count_append, hm]
      exact ⟨Nat.add_le_add hle hrest.1, fun h => ⟨heqv (by omega), hrest.2 (by omega)⟩⟩
    cases hadds with
    | hex hhex =>
      have hline := (hexed_text hbinary hhex).2
      refine hclose 0 0 ?_ ?_ (le_refl _) (fun _ hc => absurd hc (not_special hline).2) fun hc => absurd hc (not_special hline).1
      · rw [List.flatMap_singleton, Piece.value, count_text hline]
      · rw [withLineEnds_text hline, List.count_cons_of_ne (not_special hline).2, Nat.zero_add]
    | blank hhex hblank =>
      have hline := blank_not_lineEnd hblank
      refine hclose 0 0 (hheld _ fun _ => rfl) ?_ (le_refl _) (fun _ hc => absurd hc (not_special hline).2)
        fun hc => absurd hc (not_special hline).1
      rw [withLineEnds_text hline, List.count_cons_of_ne (not_special hline).2, Nat.zero_add]
    | merged hhex hc hcr =>
      have hne : c ≠ byte '\r' := by
        rw [hc]
        decide
      by_cases hlast' : last = byte '\r'
      · refine hclose 0 0 rfl ?_ (le_refl _) (fun _ _ _ => hlast') fun h => absurd h hne
        rw [withLineEnds, if_neg hne, if_pos hc, decide_eq_true hlast', if_pos rfl, decide_eq_false hne, List.nil_append,
          Nat.zero_add]
      · refine hclose 0 1 rfl ?_ (Nat.zero_le _) (fun h => absurd h Nat.zero_ne_one) fun h => absurd h hne
        rw [withLineEnds, if_neg hne, if_pos hc, decide_eq_false hlast', if_neg Bool.false_ne_true, decide_eq_false hne,
          List.count_append, count_lineEnd]
    | lineEnd hhex hline hcr =>
      refine hclose 1 1 ?_ ?_ (le_refl _) (fun _ hc hcr' => absurd ⟨hc, hcr'⟩ hcr) fun hc => decide_eq_true hc
      · rw [List.flatMap_append, List.count_append, hheld _ fun _ => rfl, List.flatMap_singleton, Piece.value, count_lineEnd]
      · rw [withLineEnds_lineEnd hline fun hc h => hcr ⟨hc, hlast h⟩, List.count_append, count_lineEnd]
    | plain hhex hblank hline =>
      refine hclose 0 0 ?_ ?_ (le_refl _) (fun _ hc => absurd hc (not_special hline).2) fun hc => absurd hc (not_special hline).1
      · rw [List.flatMap_append, List.count_append, hheld _ fun _ => rfl, List.flatMap_singleton, Piece.value, count_text hline]
      · rw [withLineEnds_text hline, List.count_cons_of_ne (not_special hline).2, Nat.zero_add]

/-- What was encoded is decoded to the text with its line ends replaced if and only if the flag is set, or nothing was put in hex
    with a blank held back and each line feed that was merged stands behind its carriage return. -/
theorem decode_encode_iff (flags : BitVec 32) (s : List Byte) (hs : 0 ∉ s) : decode (encode flags s) = expected flags s ↔
    hasFlag flags binary ∨ InOrder { flags } s ∧ MergesPairs { flags } 0 s := by
  rw [decode_encode flags hs, expected]
  cases hbinary : hasFlag flags binary with
  | true =>
    rw [if_pos rfl]
    exact iff_of_true (emitted_binary (e := { flags }) hbinary rfl rfl) (.inl rfl)
  | false =>
    have hzero : (0 : Byte) ≠ byte '\r' := by decide
    have hcount := (count_emitted (e := { flags }) (s := s) 0 hbinary (.inl rfl) fun h => absurd h hzero).2
    have hiff := emitted_iff (e := { flags }) (s := s) 0 hbinary (.inl rfl) fun h => absurd h hzero
    rw [if_neg Bool.false_ne_true]
    rw [decide_eq_false hzero] at hcount hiff
    constructor
    · intro h
      have hmerges := hcount (by rw [h])
      exact .inr ⟨(hiff hmerges).mp h, hmerges⟩
    · rintro (h | ⟨horder, hmerges⟩)
      · cases h
      · exact (hiff hmerges).mpr horder

theorem decode_encode_iff_text : (0 : Byte) ∉ [byte 'a', byte ' ', byte 'b'] ∧
    (decode (encode 0 [byte 'a', byte ' ', byte 'b']) = expected 0 [byte 'a', byte ' ', byte 'b'] ↔
      hasFlag 0 binary ∨ InOrder { flags := 0 } [byte 'a', byte ' ', byte 'b'] ∧
        MergesPairs { flags := 0 } 0 [byte 'a', byte ' ', byte 'b']) :=
  ⟨by decide, decode_encode_iff 0 _ (by decide)⟩

/-- A blank in front of an equal sign comes out behind it. -/
theorem not_decode_encode : ¬ ∀ (flags : BitVec 32) (s : List Byte), 0 ∉ s → decode (encode flags s) = expected flags s := by
  intro h
  have hs := h 0 [byte 'a', byte ' ', byte '=', byte 'b'] (by decide)
  rw [decode_encode 0 (by decide)] at hs
  exact absurd hs (by decide)

end QuotedPrintable
end Snapwebsites
