import Snapwebsites.SnapConfig.Values

/-! # Lines of parameters

The pieces in which the line of a parameter is read. A line that fits in the buffer is one piece and gives its
name and what is read of its value (`cut_of_short`). Of a longer one, unless it is refused, each piece gives less
than the value (`cut_of_long`). -/

namespace Snapwebsites
namespace SnapConfig
open QString

/-! ### Pieces -/

theorem readLine_short {s : Bytes} (hs : newline ∉ s) (rest : Bytes) : ∀ {n : Nat}, s.length < n →
    readLine n (s ++ newline :: rest) = (s ++ [newline], rest) := by
  induction s with
  | nil =>
    intro n hn
    obtain ⟨n, rfl⟩ := Nat.exists_eq_succ_of_ne_zero hn.ne'
    rw [List.nil_append, readLine, if_pos rfl, List.nil_append]
  | cons c s ih =>
    intro n hn
    obtain ⟨n, rfl⟩ := Nat.exists_eq_succ_of_ne_zero (Nat.ne_zero_of_lt hn)
    have hc : c ≠ newline := fun hc => hs (List.mem_cons.mpr (.inl hc.symm))
    rw [List.cons_append, readLine, if_neg hc, ih (fun h => hs (List.mem_cons_of_mem _ h)) (Nat.lt_of_succ_lt_succ hn), List.cons_append]

theorem readLine_long {s : Bytes} (hs : newline ∉ s) (rest : Bytes) : ∀ {n : Nat}, n ≤ s.length →
    readLine n (s ++ rest) = (s.take n, s.drop n ++ rest) := by
  induction s with
  | nil =>
    intro n hn
    rw [Nat.le_zero.mp hn]
    rfl
  | cons c s ih =>
    intro n hn
    cases n with
    | zero => rfl
    | succ n =>
      have hc : c ≠ newline := fun hc => hs (List.mem_cons.mpr (.inl hc.symm))
      rw [List.cons_append, readLine, if_neg hc, ih (fun h => hs (List.mem_cons_of_mem _ h)) (Nat.le_of_succ_le_succ hn),
        List.take_succ_cons, List.drop_succ_cons]

/-- The pieces of a line, given without its newline. -/
def cut (s : Bytes) : List Bytes :=
  if s.length < bufSize then [s ++ [newline]] else s.take bufSize :: cut (s.drop bufSize)
termination_by s.length
decreasing_by
  rw [List.length_drop]
  unfold bufSize at *
  omega

theorem cut_short {s : Bytes} (h : s.length < bufSize) : cut s = [s ++ [newline]] := by rw [cut, if_pos h]

theorem cut_long {s : Bytes} (h : ¬ s.length < bufSize) : cut s = s.take bufSize :: cut (s.drop bufSize) := by rw [cut, if_neg h]

theorem pieces_of_ne_nil {b : Bytes} (h : b ≠ []) : pieces b = (readLine bufSize b).1 :: pieces (readLine bufSize b).2 := by
  cases b with
  | nil => exact absurd rfl h
  | cons c b => rw [pieces]

theorem pieces_line {s : Bytes} (hs : newline ∉ s) (rest : Bytes) : pieces (s ++ newline :: rest) = cut s ++ pieces rest := by
  rw [pieces_of_ne_nil (List.append_ne_nil_of_right_ne_nil _ (List.cons_ne_nil _ _))]
  by_cases h : s.length < bufSize
  · rw [readLine_short hs rest h, cut_short h, List.singleton_append]
  · have hdrop : newline ∉ s.drop bufSize := fun hmem => hs (List.mem_of_mem_drop hmem)
    rw [readLine_long hs _ (Nat.not_lt.mp h), cut_long h, List.cons_append, pieces_line hdrop rest]
termination_by s.length
decreasing_by
  rw [List.length_drop]
  unfold bufSize at *
  omega

theorem pieces_lines : ∀ {l : List Bytes}, (∀ s ∈ l, newline ∉ s) → pieces (l.flatMap (· ++ [newline])) = l.flatMap cut
  | [], _ => by rw [List.flatMap_nil, List.flatMap_nil, pieces]
  | s :: l, h => by
    rw [List.forall_mem_cons] at h
    rw [List.flatMap_cons, List.flatMap_cons, List.append_assoc, List.singleton_append, pieces_line h.1, pieces_lines h.2]

/-- A piece is at most as long as its line, and has a newline at its end only. -/
theorem mem_cut {s p : Bytes} (hs : newline ∉ s) (hp : p ∈ cut s) : p.length ≤ s.length + 1 ∧ newline ∉ p.dropLast := by
  by_cases h : s.length < bufSize
  · rw [cut_short h] at hp
    rw [List.mem_singleton.mp hp, List.length_append, List.dropLast_concat]
    exact ⟨Nat.le_refl _, hs⟩
  · rw [cut_long h] at hp
    rcases List.mem_cons.mp hp with rfl | hp
    · rw [List.length_take]
      exact ⟨(Nat.min_le_right _ _).trans (Nat.le_succ _), fun hmem => hs (List.mem_of_mem_take (List.mem_of_mem_dropLast hmem))⟩
    · have hdrop := mem_cut (fun hmem => hs (List.mem_of_mem_drop hmem)) hp
      rw [List.length_drop] at hdrop
      exact ⟨hdrop.1.trans (Nat.succ_le_succ (Nat.sub_le _ _)), hdrop.2⟩
termination_by s.length
decreasing_by
  rw [List.length_drop]
  unfold bufSize at *
  omega

/-! ### What a piece says -/

def Refused (p : Bytes) : Prop := ∃ e, parseLine p = .error e

/-- A name that the writer and the reader take as it is. -/
structure ValidName (n : Bytes) : Prop where
  ne_nil : n ≠ []
  characters : ∀ b ∈ n, 0x20 < b ∧ b ≠ 0x7F ∧ b ≠ 0x3D ∧ b ≠ 0x2E ∧ b ≠ 0x2F
  start : ∀ b, n.head? = some b → b ≠ 0x23 ∧ b ≠ 0x3B ∧ b ≠ 0x5B

theorem isSpace_of_isEndOfLine {b : UInt8} (h : isEndOfLine b = true) : isSpace b = true := by
  simp only [isEndOfLine, Bool.or_eq_true, decide_eq_true_eq] at h
  rcases h with rfl | rfl <;> rfl

theorem not_space_of_lt {b : UInt8} (h : 0x20 < b) : isSpace b = false := by
  rw [UInt8.lt_iff_toNat_lt] at h
  simp only [isSpace, Bool.or_eq_false_iff, decide_eq_false_iff_not, Bool.and_eq_false_iff, ← UInt8.toNat_inj, UInt8.le_iff_toNat_le]
  simp only [UInt8.reduceToNat] at h ⊢
  omega

theorem rdropWhile_append_cons {p : UInt8 → Bool} (s : Bytes) {c : UInt8} (hc : p c = false) (t : Bytes) :
    (s ++ c :: t).rdropWhile p = s ++ c :: t.rdropWhile p := by
  induction t using List.reverseRecOn with
  | nil => rw [List.rdropWhile_concat_neg p s c (by simp [hc]), List.rdropWhile_nil]
  | append_singleton t b ih =>
    have hassoc : s ++ c :: (t ++ [b]) = s ++ c :: t ++ [b] := by simp
    rw [hassoc, List.rdropWhile_concat, List.rdropWhile_concat]
    split_ifs
    · exact ih
    · exact hassoc.symm

/-- What ends a line is trimmed. -/
theorem readValue_rdropWhile (y : Bytes) : readValue (y.rdropWhile isEndOfLine) = readValue y := by
  have htail : ∀ b ∈ y.rtakeWhile isEndOfLine, isSpace b = true := fun _ hb =>
    isSpace_of_isEndOfLine (List.mem_rtakeWhile_imp hb)
  have htrim := trim_append (y.rdropWhile isEndOfLine) htail
  rw [List.rdropWhile_append_rtakeWhile] at htrim
  rw [readValue, readValue, htrim]

theorem readValue_dropLast {y : Bytes} (hy : y.getLast?.any isEndOfLine = true) :
    readValue (y.dropLast.rdropWhile isEndOfLine) = readValue y := by
  obtain ⟨b, hb, heol⟩ := (Option.any_eq_true _ _).mp hy
  have hsplit : y.dropLast ++ [b] = y := List.dropLast_append_getLast? b hb
  have htrim := trim_append y.dropLast (List.forall_mem_singleton.mpr (isSpace_of_isEndOfLine heol))
  rw [readValue_rdropWhile, readValue, readValue, ← htrim, hsplit]

theorem cString_eq_self {s : Bytes} (h : 0 ∉ s) : cString s = s :=
  List.takeWhile_eq_self_iff.mpr fun _ hb => decide_eq_true fun h0 => h (h0 ▸ hb)

theorem parseVariable_named {n : Bytes} (hn : ValidName n) (v : Bytes) : parseVariable (n ++ 0x3D :: v) = .ok (.parameter n (readValue v)) := by
  have hname : ∀ b ∈ n, decide (b ≠ 0x3D) = true := fun b hb => decide_eq_true (hn.characters b hb).2.2.1
  have htake : (n ++ 0x3D :: v).takeWhile (fun b => decide (b ≠ 0x3D)) = n := by
    rw [List.takeWhile_append_of_pos hname, List.takeWhile_cons_of_neg (by decide), List.append_nil]
  have hdrop : (n ++ 0x3D :: v).dropWhile (fun b => decide (b ≠ 0x3D)) = 0x3D :: v := by
    rw [List.dropWhile_append_of_pos hname, List.dropWhile_cons_of_neg (by decide)]
  have htrim : n.rdropWhile isSpace = n := by
    refine List.rdropWhile_eq_self_iff.mpr fun hne => ?_
    rw [not_space_of_lt (hn.characters _ (List.getLast_mem hne)).1]
    exact Bool.false_ne_true
  rw [parseVariable, hdrop, htake, htrim, readValue]

/-- A piece with the whole name. -/
theorem parseLine_named {n y : Bytes} (hn : ValidName n) (h0 : 0 ∉ y) (hy : y.getLast?.any isEndOfLine = true) :
    parseLine (n ++ 0x3D :: y) = .ok (.parameter n (readValue y)) := by
  have hyne : y ≠ [] := by
    rintro rfl
    cases hy
  have hn0 : 0 ∉ n ++ 0x3D :: y := by
    rw [List.mem_append, List.mem_cons, not_or, not_or]
    exact ⟨fun h => absurd (hn.characters 0 h).1 (by decide), by decide, h0⟩
  have hlast : (n ++ 0x3D :: y).getLast? = y.getLast? := by
    rw [List.getLast?_append_cons, List.getLast?_cons_of_ne_nil hyne]
  have hdrop : (n ++ 0x3D :: y).dropLast = n ++ 0x3D :: y.dropLast := by
    rw [List.dropLast_append_cons, List.dropLast_cons_of_ne_nil hyne]
  have hparse := parseVariable_named hn (y.dropLast.rdropWhile isEndOfLine)
  rw [readValue_dropLast hy] at hparse
  obtain ⟨c, t, rfl⟩ := List.exists_cons_of_ne_nil hn.ne_nil
  have hc : isSpace c = false := not_space_of_lt (hn.characters c List.mem_cons_self).1
  obtain ⟨hhash, hsemi, hbracket⟩ := hn.start c rfl
  rw [List.cons_append] at hparse
  rw [parseLine, cString_eq_self hn0, hlast, if_pos hy, hdrop, rdropWhile_append_cons _ rfl, List.cons_append, List.dropWhile_cons, hc,
    if_neg Bool.false_ne_true, parseText, if_neg (not_or.mpr ⟨hhash, hsemi⟩), if_neg hbracket, hparse]

theorem dropLast_prefix_dropLast {s p : Bytes} (h : s <+: p) : s.dropLast <+: p.dropLast := by
  obtain ⟨t, rfl⟩ := h
  cases t with
  | nil => rw [List.append_nil]
  | cons c t =>
    rw [List.dropLast_append_cons]
    exact (List.dropLast_prefix s).trans (List.prefix_append _ _)

theorem parseSection_ne_parameter (s n v : Bytes) : parseSection s ≠ .ok (.parameter n v) := by
  dsimp only [parseSection]
  split_ifs <;> exact nofun

theorem parseVariable_length {s n v : Bytes} (hs : newline ∉ s) (h : parseVariable s = .ok (.parameter n v)) :
    n.length + (escape v).length + 1 ≤ s.length := by
  have hsplit := List.takeWhile_append_dropWhile (p := fun b => decide (b ≠ 0x3D)) (l := s)
  unfold parseVariable at h
  split at h
  · cases h
  · rename_i c y hy
    obtain ⟨rfl, rfl⟩ := Line.parameter.inj (Except.ok.inj h)
    rw [hy] at hsplit
    have hname := (List.rdropWhile_prefix isSpace (s.takeWhile fun b => decide (b ≠ 0x3D))).length_le
    have hvalue : (escape (readValue y)).length ≤ (trim y).length := by
      refine length_escape_readValue fun hnl => hs ?_
      rw [← hsplit]
      exact List.mem_append_right _ (List.mem_cons_of_mem _ ((trim_inside y).subset hnl))
    have htrim := (trim_inside y).length_le
    have hlength := congrArg List.length hsplit
    rw [List.length_append, List.length_cons] at hlength
    change _ + (escape (readValue y)).length + 1 ≤ _
    omega

theorem parseText_length {s n v : Bytes} (hs : newline ∉ s) (h : parseText s = .ok (.parameter n v)) :
    n.length + (escape v).length + 1 ≤ s.length := by
  cases s with
  | nil => cases h
  | cons c s =>
    rw [parseText] at h
    split_ifs at h
    · cases h
    · exact absurd h (parseSection_ne_parameter s n v)
    · exact parseVariable_length hs h

/-- A parameter fits in the piece that sets it, with its equal sign and the end of its line. -/
theorem parameter_length {p n v : Bytes} (hp : newline ∉ p.dropLast) (h : parseLine p = .ok (.parameter n v)) :
    n.length + (escape v).length + 2 ≤ p.length := by
  unfold parseLine at h
  split_ifs at h with hlast
  have hne : cString p ≠ [] := by
    intro hnil
    rw [hnil] at hlast
    cases hlast
  have hpos : p ≠ [] := fun hp => hne (by rw [hp]; rfl)
  have hinside : ((cString p).dropLast.rdropWhile isEndOfLine).dropWhile isSpace <:+: p.dropLast :=
    (List.dropWhile_suffix _).isInfix.trans
      ((List.rdropWhile_prefix _ _).isInfix.trans (dropLast_prefix_dropLast (List.takeWhile_prefix _)).isInfix)
  have htext := parseText_length (fun hnl => hp (hinside.subset hnl)) h
  have hlength := hinside.length_le
  have := List.length_pos_iff.mpr hpos
  rw [List.length_dropLast] at hlength
  omega

/-! ### The pieces of a parameter -/

/-- What the writer escapes of an entry, and the line without its newline. -/
theorem bodyOf_eq {e : Bytes × Bytes} (hn : ValidName e.1) (hv : 0 ∉ e.2) : bodyOf e = e.1 ++ 0x3D :: escape e.2 := by
  rw [bodyOf, cString_eq_self fun h => absurd (hn.characters 0 h).1 (by decide), cString_eq_self hv]

theorem newline_notMem_bodyOf {e : Bytes × Bytes} (hn : ValidName e.1) (hv : 0 ∉ e.2) : newline ∉ bodyOf e := by
  rw [bodyOf_eq hn hv, List.mem_append, List.mem_cons, not_or, not_or]
  exact ⟨fun h => absurd (hn.characters _ h).1 (by decide), by decide, newline_notMem_escape _⟩

/-- A line that does not fit in the buffer. -/
def Long (e : Bytes × Bytes) : Prop := ¬ (bodyOf e).length < bufSize

theorem cut_of_short {e : Bytes × Bytes} (hn : ValidName e.1) (hv : 0 ∉ e.2) (h : ¬ Long e) :
    ∃ p, cut (bodyOf e) = [p] ∧ parseLine p = .ok (.parameter e.1 (readValue (escape e.2))) := by
  refine ⟨bodyOf e ++ [newline], cut_short (not_not.mp h), ?_⟩
  have h0 : 0 ∉ escape e.2 ++ [newline] := by
    rw [List.mem_append, List.mem_singleton, not_or]
    exact ⟨zero_notMem_escape hv, by decide⟩
  have hlast : (escape e.2 ++ [newline]).getLast?.any isEndOfLine = true := by
    rw [List.getLast?_concat]
    rfl
  have hvalue : readValue (escape e.2 ++ [newline]) = readValue (escape e.2) := by
    rw [readValue, readValue, trim_append _ (List.forall_mem_singleton.mpr rfl)]
  rw [bodyOf_eq hn hv, List.append_assoc, List.cons_append, parseLine_named hn h0 hlast, hvalue]

/-- The first piece of a long line that is not refused reaches into the value and ends there with a carriage return. -/
theorem first_piece {e : Bytes × Bytes} (hn : ValidName e.1) (hv : 0 ∉ e.2) (h : Long e) (hrefused : ¬ Refused ((bodyOf e).take bufSize)) :
    e.1.length + 1 < bufSize ∧ ((escape e.2).take (bufSize - e.1.length - 1)).getLast?.any isEndOfLine = true := by
  have hsize : bufSize ≤ (bodyOf e).length := not_lt.mp h
  have hbody : bodyOf e = e.1 ++ [0x3D] ++ escape e.2 := by rw [bodyOf_eq hn hv, List.append_assoc, List.singleton_append]
  have h0 : 0 ∉ (bodyOf e).take bufSize := by
    intro hmem
    have hmem := List.mem_of_mem_take hmem
    rw [hbody, List.mem_append, List.mem_append, List.mem_singleton] at hmem
    rcases hmem with (hmem | hmem) | hmem
    · exact absurd (hn.characters 0 hmem).1 (by decide)
    · exact absurd hmem (by decide)
    · exact zero_notMem_escape hv hmem
  have hlast : ((bodyOf e).take bufSize).getLast?.any isEndOfLine = true := by
    by_contra hlast
    refine hrefused ⟨.tooLong, ?_⟩
    rw [parseLine, cString_eq_self h0, if_neg hlast]
  rw [hbody, List.take_append, List.length_append, List.length_singleton] at hlast
  have hfront : ∀ b ∈ e.1 ++ [0x3D], isEndOfLine b = false := by
    intro b hb
    rcases List.mem_append.mp hb with hb | hb
    · refine Bool.eq_false_iff.mpr fun heol => ?_
      have hspace := isSpace_of_isEndOfLine heol
      rw [not_space_of_lt (hn.characters b hb).1] at hspace
      cases hspace
    · rw [List.mem_singleton.mp hb]
      rfl
  by_cases hreach : e.1.length + 1 < bufSize
  · refine ⟨hreach, ?_⟩
    have hne : (escape e.2).take (bufSize - (e.1.length + 1)) ≠ [] := by
      refine List.ne_nil_of_length_pos ?_
      rw [List.length_take]
      rw [hbody, List.length_append, List.length_append, List.length_singleton] at hsize
      omega
    rw [List.getLast?_append_of_ne_nil _ hne] at hlast
    rwa [Nat.sub_sub]
  · rw [Nat.sub_eq_zero_of_le (not_lt.mp hreach), List.take_zero, List.append_nil] at hlast
    obtain ⟨b, hb, heol⟩ := (Option.any_eq_true _ _).mp hlast
    rw [hfront b (List.mem_of_mem_take (List.mem_of_getLast? hb))] at heol
    cases heol

/-- The first piece of a long line has the name and the start of the value; every other piece is shorter than the value. -/
theorem cut_of_long {e : Bytes × Bytes} (hn : ValidName e.1) (hv : 0 ∉ e.2) (h : Long e) (hrefused : ∀ p ∈ cut (bodyOf e), ¬ Refused p) :
    ∃ (p : Bytes) (ps : List Bytes) (w : Bytes), cut (bodyOf e) = p :: ps ∧ parseLine p = .ok (.parameter e.1 w) ∧
      (escape w).length < (escape e.2).length ∧
      ∀ q ∈ ps, ∀ n v, parseLine q = .ok (.parameter n v) → (escape v).length < (escape e.2).length := by
  have hnl := newline_notMem_bodyOf hn hv
  have hcut : cut (bodyOf e) = (bodyOf e).take bufSize :: cut ((bodyOf e).drop bufSize) := cut_long h
  have hsize : bufSize ≤ (bodyOf e).length := not_lt.mp h
  have hlength : (bodyOf e).length = e.1.length + (escape e.2).length + 1 := by
    rw [bodyOf_eq hn hv, List.length_append, List.length_cons, Nat.add_assoc]
  rw [hcut] at hrefused
  obtain ⟨hname, hlast⟩ := first_piece hn hv h (hrefused _ List.mem_cons_self)
  have htake : (bodyOf e).take bufSize = e.1 ++ 0x3D :: (escape e.2).take (bufSize - e.1.length - 1) := by
    have hsub : bufSize - e.1.length = bufSize - e.1.length - 1 + 1 := by omega
    rw [bodyOf_eq hn hv, List.take_append, List.take_of_length_le (by omega), hsub, List.take_succ_cons]
    rfl
  have hparse : parseLine ((bodyOf e).take bufSize) = .ok (.parameter e.1 (readValue ((escape e.2).take (bufSize - e.1.length - 1)))) := by
    rw [htake]
    exact parseLine_named hn (fun h0 => zero_notMem_escape hv (List.mem_of_mem_take h0)) hlast
  refine ⟨_, _, _, hcut, hparse, ?_, fun q hq n v hparameter => ?_⟩
  · have hfits := parameter_length (fun hmem => hnl (List.mem_of_mem_take (List.mem_of_mem_dropLast hmem))) hparse
    rw [List.length_take] at hfits
    omega
  · obtain ⟨hq, hqnl⟩ := mem_cut (fun hmem => hnl (List.mem_of_mem_drop hmem)) hq
    have hfits := parameter_length hqnl hparameter
    rw [List.length_drop] at hq
    unfold bufSize at *
    omega

end SnapConfig
end Snapwebsites
