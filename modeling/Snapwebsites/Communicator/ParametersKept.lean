import Snapwebsites.Communicator.Parameters

/-! # When the parameters are read back

The line is trimmed before it is read, so the last value loses its blanks unless quotes or escapes
protect them. With the two conditions on single values this is all that can go wrong
(`readParameters_writeParameters`). The converse counts characters: a text with a lost value cannot
supply what the other parameters need as well. -/

namespace Snapwebsites
open QString

namespace SnapCommunicatorMessage

/-- A blank that is trimmed at the end of a line; the line ends among the blanks are escaped. -/
def isTrailing (c : Char) : Bool := isSpace c && c ≠ '\n' && c ≠ '\r'

/-- The value survives at the end of a line. -/
def KeptLast (value : QString) : Prop :=
  needsQuotes value = false → ∀ c, value.getLast? = some c → isTrailing c = false

structure ParametersKept (parameters : SortedMap QString QString) : Prop where
  kept : ∀ p ∈ parameters.entries, Kept p.2
  last : ∀ p, parameters.entries.getLast? = some p → KeptLast p.2

/-! ### The end of the line -/

theorem rdropWhile_escaped (value : QString) :
    (escaped value).rdropWhile isSpace = escaped (value.rdropWhile isTrailing) := by
  induction value using List.reverseRecOn with
  | nil => rfl
  | append_singleton s c ih =>
    have hkeep : ∀ {t : QString} {d : Char}, isSpace d = false → (t ++ [d]).rdropWhile isSpace = t ++ [d] :=
      fun hd => List.rdropWhile_concat_neg _ _ _ (by rw [hd]; exact Bool.false_ne_true)
    rw [escaped_concat]
    rcases escapeChar_cases c with ⟨rfl, he⟩ | ⟨rfl, he⟩ | ⟨rfl, he⟩ | ⟨-, hn, hr, he⟩ <;> rw [he]
    · rw [List.rdropWhile_concat_neg _ _ _ (by decide), escaped_concat, he]
      exact (congrArg _ (List.append_assoc _ ['\\'] ['\\']).symm).trans
        ((hkeep (by decide)).trans (List.append_assoc ..))
    · rw [List.rdropWhile_concat_neg _ _ _ (by decide), escaped_concat, he]
      exact (congrArg _ (List.append_assoc _ ['\\'] ['n']).symm).trans
        ((hkeep (by decide)).trans (List.append_assoc ..))
    · rw [List.rdropWhile_concat_neg _ _ _ (by decide), escaped_concat, he]
      exact (congrArg _ (List.append_assoc _ ['\\'] ['r']).symm).trans
        ((hkeep (by decide)).trans (List.append_assoc ..))
    · cases hs : isSpace c with
      | true =>
        rw [List.rdropWhile_concat_pos _ _ _ hs, ih, List.rdropWhile_concat_pos _ _ _ (by simp [isTrailing, hs, hn, hr])]
      | false =>
        rw [hkeep hs, List.rdropWhile_concat_neg _ _ _ (by simp [isTrailing, hs]), escaped_concat, he]

/-- What is left of a value at the end of a line. -/
def stripLast (value : QString) : QString := if needsQuotes value then value else value.rdropWhile isTrailing

theorem stripLast_eq_self {value : QString} : stripLast value = value ↔ KeptLast value := by
  unfold stripLast KeptLast
  cases hq : needsQuotes value with
  | true => exact ⟨fun _ h => absurd h (by simp), fun _ => rfl⟩
  | false =>
    rw [if_neg (by simp), List.rdropWhile_eq_self_iff]
    constructor
    · intro h _ c hc
      have hne : value ≠ [] := fun h => by rw [h] at hc; cases hc
      have := h hne
      rw [List.getLast?_eq_getLast_of_ne_nil hne] at hc
      cases hc
      exact Bool.eq_false_iff.mpr this
    · intro h hne
      exact Bool.eq_false_iff.mp (h rfl _ (List.getLast?_eq_getLast_of_ne_nil hne))

theorem rdropWhile_isTrailing (value : QString) : value.rdropWhile isTrailing <+: value := List.rdropWhile_prefix _ _

theorem needsQuotes_leading {s t : QString} (h : s <+: t) (ht : needsQuotes t = false) : needsQuotes s = false := by
  obtain ⟨hsemicolon, hquote⟩ := Bool.or_eq_false_iff.mp ht
  refine Bool.or_eq_false_iff.mpr ⟨?_, ?_⟩
  · rw [Bool.eq_false_iff, ne_eq, List.contains_iff_mem] at hsemicolon ⊢
    exact fun hm => hsemicolon (h.subset hm)
  · cases s with
    | nil => rfl
    | cons c s =>
      obtain ⟨u, rfl⟩ := h
      exact hquote

theorem kept_stripLast {value : QString} (h : Kept value) : Kept (stripLast value) := by
  unfold stripLast
  cases hq : needsQuotes value with
  | true => exact h
  | false =>
    have hp := rdropWhile_isTrailing value
    rw [if_neg (by simp)]
    refine ⟨fun hb => h.noBom ?_, fun hn => ?_⟩
    · obtain ⟨u, hu⟩ := hp
      obtain ⟨s, hs⟩ := List.head?_eq_some_iff.mp hb
      rw [← hu, hs]
      rfl
    · rw [needsQuotes_leading hp hq] at hn
      cases hn

theorem writeValue_stripLast {value : QString} (hnul : nul ∉ value) (h : Kept value) :
    ('=' :: writeValue value).rdropWhile isSpace = '=' :: writeValue (stripLast value) := by
  have heq : ∀ t : QString, ('=' :: t).rdropWhile isSpace = '=' :: t.rdropWhile isSpace := fun t =>
    rdropWhile_append (s := ['=']) (by simp) (by rintro c ⟨⟩; decide) t
  have hnul' : nul ∉ stripLast value := by
    unfold stripLast
    split
    · exact hnul
    · exact fun hm => hnul ((rdropWhile_isTrailing value).subset hm)
  rw [heq, writeValue_eq hnul, writeValue_eq hnul', fromUtf8_eq_self h.noBom, fromUtf8_eq_self (kept_stripLast h).noBom]
  unfold stripLast
  cases hq : needsQuotes value with
  | true =>
    simp only [if_true, hq]
    exact congrArg _ (List.rdropWhile_concat_neg _ _ _ (by decide))
  | false =>
    simp only [Bool.false_eq_true, if_false, needsQuotes_leading (rdropWhile_isTrailing value) hq]
    rw [rdropWhile_escaped]

/-! ### Reading the whole line of parameters -/

section Line
variable {parameters : SortedMap QString QString}

/-- A text of parameters, as written, with what `trimmed` leaves of its end. -/
def trimmedParameters (l : List (QString × QString)) : QString := (writeParameters l).tail.rdropWhile isSpace

theorem trimmedParameters_concat {l : List (QString × QString)} {p : QString × QString} (hnul : nul ∉ p.2) (h : Kept p.2) :
    trimmedParameters (l ++ [p]) = writeLeading l ++ (p.1 ++ '=' :: writeValue (stripLast p.2)) := by
  have heq : writeLeading l ++ (p.1 ++ '=' :: writeValue p.2) = (writeLeading l ++ p.1 ++ ['=']) ++ writeValue p.2 := by simp
  have heq' : writeLeading l ++ (p.1 ++ '=' :: writeValue (stripLast p.2)) =
      (writeLeading l ++ p.1) ++ '=' :: writeValue (stripLast p.2) := by simp
  have hstrip := writeValue_stripLast hnul h
  have h1 : ('=' :: writeValue p.2).rdropWhile isSpace = '=' :: (writeValue p.2).rdropWhile isSpace :=
    rdropWhile_append (s := ['=']) (by simp) (by rintro c ⟨⟩; decide) _
  unfold trimmedParameters
  rw [writeParameters_append]
  show (writeLeading l ++ (writeParameter p ++ [])).rdropWhile isSpace = _
  rw [List.append_nil]
  show (writeLeading l ++ (p.1 ++ '=' :: writeValue p.2)).rdropWhile isSpace = _
  rw [heq, heq', rdropWhile_append (by simp) (by simp; decide), ← hstrip, h1]
  simp

theorem readParameters_writeLeading {l : List (QString × QString)}
    (hl : ∀ p ∈ l, verifyName p.1 false true = true ∧ nul ∉ p.2 ∧ Kept p.2) (t : QString) :
    ∃ n, t.length ≤ n ∧ readParameters (writeLeading l ++ t) = readParametersFrom n t (SortedMap.empty.insertAll l) := by
  have hlen : l.length ≤ (writeLeading l).length := by
    clear hl
    induction l with
    | nil => exact Nat.le_refl _
    | cons p l ih =>
      unfold writeLeading at ih ⊢
      rw [List.flatMap_cons, List.length_append, List.length_append, List.length_cons, List.length_singleton]
      omega
  refine ⟨(writeLeading l).length - l.length + t.length, Nat.le_add_left _ _, ?_⟩
  rw [← readParametersFrom_writeLeading hl]
  have : (writeLeading l ++ t).length = l.length + ((writeLeading l).length - l.length + t.length) := by
    rw [List.length_append]
    omega
  rw [← this]
  rfl

theorem readParameters_trimmedParameters (l : List (QString × QString)) (p : QString × QString)
    (h : ∀ q ∈ l ++ [p], verifyName q.1 false true = true ∧ nul ∉ q.2 ∧ Kept q.2) :
    readParameters (trimmedParameters (l ++ [p])) = some ((SortedMap.empty.insertAll l).insert p.1 (stripLast p.2)) := by
  obtain ⟨hname, hnul, hkept⟩ := h p (by simp)
  have hl : ∀ q ∈ l, _ := fun q hq => h q (List.mem_append_left _ hq)
  obtain ⟨n, hn, hread⟩ := readParameters_writeLeading hl (p.1 ++ '=' :: writeValue (stripLast p.2))
  have hnul' : nul ∉ stripLast p.2 := by
    unfold stripLast
    split
    · exact hnul
    · exact fun hm => hnul ((rdropWhile_isTrailing p.2).subset hm)
  have hends : Ends [] := fun c hc => by cases hc
  have hlast := readParameter_writeParameter hname (readRawValue_writeValue hnul' (kept_stripLast hkept) hends) hends
  rw [List.append_nil, readValue_escaped hnul', fromUtf8_eq_self (kept_stripLast hkept).noBom] at hlast
  rw [trimmedParameters_concat hnul hkept, hread]
  cases n with
  | zero => simp at hn
  | succ n =>
    rw [readParametersFrom_step hlast]
    cases n <;> rfl

/-- With values that are kept one by one, only the end of the line matters. -/
theorem readParameters_eq_iff_keptLast {l : List (QString × QString)} {p : QString × QString}
    (hp : parameters.entries = l ++ [p])
    (h : ∀ q ∈ l ++ [p], verifyName q.1 false true = true ∧ nul ∉ q.2 ∧ Kept q.2) :
    readParameters (trimmedParameters parameters.entries) = some parameters ↔ KeptLast p.2 := by
  have hall : (SortedMap.empty.insertAll l).insert p.1 p.2 = parameters := by
    have hsorted := parameters.sorted
    rw [hp] at hsorted
    have := SortedMap.entries_insertAll (m := SortedMap.empty) (l := l ++ [p]) hsorted
    refine SortedMap.ext (Eq.trans ?_ (this.trans hp.symm))
    unfold SortedMap.insertAll
    rw [List.foldl_append]
    rfl
  rw [hp, readParameters_trimmedParameters l p h, ← stripLast_eq_self]
  constructor
  · intro heq
    have hfind := SortedMap.find?_insert_self (SortedMap.empty.insertAll l) p.1 (stripLast p.2)
    rw [Option.some.inj heq, ← hall, SortedMap.find?_insert_self] at hfind
    exact (Option.some.inj hfind).symm
  · intro heq
    rw [heq, hall]

/-! ### No reading makes up for a lost value -/

theorem count_trimmedParameters_le (c : Char) (l : List (QString × QString)) :
    (trimmedParameters l).count c ≤ (writeParameters l).count c :=
  ((List.rdropWhile_prefix _ _).sublist.trans (List.tail_sublist _)).count_le c

/-- A byte order mark in front of a value is missing in the line. -/
theorem noBom_of_readParameters (hnul : ∀ q ∈ parameters.entries, nul ∉ q.2)
    (h : readParameters (trimmedParameters parameters.entries) = some parameters) :
    ∀ p ∈ parameters.entries, p.2.head? ≠ some bom := by
  intro p hp hbom
  obtain ⟨l, l', hl⟩ := List.append_of_mem hp
  rw [hl] at hnul
  have hcount : (writeParameters parameters.entries).count bom < (parameters.entries.map (weight bom)).sum := by
    have hlead := count_writeLeading_le (c := bom) (by decide) (l := l) fun q hq => hnul q (List.mem_append_left _ hq)
    have hrest := count_separated_le (c := bom) (by decide) (l := l') fun q hq =>
      hnul q (List.mem_append_right _ (List.mem_cons_of_mem _ hq))
    have hlt := count_writeParameter_bom (hnul p (List.mem_append_right _ List.mem_cons_self)) hbom
    rw [hl, writeParameters_append, List.count_cons_of_ne (by decide), List.count_append, List.count_append,
      List.map_append, List.map_cons, List.sum_append, List.sum_cons]
    omega
  have hread := (weight_readParametersFrom (c := bom) (by decide) h).1
  have htrim := count_trimmedParameters_le bom parameters.entries
  have hsum : parameters.sumOf (weight bom) = (parameters.entries.map (weight bom)).sum := rfl
  have hempty : (∅ : SortedMap QString QString).sumOf (weight bom) = 0 := rfl
  omega

/-- The text behind a final backslash and its quote is read into the value. -/
theorem readValue_finalBackslash {value rest : QString} (hnul : nul ∉ value) (hbom : (value ++ ['\\']).head? ≠ some bom) :
    readValue (escaped value ++ '\\' :: '"' :: rest) ≠ value ++ ['\\'] := by
  have hnul' : nul ∉ escaped value := fun hm => by
    rcases mem_escaped hm with hm | hm | hm | hm
    · exact absurd hm (by decide)
    · exact absurd hm (by decide)
    · exact absurd hm (by decide)
    · exact hnul hm.1
  have hcut : ∀ {s : QString}, nul ∉ s → ∀ t : QString, constData (s ++ '\\' :: '"' :: t) = s ++ '\\' :: '"' :: constData t := by
    intro s hs t
    exact takeWhile_ne_append hs _
  have hbom' : ∀ t : QString, (value ++ '\\' :: t).head? ≠ some bom := fun t => by
    cases value with
    | nil => simp; decide
    | cons c value => simpa using hbom
  unfold readValue
  rw [hcut hnul', replaceMany_unescapes_append, replaceMany_unescapes_backslash (by decide) (by decide) (by decide),
    replaceMany_unescapes_other (by decide), hcut hnul, fromUtf8_eq_self (hbom' _)]
  intro h
  exact absurd (List.append_cancel_left h) (by simp)

theorem exists_first_not_kept : ∀ {l : List (QString × QString)}, (¬ ∀ p ∈ l, Kept p.2) →
    ∃ l₁ p l₂, l = l₁ ++ p :: l₂ ∧ (∀ q ∈ l₁, Kept q.2) ∧ ¬ Kept p.2
  | [], h => absurd (fun p hp => absurd hp List.not_mem_nil) h
  | p :: l, h => by
    by_cases hp : Kept p.2
    · obtain ⟨l₁, q, l₂, rfl, h₁, hq⟩ := exists_first_not_kept (l := l) fun hl => h fun q hq => by
        rcases List.mem_cons.mp hq with rfl | hq
        · exact hp
        · exact hl q hq
      refine ⟨p :: l₁, q, l₂, rfl, fun r hr => ?_, hq⟩
      rcases List.mem_cons.mp hr with rfl | hr
      · exact hp
      · exact h₁ r hr
    · exact ⟨[], p, l, rfl, fun q hq => absurd hq List.not_mem_nil, hp⟩

/-- A quoted value with a final backslash takes in what follows it. The text has one equal sign for
    each parameter and for each one in a value, so the parameter cannot be read a second time. -/
theorem kept_of_readParameters (hnames : ∀ q ∈ parameters.entries, verifyName q.1 false true = true)
    (hnul : ∀ q ∈ parameters.entries, nul ∉ q.2)
    (h : readParameters (trimmedParameters parameters.entries) = some parameters) :
    ∀ p ∈ parameters.entries, Kept p.2 := by
  have hbom := noBom_of_readParameters hnul h
  by_contra hnot
  obtain ⟨l, p, l', hl, hkept, hp⟩ := exists_first_not_kept hnot
  have hmem : ∀ {q}, q ∈ l → q ∈ parameters.entries := fun hq => hl ▸ List.mem_append_left _ hq
  have hmem' : ∀ {q}, q ∈ l' → q ∈ parameters.entries := fun hq =>
    hl ▸ List.mem_append_right _ (List.mem_cons_of_mem _ hq)
  have hpmem : p ∈ parameters.entries := hl ▸ List.mem_append_right _ List.mem_cons_self
  have hpnul := hnul p hpmem
  have hpbom := hbom p hpmem
  obtain ⟨hq, hlast⟩ : needsQuotes p.2 = true ∧ p.2.getLast? = some '\\' := by
    by_contra hno
    exact hp ⟨hpbom, fun hq hl => hno ⟨hq, hl⟩⟩
  obtain ⟨value, hvalue⟩ : ∃ value, p.2 = value ++ ['\\'] := List.getLast?_eq_some_iff.mp hlast
  -- the text up to this parameter is left as it is
  obtain ⟨t, htrim, ht⟩ : ∃ t, trimmedParameters parameters.entries =
      writeLeading l ++ (p.1 ++ '=' :: (writeValue p.2 ++ t)) ∧
      t <+: l'.flatMap fun q => ';' :: writeParameter q := by
    refine ⟨_, ?_, List.rdropWhile_prefix isSpace _⟩
    have hsplit : writeLeading l ++ (writeParameter p ++ l'.flatMap fun q => ';' :: writeParameter q) =
        (writeLeading l ++ p.1 ++ '=' :: writeValue p.2) ++ l'.flatMap fun q => ';' :: writeParameter q := by
      simp [writeParameter]
    have hend : ∃ s, writeLeading l ++ p.1 ++ '=' :: writeValue p.2 = s ++ ['"'] := by
      rw [writeValue_eq hpnul, fromUtf8_eq_self hpbom, if_pos hq]
      exact ⟨writeLeading l ++ p.1 ++ '=' :: '"' :: escapeQuotes (escaped p.2), by simp⟩
    unfold trimmedParameters
    rw [hl, writeParameters_append, List.tail_cons, hsplit, rdropWhile_append (by simp) fun c hc => ?_]
    · simp
    · obtain ⟨s, hs⟩ := hend
      rw [hs, List.getLast?_concat] at hc
      cases hc
      decide
  obtain ⟨n, -, hread⟩ := readParameters_writeLeading
    (fun q hq => ⟨hnames q (hmem hq), hnul q (hmem hq), hkept q hq⟩) (p.1 ++ '=' :: (writeValue p.2 ++ t))
  rw [htrim, hread] at h
  rcases readParametersFrom_inv h with ⟨hnil, -⟩ | ⟨n', q, m', hq', rfl, hrest⟩
  · simp at hnil
  · obtain ⟨r, rest, hm, hqname, hraw, hqvalue⟩ := readParameter_inv hq'
    obtain ⟨hname, rfl⟩ := append_cons_inj hm (notMem_of_verifyName (hnames p hpmem) (by decide))
      (notMem_of_verifyName hqname (by decide))
    have hr : ∃ r', r = escaped value ++ '\\' :: '"' :: r' := by
      have hraw' : ∃ x, readRawValue (writeValue p.2 ++ t) = some (r, x) := by
        rcases hraw with ⟨hraw, -⟩ | hraw
        · exact ⟨_, hraw⟩
        · exact ⟨_, hraw⟩
      obtain ⟨x, hraw⟩ := hraw'
      rw [hvalue] at hraw hpnul hpbom hq
      rw [readRawValue_finalBackslash hpnul hpbom hq] at hraw
      obtain ⟨r', -, hr'⟩ := Option.map_eq_some_iff.mp hraw
      exact ⟨r'.1, congrArg Prod.fst hr'.symm⟩
    obtain ⟨r', rfl⟩ := hr
    have hne : q.2 ≠ p.2 := by
      rw [hqvalue, hvalue]
      rw [hvalue] at hpnul hpbom
      exact readValue_finalBackslash (fun hm => hpnul (List.mem_append_left _ hm)) hpbom
    -- so the parameter is still to be read with its own value
    have hover := (weight_readParametersFrom (c := '=') (by decide) hrest).2 q.1 q.2 (SortedMap.find?_insert_self ..) <| by
      rw [← hname, SortedMap.find?_eq_some.mpr (show (p.1, p.2) ∈ parameters.entries from hpmem)]
      exact fun heq => hne (Option.some.inj heq).symm
    have hinsert := (SortedMap.empty.insertAll l).sumOf_insert_le (weight '=') q.1 q.2
    have hleading := SortedMap.sumOf_insertAll_le (weight '=') l SortedMap.empty
    have hread := weight_readParameter (c := '=') (by decide) hq'
    have hwritten : (p.1 ++ '=' :: (writeValue p.2 ++ t)).count '=' ≤ weight '=' p + (l'.map (weight '=')).sum := by
      have hpw := count_writeParameter_le (c := '=') (by decide) hpnul
      have hsep := count_separated_le (c := '=') (by decide) (l := l') fun q hq => hnul q (hmem' hq)
      have htl := ht.sublist.count_le '='
      have : p.1 ++ '=' :: (writeValue p.2 ++ t) = writeParameter p ++ t := by simp [writeParameter]
      rw [this, List.count_append]
      omega
    have hsum : parameters.sumOf (weight '=') =
        (l.map (weight '=')).sum + (weight '=' p + (l'.map (weight '=')).sum) := by
      unfold SortedMap.sumOf
      rw [hl, List.map_append, List.map_cons, List.sum_append, List.sum_cons]
    have hempty : (SortedMap.empty : SortedMap QString QString).sumOf (weight '=') = 0 := rfl
    have hpos : 0 < weight '=' (q.1, q.2) := List.count_pos_iff.mpr (by simp)
    have heta : weight '=' (q.1, q.2) = weight '=' q := rfl
    omega

/-- The parameters are read back exactly when their values are kept. -/
theorem readParameters_iff_parametersKept (hne : parameters ≠ ∅)
    (hnames : ∀ q ∈ parameters.entries, verifyName q.1 false true = true)
    (hnul : ∀ q ∈ parameters.entries, nul ∉ q.2) :
    readParameters (trimmedParameters parameters.entries) = some parameters ↔ ParametersKept parameters := by
  obtain ⟨l, p, hl⟩ : ∃ l p, parameters.entries = l ++ [p] := by
    rcases List.eq_nil_or_concat parameters.entries with h | ⟨l, p, h⟩
    · exact absurd (SortedMap.ext h) hne
    · exact ⟨l, p, h.trans List.concat_eq_append⟩
  have hlast : ∀ q, parameters.entries.getLast? = some q ↔ q = p := fun q => by
    rw [hl, List.getLast?_concat]
    exact ⟨fun h => (Option.some.inj h).symm, fun h => congrArg some h.symm⟩
  have hall : (∀ q ∈ parameters.entries, Kept q.2) →
      ∀ q ∈ l ++ [p], verifyName q.1 false true = true ∧ nul ∉ q.2 ∧ Kept q.2 := fun hkept q hq =>
    ⟨hnames q (hl ▸ hq), hnul q (hl ▸ hq), hkept q (hl ▸ hq)⟩
  constructor
  · intro h
    have hkept := kept_of_readParameters hnames hnul h
    refine ⟨hkept, fun q hq => ?_⟩
    rw [(hlast q).mp hq]
    exact (readParameters_eq_iff_keptLast hl (hall hkept)).mp h
  · intro h
    exact (readParameters_eq_iff_keptLast hl (hall h.kept)).mpr (h.last p ((hlast p).mpr rfl))

end Line

end SnapCommunicatorMessage
end Snapwebsites
