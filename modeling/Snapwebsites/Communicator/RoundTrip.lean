import Snapwebsites.Communicator.Header

/-! # When a message survives the wire

A message goes out as one line. What the reader makes of that line is the message itself exactly when
the fields in front of the parameters hold no character that means something else there (`HeadKept`)
and the parameters are kept (`ParametersKept`): `roundTrips_iff`. A message built with the setters
always has the first; a message that was read may have neither. -/

namespace Snapwebsites
open QString

namespace SnapCommunicatorMessage
variable {m : SnapCommunicatorMessage}

/-! ### Messages that are built or read -/

/-- What holds of every message with a command, be it built with the setters or read from a text. -/
structure WellFormed (m : SnapCommunicatorMessage) : Prop where
  command : m.command ≠ []
  plain : Plain (m.server ++ m.service ++ m.command)
  nul : nul ∉ m.server ++ m.service ++ m.command
  latin1 : ∀ c ∈ m.sentFromServer ++ m.sentFromService, c.toNat < 256
  names : ∀ p ∈ m.parameters.entries, verifyName p.1 false true = true
  values : ∀ p ∈ m.parameters.entries, QString.nul ∉ p.2

def head (m : SnapCommunicatorMessage) : QString := headText m.server m.service m.command

/-- The match on what follows the command. -/
def readRest : QString → Option (SortedMap QString QString)
  | ' ' :: m => readParameters m
  | _ => some ∅

theorem fromMessage_eq {text server service rest : QString}
    (hs : readSentFrom (constData (trimmed text)) = some (server, service, head m ++ rest))
    (hplain : Plain (m.server ++ m.service ++ m.command)) (hc : m.command ≠ []) (hrest : rest = [] ∨ ∃ r, rest = ' ' :: r) :
    fromMessage text = (readRest rest).map fun parameters =>
      { m with sentFromServer := server, sentFromService := service, parameters } := by
  unfold fromMessage
  rw [hs]
  show ((readHeader {} (head m ++ rest)).bind fun hm => _) = _
  unfold head
  rw [readHeader_headText hplain hrest, Option.bind_some]
  refine (if_neg hc).trans ?_
  rcases hrest with rfl | ⟨r, rfl⟩
  · rfl
  · show (readParameters r).bind _ = (readParameters r).map _
    cases readParameters r <;> rfl

theorem fromMessage_inv {text : QString} (h : fromMessage text = some m) :
    ∃ rest, readSentFrom (constData (trimmed text)) = some (m.sentFromServer, m.sentFromService, head m ++ rest) ∧
      m.command ≠ [] ∧ Plain (m.server ++ m.service ++ m.command) ∧ (rest = [] ∨ ∃ r, rest = ' ' :: r) ∧
      readRest rest = some m.parameters := by
  obtain ⟨⟨server, service, s⟩, hs, h⟩ := Option.bind_eq_some_iff.mp h
  obtain ⟨⟨hd, rest⟩, hh, h⟩ := Option.bind_eq_some_iff.mp h
  dsimp only at hh h
  split at h
  · cases h
  · rename_i hc
    obtain ⟨hok, htext, hrest⟩ := readHeader_inv (h := {}) ⟨by simp, by simp, fun c hc => by cases hc⟩ hh
    have hs' : s = headText hd.server hd.service hd.command ++ rest := htext
    rcases hrest with rfl | ⟨r, rfl⟩
    · cases h
      exact ⟨[], by rw [hs, hs']; rfl, hc, hok.plain, Or.inl rfl, rfl⟩
    · obtain ⟨parameters, hp, h⟩ := Option.bind_eq_some_iff.mp h
      cases h
      exact ⟨' ' :: r, by rw [hs, hs']; rfl, hc, hok.plain, Or.inr ⟨r, rfl⟩, hp⟩

theorem names_values_of_readParametersFrom {n : Nat} : ∀ {s : QString} {P Q : SortedMap QString QString},
    readParametersFrom n s P = some Q →
    (∀ p ∈ P.entries, verifyName p.1 false true = true ∧ QString.nul ∉ p.2) →
    ∀ p ∈ Q.entries, verifyName p.1 false true = true ∧ QString.nul ∉ p.2 := by
  induction n with
  | zero =>
    intro s P Q h hP
    rcases readParametersFrom_inv h with ⟨-, rfl⟩ | ⟨n', p, m', -, hn, -⟩
    · exact hP
    · cases hn
  | succ n ih =>
    intro s P Q h hP
    rcases readParametersFrom_inv h with ⟨-, rfl⟩ | ⟨n', p, m', hp, hn, hq⟩
    · exact hP
    · cases hn
      obtain ⟨r, rest, -, hname, -, hvalue⟩ := readParameter_inv hp
      refine ih hq fun q hq => ?_
      rcases SortedMap.mem_insertIn hq with rfl | hq
      · refine ⟨hname, fun hm => ?_⟩
        have hm : QString.nul ∈ readValue r := hvalue ▸ hm
        exact nul_notMem_constData _ ((fromUtf8_sublist _).subset hm)
      · exact hP q hq

theorem sublist_of_readSentFrom {s server service rest : QString} (h : readSentFrom s = some (server, service, rest)) :
    rest.Sublist s := by
  rcases readSentFrom_inv h with ⟨-, -, -, rfl⟩ | ⟨server₀, service₀, rfl, -⟩
  · exact List.Sublist.refl _
  · have : '<' :: (server₀ ++ ':' :: (service₀ ++ ' ' :: rest)) = ('<' :: server₀ ++ ':' :: service₀ ++ [' ']) ++ rest := by simp
    rw [this]
    exact List.sublist_append_right _ _

theorem wellFormed_of_fromMessage {text : QString} (h : fromMessage text = some m) : WellFormed m := by
  obtain ⟨rest, hs, hc, hplain, hrest, hp⟩ := fromMessage_inv h
  have hparameters : ∀ p ∈ m.parameters.entries, verifyName p.1 false true = true ∧ QString.nul ∉ p.2 := by
    have hempty : ∀ p ∈ (∅ : SortedMap QString QString).entries, verifyName p.1 false true = true ∧ QString.nul ∉ p.2 :=
      fun p hp => by cases hp
    rcases hrest with rfl | ⟨r, rfl⟩
    · rw [← Option.some.inj (show some ∅ = some m.parameters from hp)]
      exact hempty
    · exact names_values_of_readParametersFrom (show readParametersFrom r.length r ∅ = some m.parameters from hp) hempty
  refine ⟨hc, hplain, fun hm => ?_, ?_, fun p hp => (hparameters p hp).1, fun p hp => (hparameters p hp).2⟩
  · have hhead : QString.nul ∈ head m ++ rest := by
      unfold head headText
      simp only [List.mem_append] at hm ⊢
      rcases hm with (hm | hm) | hm
      · exact Or.inl (Or.inl (Or.inl (by rw [if_pos (List.ne_nil_of_mem hm)]; exact List.mem_append_left _ hm)))
      · exact Or.inl (Or.inl (Or.inr (by rw [if_pos (List.ne_nil_of_mem hm)]; exact List.mem_append_left _ hm)))
      · exact Or.inl (Or.inr hm)
    exact nul_notMem_constData _ ((sublist_of_readSentFrom hs).subset hhead)
  · intro c hc
    have hnarrow : ∀ {s : QString}, c ∈ narrow s → c.toNat < 256 := fun h => by
      obtain ⟨d, -, hd⟩ := List.mem_flatMap.mp h
      exact toNat_of_mem_appendUnit hd
    rcases readSentFrom_inv hs with ⟨-, h₁, h₂, -⟩ | ⟨server₀, service₀, -, -, -, -, h₁, h₂⟩
    · rw [h₁, h₂] at hc
      cases hc
    · rw [h₁, h₂] at hc
      exact (List.mem_append.mp hc).elim hnarrow hnarrow

/-! ### The fields in front of the parameters -/

/-- The fields in front of the parameters are told apart by the reader. -/
structure HeadKept (m : SnapCommunicatorMessage) : Prop where
  noNewline : '\n' ∉ m.sentFromServer ++ m.sentFromService ++ m.server ++ m.service ++ m.command
  destination : m.server ≠ [] → m.service ≠ []
  sentFromServer : ' ' ∉ m.sentFromServer ∧ ':' ∉ m.sentFromServer ∧ QString.nul ∉ m.sentFromServer
  sentFromService : ' ' ∉ m.sentFromService ∧ QString.nul ∉ m.sentFromService
  start : m.sentFromServer = [] → m.sentFromService = [] →
    ∀ c, (writeDestination m ++ m.command).head? = some c → c ≠ '<' ∧ isSpace c = false
  stop : m.parameters = ∅ → ∀ c, m.command.getLast? = some c → isSpace c = false

/-- The line of a message that has a command. -/
def line (m : SnapCommunicatorMessage) : QString :=
  writeSentFrom m ++ (writeDestination m ++ m.command ++ writeParameters m.parameters.entries)

theorem toMessage_eq (h : m.command ≠ []) : m.toMessage = some (line m) := by
  unfold toMessage line
  rw [if_neg h]
  simp

theorem writeDestination_append (h : m.server ≠ [] → m.service ≠ []) : writeDestination m ++ m.command = head m := by
  unfold writeDestination head headText
  by_cases hservice : m.service = []
  · have hserver : m.server = [] := by
      by_contra hne
      exact h hne hservice
    simp [hservice, hserver]
  · simp [hservice]

theorem writeSentFrom_eq (h : ¬(m.sentFromServer = [] ∧ m.sentFromService = [])) (t : QString) :
    writeSentFrom m ++ t = '<' :: (m.sentFromServer ++ ':' :: (m.sentFromService ++ ' ' :: t)) := by
  unfold writeSentFrom
  rw [if_pos (by tauto)]
  simp

theorem writeSentFrom_nil (h : m.sentFromServer = [] ∧ m.sentFromService = []) : writeSentFrom m = [] := by
  unfold writeSentFrom
  rw [if_neg (by simp [h.1, h.2])]

/-- What is left of the parameters when the line is trimmed. -/
def trimmedRest (parameters : SortedMap QString QString) : QString :=
  if parameters = ∅ then [] else ' ' :: trimmedParameters parameters.entries

theorem trimmedRest_cases (parameters : SortedMap QString QString) :
    trimmedRest parameters = [] ∨ ∃ r, trimmedRest parameters = ' ' :: r := by
  unfold trimmedRest
  split
  · exact Or.inl rfl
  · exact Or.inr ⟨_, rfl⟩

/-- A character that is in no written parameter, and is no separator, is not in the text of all of them. -/
theorem notMem_writeParameters {c : Char} (hspace : c ≠ ' ') (hsemicolon : c ≠ ';') :
    ∀ {l : List (QString × QString)}, (∀ p ∈ l, c ∉ writeParameter p) → c ∉ writeParameters l
  | [], _, hm => by cases hm
  | p :: l, h, hm => by
    rcases List.mem_append.mp hm with hm | hm
    · exact h p List.mem_cons_self ((List.mem_cons.mp hm).resolve_left hspace)
    · obtain ⟨q, hq, hm⟩ := List.mem_flatMap.mp hm
      exact h q (List.mem_cons_of_mem p hq) ((List.mem_cons.mp hm).resolve_left hsemicolon)

theorem nul_notMem_writeParameters (hw : WellFormed m) : QString.nul ∉ writeParameters m.parameters.entries := by
  refine notMem_writeParameters (by decide) (by decide) fun p hp => ?_
  have hweight : weight QString.nul p = 0 := List.count_eq_zero.mpr fun hm => by
    rcases List.mem_append.mp hm with hm | hm
    · exact notMem_of_verifyName (hw.names p hp) (by decide) hm
    · exact hw.values p hp ((List.mem_cons.mp hm).resolve_left (by decide))
  have hcount := count_writeParameter_le (c := QString.nul) (by decide) (hw.values p hp)
  rw [hweight] at hcount
  exact List.count_eq_zero.mp (Nat.le_zero.mp hcount)

theorem newline_notMem_writeParameters (hw : WellFormed m) : '\n' ∉ writeParameters m.parameters.entries := by
  refine notMem_writeParameters (by decide) (by decide) fun p hp hm => ?_
  have hescaped : '\n' ∉ escaped (fromUtf8 p.2) := fun hm => by
    rcases mem_escaped hm with hm | hm | hm | hm
    · exact absurd hm (by decide)
    · exact absurd hm (by decide)
    · exact absurd hm (by decide)
    · exact hm.2.1 rfl
  rcases List.mem_append.mp hm with hm | hm
  · exact notMem_of_verifyName (hw.names p hp) (by decide) hm
  · have hm := (List.mem_cons.mp hm).resolve_left (by decide)
    rw [writeValue_eq (hw.values p hp)] at hm
    split at hm
    · rcases List.mem_append.mp hm with hm | hm
      · obtain ⟨c, hc, hm⟩ := List.mem_flatMap.mp ((List.mem_cons.mp hm).resolve_left (by decide))
        split at hm
        · simp at hm
        · rw [← List.mem_singleton.mp hm] at hc
          exact hescaped hc
      · simp at hm
    · exact hescaped hm

theorem trimmedParameters_ne_nil {p : QString × QString} {l : List (QString × QString)} : trimmedParameters (p :: l) ≠ [] := by
  unfold trimmedParameters
  rw [ne_eq, List.rdropWhile_eq_nil_iff]
  intro h
  have := h '=' (by simp [writeParameters, writeParameter])
  exact absurd this (by decide)

theorem mem_headText {c : Char} {server service command : QString} (h : c ∈ headText server service command) :
    c ∈ server ++ service ++ command ∨ c = ':' ∨ c = '/' := by
  unfold headText at h
  simp only [List.mem_append] at h ⊢
  rcases h with (h | h) | h
  · split at h
    · simp only [List.mem_append, List.mem_singleton] at h
      tauto
    · cases h
  · split at h
    · simp only [List.mem_append, List.mem_singleton] at h
      tauto
    · cases h
  · tauto

theorem mem_writeSentFrom {c : Char} (h : c ∈ writeSentFrom m) :
    c ∈ m.sentFromServer ++ m.sentFromService ∨ c = '<' ∨ c = ':' ∨ c = ' ' := by
  unfold writeSentFrom at h
  split at h
  · simp only [List.mem_append, List.mem_cons, List.not_mem_nil, or_false] at h ⊢
    tauto
  · cases h

theorem line_eq (h : m.server ≠ [] → m.service ≠ []) :
    line m = writeSentFrom m ++ (head m ++ writeParameters m.parameters.entries) := by
  unfold line
  rw [writeDestination_append h]

/-- What is in the line is in a field, in the parameters or one of four separators. -/
theorem mem_line {c : Char} (hd : m.server ≠ [] → m.service ≠ []) (h : c ∈ line m) :
    c ∈ m.sentFromServer ++ m.sentFromService ∨ c ∈ m.server ++ m.service ++ m.command ∨
    c ∈ writeParameters m.parameters.entries ∨ c = '<' ∨ c = ':' ∨ c = '/' ∨ c = ' ' := by
  rw [line_eq hd] at h
  rcases List.mem_append.mp h with h | h
  · have := mem_writeSentFrom h
    tauto
  · rcases List.mem_append.mp h with h | h
    · have := mem_headText h
      tauto
    · tauto

theorem nul_notMem_line (hw : WellFormed m) (hk : HeadKept m) : QString.nul ∉ line m := by
  intro hm
  rcases mem_line hk.destination hm with hm | hm | hm | hm
  · exact (List.mem_append.mp hm).elim hk.sentFromServer.2.2 hk.sentFromService.2
  · exact hw.nul hm
  · exact nul_notMem_writeParameters hw hm
  · exact absurd hm (by decide)

theorem newline_notMem_line (hw : WellFormed m) (hk : HeadKept m) : '\n' ∉ line m := by
  intro hm
  have hfields := hk.noNewline
  simp only [List.append_assoc, List.mem_append] at hfields
  rcases mem_line hk.destination hm with hm | hm | hm | hm
  · simp only [List.mem_append] at hm
    tauto
  · simp only [List.mem_append] at hm
    tauto
  · exact newline_notMem_writeParameters hw hm
  · exact absurd hm (by decide)

theorem head_ne_nil (hw : WellFormed m) : head m ≠ [] := fun h => hw.command (List.append_eq_nil_iff.mp h).2

theorem isSpace_first (hw : WellFormed m) (hk : HeadKept m) {c : Char} (hc : (line m).head? = some c) : isSpace c = false := by
  rw [line_eq hk.destination] at hc
  by_cases hsf : m.sentFromServer = [] ∧ m.sentFromService = []
  · refine (hk.start hsf.1 hsf.2 c ?_).2
    rw [writeDestination_append hk.destination]
    rw [writeSentFrom_nil hsf, List.nil_append, List.head?_append_of_ne_nil _ (head_ne_nil hw)] at hc
    exact hc
  · rw [writeSentFrom_eq hsf] at hc
    cases hc
    decide

/-- A line is trimmed at the end of its parameters only. -/
theorem trimmed_line (hw : WellFormed m) (hk : HeadKept m) :
    trimmed (line m) = writeSentFrom m ++ (head m ++ trimmedRest m.parameters) := by
  have hdrop : (line m).dropWhile isSpace = line m := by
    cases h : line m with
    | nil => rfl
    | cons c t =>
      refine List.dropWhile_cons_of_neg ?_
      rw [isSpace_first hw hk (c := c) (by rw [h]; rfl)]
      exact Bool.false_ne_true
  unfold trimmed trimmedRest
  rw [hdrop, line_eq hk.destination]
  by_cases hp : m.parameters = ∅
  · -- the command is the last word
    obtain ⟨s, c, hc⟩ := (List.eq_nil_or_concat m.command).resolve_left hw.command
    have hlast : isSpace c = false := hk.stop hp c (by rw [hc, List.concat_eq_append, List.getLast?_concat])
    have hsplit : writeSentFrom m ++ (head m ++ []) = (writeSentFrom m ++ headText m.server m.service s) ++ [c] := by
      unfold head headText
      rw [hc]
      simp
    rw [if_pos hp, hp]
    show (writeSentFrom m ++ (head m ++ [])).rdropWhile isSpace = _
    rw [hsplit, List.rdropWhile_concat_neg _ _ _ (by rw [hlast]; exact Bool.false_ne_true)]
  · cases h : m.parameters.entries with
    | nil => exact absurd (SortedMap.ext h) hp
    | cons p l =>
      have hsplit : ∀ t : QString,
          writeSentFrom m ++ (head m ++ ' ' :: t) = (writeSentFrom m ++ head m ++ [' ']) ++ t := by simp
      have hcons : writeParameters (p :: l) = ' ' :: (writeParameters (p :: l)).tail := rfl
      rw [if_neg hp, hcons, hsplit, rdropWhile_append_of_ne_nil trimmedParameters_ne_nil, hsplit]
      rfl

theorem constData_trimmed_line (hw : WellFormed m) (hk : HeadKept m) :
    constData (trimmed (line m)) = writeSentFrom m ++ (head m ++ trimmedRest m.parameters) := by
  rw [← trimmed_line hw hk]
  exact constData_eq_self fun hm => nul_notMem_line hw hk
    ((List.dropWhile_sublist _).subset ((List.rdropWhile_prefix _ _).subset hm))

/-- With the head kept, the reader comes to the parameters, and they decide. -/
theorem fromMessage_line (hw : WellFormed m) (hk : HeadKept m) :
    fromMessage (line m) = (readRest (trimmedRest m.parameters)).map fun parameters => { m with parameters } := by
  have hs : readSentFrom (constData (trimmed (line m))) =
      some (m.sentFromServer, m.sentFromService, head m ++ trimmedRest m.parameters) := by
    rw [constData_trimmed_line hw hk]
    by_cases hsf : m.sentFromServer = [] ∧ m.sentFromService = []
    · rw [writeSentFrom_nil hsf, List.nil_append, hsf.1, hsf.2]
      refine readSentFrom_other fun hlt => ?_
      rw [List.head?_append_of_ne_nil _ (head_ne_nil hw), ← writeDestination_append hk.destination] at hlt
      exact (hk.start hsf.1 hsf.2 _ hlt).1 rfl
    · have hlatin : ∀ {s : QString}, (∀ c ∈ s, c ∈ m.sentFromServer ++ m.sentFromService) → narrow s = s := fun h =>
        narrow_eq_self fun c hc => hw.latin1 c (h c hc)
      rw [writeSentFrom_eq hsf, readSentFrom_sentFrom hk.sentFromServer.2.1 hk.sentFromServer.1 hk.sentFromService.1,
        hlatin fun c hc => List.mem_append_left _ hc, hlatin fun c hc => List.mem_append_right _ hc]
  exact fromMessage_eq hs hw.plain hw.command (trimmedRest_cases _)

theorem fromMessage_line_iff (hw : WellFormed m) (hk : HeadKept m) :
    fromMessage (line m) = some m ↔ ParametersKept m.parameters := by
  have hparameters : fromMessage (line m) = some m ↔ readRest (trimmedRest m.parameters) = some m.parameters := by
    rw [fromMessage_line hw hk, Option.map_eq_some_iff]
    constructor
    · rintro ⟨P, hP, hm⟩
      rw [hP, ← hm]
    · exact fun h => ⟨_, h, rfl⟩
  rw [hparameters]
  unfold trimmedRest
  by_cases hp : m.parameters = ∅
  · rw [if_pos hp, hp]
    exact ⟨fun _ => ⟨fun _ hp => absurd hp List.not_mem_nil, by rintro _ ⟨⟩⟩, fun _ => rfl⟩
  · rw [if_neg hp]
    exact readParameters_iff_parametersKept hp hw.names hw.values

/-! ### A head that is not kept is not read back

The line has as many colons as its parts, so one in front of the command is the one that was written. -/

/-- The colons the line has at least, when the message is read from it. -/
def colons (m : SnapCommunicatorMessage) : Nat := (if m.server = [] then 0 else 1) + m.parameters.sumOf (weight ':')

theorem colons_le_of_read {rest : QString} (hrest : rest = [] ∨ ∃ r, rest = ' ' :: r)
    (h : readRest rest = some m.parameters) : colons m ≤ (head m ++ rest).count ':' := by
  have hserver : (if m.server = [] then 0 else 1) ≤ (head m).count ':' := by
    split
    · exact Nat.zero_le _
    · rename_i hne
      refine List.count_pos_iff.mpr ?_
      unfold head headText
      rw [if_pos hne]
      simp
  have hparameters : m.parameters.sumOf (weight ':') ≤ rest.count ':' := by
    rcases hrest with rfl | ⟨r, rfl⟩
    · rw [← Option.some.inj (show some ∅ = some m.parameters from h)]
      exact Nat.le_refl _
    · have := (weight_readParametersFrom (c := ':') (by decide) (show readParametersFrom r.length r ∅ = _ from h)).1
      rw [SortedMap.sumOf_empty, Nat.zero_add] at this
      rw [List.count_cons_of_ne (by decide)]
      exact this
  rw [List.count_append]
  exact Nat.add_le_add hserver hparameters

theorem count_colon_written (hw : WellFormed m) :
    (writeDestination m ++ m.command ++ writeParameters m.parameters.entries).count ':' ≤
      (if m.server ≠ [] ∧ m.service ≠ [] then 1 else 0) + m.parameters.sumOf (weight ':') := by
  have hplain : ∀ {s : QString}, (∀ c ∈ s, c ∈ m.server ++ m.service ++ m.command) → s.count ':' = 0 := fun h =>
    List.count_eq_zero.mpr fun hm => (hw.plain _ (h _ hm)).2.1 rfl
  have hserver := hplain (s := m.server) fun c hc => by simp [hc]
  have hservice := hplain (s := m.service) fun c hc => by simp [hc]
  have hcommand := hplain (s := m.command) fun c hc => by simp [hc]
  have hdestination : (writeDestination m).count ':' ≤ if m.server ≠ [] ∧ m.service ≠ [] then 1 else 0 := by
    unfold writeDestination
    by_cases h₁ : m.server = [] <;> by_cases h₂ : m.service = [] <;> simp [h₁, h₂, hserver, hservice]
  have hparameters : (writeParameters m.parameters.entries).count ':' ≤ m.parameters.sumOf (weight ':') := by
    unfold SortedMap.sumOf
    have hvalues := hw.values
    revert hvalues
    cases m.parameters.entries with
    | nil => intro _; exact Nat.le_refl _
    | cons p l =>
      intro hvalues
      have hp := count_writeParameter_le (c := ':') (by decide) (hvalues p List.mem_cons_self)
      have hl := count_separated_le (c := ':') (by decide) (l := l) fun q hq => hvalues q (List.mem_cons_of_mem p hq)
      show (' ' :: writeParameter p ++ l.flatMap fun q => ';' :: writeParameter q).count ':' ≤ _
      rw [List.cons_append, List.count_cons_of_ne (by decide), List.count_append, List.map_cons, List.sum_cons]
      omega
  rw [List.count_append, List.count_append, hcommand]
  omega

/-- What the first loop must have seen, for the message to be read from its own line. -/
theorem sentFrom_of_read (hw : WellFormed m) {s : QString} (hnul : nul ∉ s) {rest t x : QString}
    (hs : readSentFrom s = some (m.sentFromServer, m.sentFromService, rest))
    (hsf : ¬(m.sentFromServer = [] ∧ m.sentFromService = [])) (hx : s ++ x = writeSentFrom m ++ t) :
    (' ' ∉ m.sentFromServer ∧ ':' ∉ m.sentFromServer ∧ nul ∉ m.sentFromServer) ∧
    (' ' ∉ m.sentFromService ∧ nul ∉ m.sentFromService) ∧ rest ++ x = t := by
  rw [writeSentFrom_eq hsf] at hx
  rcases readSentFrom_inv hs with ⟨-, h₁, h₂, -⟩ | ⟨server₀, service₀, rfl, hcolon, hspace, hspace', h₁, h₂⟩
  · exact absurd ⟨h₁, h₂⟩ hsf
  · have hx : server₀ ++ ':' :: (service₀ ++ ' ' :: (rest ++ x)) =
        m.sentFromServer ++ ':' :: (m.sentFromService ++ ' ' :: t) := by
      rw [← (List.cons.inj hx).2]
      simp
    -- the names read are the names written, character by character
    have hserver : server₀ = m.sentFromServer := by
      refine narrow_leading ?_ h₁.symm fun c hc => hw.latin1 c (List.mem_append_left _ hc)
      exact List.prefix_or_prefix_of_prefix (hx ▸ List.prefix_append _ _) (List.prefix_append _ _)
    subst hserver
    have hx := (List.cons.inj (List.append_cancel_left hx)).2
    have hservice : service₀ = m.sentFromService := by
      refine narrow_leading ?_ h₂.symm fun c hc => hw.latin1 c (List.mem_append_right _ hc)
      exact List.prefix_or_prefix_of_prefix (hx ▸ List.prefix_append _ _) (List.prefix_append _ _)
    subst hservice
    have hx := (List.cons.inj (List.append_cancel_left hx)).2
    simp only [List.mem_cons, List.mem_append, not_or] at hnul
    exact ⟨⟨hspace, hcolon, hnul.2.1⟩, ⟨hspace', hnul.2.2.2.1⟩, hx⟩

theorem dropWhile_eq_self_of_isSpace {c : Char} {s : QString} (h : isSpace c = false) :
    (c :: s).dropWhile isSpace = c :: s := List.dropWhile_cons_of_neg (by rw [h]; exact Bool.false_ne_true)

/-- What is read of a line is in it, one piece. -/
theorem constData_trimmed_inside (s : QString) : constData (trimmed s) <:+: s :=
  (List.takeWhile_prefix _).isInfix.trans (trimmed_inside s)

theorem isSpace_head?_trimmed {s : QString} {c : Char} (h : (constData (trimmed s)).head? = some c) : isSpace c = false := by
  obtain ⟨t, ht⟩ := List.head?_eq_some_iff.mp h
  obtain ⟨x, hx⟩ : constData (trimmed s) <+: trimmed s := List.takeWhile_prefix _
  refine head?_trimmed (s := s) ?_
  rw [← hx, ht]
  rfl

theorem isSpace_getLast?_trimmed {s : QString} {c : Char} (h : (trimmed s).getLast? = some c) : isSpace c = false := by
  have hne : trimmed s ≠ [] := fun hnil => by
    rw [hnil] at h
    cases h
  have := List.rdropWhile_last_not isSpace (s.dropWhile isSpace) hne
  rw [List.getLast?_eq_getLast_of_ne_nil hne] at h
  cases h
  exact Bool.eq_false_iff.mpr this

theorem newline_notMem_fields (hd : m.server ≠ [] → m.service ≠ []) (h : '\n' ∉ line m) :
    '\n' ∉ m.sentFromServer ++ m.sentFromService ++ m.server ++ m.service ++ m.command := by
  have hhead : '\n' ∉ head m := fun hm => h (by
    rw [line_eq hd]
    exact List.mem_append_right _ (List.mem_append_left _ hm))
  have hsentFrom : '\n' ∉ writeSentFrom m := fun hm => h (by
    rw [line_eq hd]
    exact List.mem_append_left _ hm)
  intro hm
  rw [List.append_assoc, List.append_assoc] at hm
  rcases List.mem_append.mp hm with hm | hm
  · refine hsentFrom ?_
    have hsf : ¬(m.sentFromServer = [] ∧ m.sentFromService = []) := fun hsf => by
      rw [hsf.1, hsf.2] at hm
      cases hm
    rw [← List.append_nil (writeSentFrom m), writeSentFrom_eq hsf]
    simp only [List.mem_append, List.mem_cons] at hm ⊢
    tauto
  · refine hhead ?_
    unfold head headText
    simp only [List.mem_append] at hm ⊢
    rcases hm with hm | hm | hm
    · exact Or.inl (Or.inl (by rw [if_pos (List.ne_nil_of_mem hm)]; exact List.mem_append_left _ hm))
    · exact Or.inl (Or.inr (by rw [if_pos (List.ne_nil_of_mem hm)]; exact List.mem_append_left _ hm))
    · exact Or.inr hm

/-- The head in the line, when the sent-from text is read back: it is where it was written. -/
theorem rest_of_read (hw : WellFormed m) {rest : QString}
    (hs : readSentFrom (constData (trimmed (line m))) = some (m.sentFromServer, m.sentFromService, rest)) :
    (' ' ∉ m.sentFromServer ∧ ':' ∉ m.sentFromServer ∧ nul ∉ m.sentFromServer) ∧
    (' ' ∉ m.sentFromService ∧ nul ∉ m.sentFromService) ∧
    constData (trimmed (line m)) = writeSentFrom m ++ rest ∧
    rest <:+: writeDestination m ++ m.command ++ writeParameters m.parameters.entries ∨
    m.sentFromServer = [] ∧ m.sentFromService = [] ∧
      1 + rest.count ':' ≤ (writeDestination m ++ m.command ++ writeParameters m.parameters.entries).count ':' := by
  by_cases hsf : m.sentFromServer = [] ∧ m.sentFromService = []
  · have hline : line m = writeDestination m ++ m.command ++ writeParameters m.parameters.entries := by
      unfold line
      rw [writeSentFrom_nil hsf]
      rfl
    have hinside := constData_trimmed_inside (line m)
    rcases readSentFrom_inv hs with ⟨-, -, -, hrest⟩ | ⟨server₀, service₀, heq, -⟩
    · refine Or.inl ⟨by simp [hsf.1], by simp [hsf.2], by rw [writeSentFrom_nil hsf, hrest]; rfl, ?_⟩
      rw [hrest, ← hline]
      exact hinside
    · refine Or.inr ⟨hsf.1, hsf.2, ?_⟩
      rw [← hline]
      refine Nat.le_trans ?_ (hinside.sublist.count_le ':')
      rw [heq, List.count_cons_of_ne (by decide), List.count_append, List.count_cons_self, List.count_append,
        List.count_cons_of_ne (by decide)]
      omega
  · have hlt : isSpace '<' = false := by decide
    have hdrop : trimmed (line m) <+: line m := by
      unfold trimmed line
      rw [writeSentFrom_eq hsf, dropWhile_eq_self_of_isSpace hlt]
      exact List.rdropWhile_prefix _ _
    obtain ⟨x, hx⟩ := (List.takeWhile_prefix _).trans hdrop
    obtain ⟨h₁, h₂, hrest⟩ := sentFrom_of_read hw (nul_notMem_constData _) hs hsf hx
    refine Or.inl ⟨h₁, h₂, ?_, hrest ▸ (List.prefix_append rest x).isInfix⟩
    have hx : constData (trimmed (line m)) ++ x = writeSentFrom m ++ rest ++ x := by
      rw [List.append_assoc, hrest]
      exact hx
    exact List.append_cancel_right hx

theorem headKept_of_read (hw : WellFormed m) (hn : '\n' ∉ line m) (h : fromMessage (line m) = some m) : HeadKept m := by
  obtain ⟨rest, hs, -, -, hrest, hp⟩ := fromMessage_inv h
  have hread := colons_le_of_read hrest hp
  have hwritten := count_colon_written hw
  unfold colons at hread
  rcases rest_of_read hw hs with ⟨hserver, hservice, heq, hinside⟩ | ⟨-, -, hcount⟩
  · have hdestination : m.server ≠ [] → m.service ≠ [] := by
      intro h₁ h₂
      have := hinside.sublist.count_le ':'
      rw [if_neg h₁] at hread
      rw [if_neg fun h => h.2 h₂] at hwritten
      omega
    have hhead := writeDestination_append hdestination
    refine ⟨?_, hdestination, hserver, hservice, fun h₁ h₂ c hc => ?_, fun hempty c hc => ?_⟩
    · exact newline_notMem_fields hdestination hn
    · rw [writeSentFrom_nil ⟨h₁, h₂⟩, List.nil_append] at heq
      rw [hhead] at hc
      have hfirst : (constData (trimmed (line m))).head? = some c := by
        rw [heq, List.head?_append_of_ne_nil _ (head_ne_nil hw)]
        exact hc
      refine ⟨?_, isSpace_head?_trimmed hfirst⟩
      rintro rfl
      rcases readSentFrom_inv hs with ⟨hne, -⟩ | ⟨server₀, service₀, hcut, -⟩
      · exact hne hfirst
      · rw [heq] at hcut
        have := congrArg List.length hcut
        simp only [List.length_cons, List.length_append] at this
        omega
    · have hlen : (line m).length ≤ (constData (trimmed (line m))).length := by
        rw [heq, line_eq hdestination, hempty]
        simp [writeParameters]
      have hlast : (trimmed (line m)).getLast? = some c := by
        obtain ⟨s, hs⟩ := List.getLast?_eq_some_iff.mp hc
        have htrim : trimmed (line m) = line m :=
          (trimmed_inside (line m)).eq_of_length_le (hlen.trans (List.takeWhile_prefix _).length_le)
        rw [htrim, line_eq hdestination, hempty]
        show (writeSentFrom m ++ (head m ++ [])).getLast? = some c
        unfold head headText
        rw [hs, List.append_nil, List.append_assoc, ← List.append_assoc, ← List.append_assoc, ← List.append_assoc,
          List.getLast?_concat]
      exact isSpace_getLast?_trimmed hlast
  · -- a sent-from text made of the message itself would take a colon away
    exfalso
    split at hwritten <;> split at hread <;> rename_i h₁ h₂
    all_goals first
      | omega
      | exact h₁.1 h₂

/-- Exactly which messages are read back from their line. -/
theorem roundTrips_iff (hw : WellFormed m) : RoundTrips m ↔ HeadKept m ∧ ParametersKept m.parameters := by
  constructor
  · rintro ⟨line', hline, hn, h⟩
    rw [toMessage_eq hw.command] at hline
    cases hline
    have hk := headKept_of_read hw hn h
    exact ⟨hk, (fromMessage_line_iff hw hk).mp h⟩
  · rintro ⟨hk, hp⟩
    exact ⟨line m, toMessage_eq hw.command, newline_notMem_line hw hk, (fromMessage_line_iff hw hk).mpr hp⟩

end SnapCommunicatorMessage
end Snapwebsites
