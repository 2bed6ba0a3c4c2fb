import Snapwebsites.Communicator.RoundTrip

/-! # Messages on the wire

The two uses of `roundTrips_iff`. A program makes a message with the setters, which check every name,
so only its values can be lost. A daemon forwards what it has read, and the reader is more liberal than
the setters: the fields in front of the parameters count as well. -/

namespace Snapwebsites
open QString

namespace SnapCommunicatorMessage
variable {m : SnapCommunicatorMessage}

/-! ### Messages made with the setters -/

/-- The characters of the names the setters let through. -/
def isNameChar (c : Char) : Bool :=
  isLowercase c || isUppercase c || isDigit c || c = '_' || c = '*' || c = '?' || c = '.'

def IsName (s : QString) : Prop := ∀ c ∈ s, isNameChar c = true

theorem isName_of_verifyName {name : QString} {e l : Bool} (h : verifyName name e l = true) : IsName name := fun c hc => by
  rcases ne_of_verifyName h hc with h | h | h | h <;> simp [isNameChar, h]

theorem isName_singleton {c : Char} (h : isNameChar c = true) : IsName [c] := fun d hd => by
  rw [List.mem_singleton.mp hd]
  exact h

theorem toNat_of_isNameChar {c : Char} (h : isNameChar c = true) :
    c.toNat = 42 ∨ c.toNat = 46 ∨ (48 ≤ c.toNat ∧ c.toNat ≤ 57) ∨ c.toNat = 63 ∨
    (65 ≤ c.toNat ∧ c.toNat ≤ 90) ∨ c.toNat = 95 ∨ (97 ≤ c.toNat ∧ c.toNat ≤ 122) := by
  have hle : ∀ {a b : Char}, a ≤ b → a.toNat ≤ b.toNat := fun h => h
  simp only [isNameChar, isLowercase, isUppercase, isDigit, Bool.or_eq_true, Bool.and_eq_true, decide_eq_true_eq] at h
  rcases h with (((((h | h) | h) | rfl) | rfl) | rfl) | rfl
  · exact Or.inr (Or.inr (Or.inr (Or.inr (Or.inr (Or.inr ⟨hle h.1, hle h.2⟩)))))
  · exact Or.inr (Or.inr (Or.inr (Or.inr (Or.inl ⟨hle h.1, hle h.2⟩))))
  · exact Or.inr (Or.inr (Or.inl ⟨hle h.1, hle h.2⟩))
  all_goals decide

theorem isSpace_of_isNameChar {c : Char} (h : isNameChar c = true) : isSpace c = false := by
  have := toNat_of_isNameChar h
  simp only [isSpace, Bool.or_eq_false_iff, Bool.and_eq_false_iff, decide_eq_false_iff_not]
  omega

theorem ne_of_isNameChar {c d : Char} (h : isNameChar c = true) (hd : isNameChar d = false) : c ≠ d := by
  rintro rfl
  rw [h] at hd
  cases hd

/-- What the setters keep: names in front, and verified parameters. -/
structure Names (m : SnapCommunicatorMessage) : Prop where
  sentFromServer : IsName m.sentFromServer
  sentFromService : IsName m.sentFromService
  server : IsName m.server
  service : IsName m.service
  command : IsName m.command
  parameters : ∀ p ∈ m.parameters.entries, verifyName p.1 false true = true

theorem Built.names (h : Built m) : Names m := by
  have hnil : IsName [] := fun c hc => by cases hc
  induction h with
  | new => exact ⟨hnil, hnil, hnil, hnil, hnil, fun p hp => by cases hp⟩
  | setSentFromServer _ hs ih =>
    unfold SnapCommunicatorMessage.setSentFromServer at hs
    split at hs
    · cases hs
      exact ih
    · split at hs
      · rename_i hv
        cases hs
        exact { ih with sentFromServer := isName_of_verifyName hv }
      · cases hs
  | setSentFromService _ hs ih =>
    unfold SnapCommunicatorMessage.setSentFromService at hs
    split at hs
    · cases hs
      exact ih
    · split at hs
      · rename_i hv
        cases hs
        exact { ih with sentFromService := isName_of_verifyName hv }
      · cases hs
  | setServer _ hs ih =>
    unfold SnapCommunicatorMessage.setServer at hs
    split at hs
    · cases hs
      exact ih
    · split at hs
      · rename_i hv
        cases hs
        refine { ih with server := ?_ }
        rcases hv with rfl | rfl | hv
        · exact isName_singleton (by decide)
        · exact isName_singleton (by decide)
        · exact isName_of_verifyName hv
      · cases hs
  | setService _ hs ih =>
    unfold SnapCommunicatorMessage.setService at hs
    split at hs
    · cases hs
      exact ih
    · split at hs
      · rename_i hv
        cases hs
        refine { ih with service := ?_ }
        rcases hv with rfl | rfl | rfl | hv
        · exact isName_singleton (by decide)
        · exact isName_singleton (by decide)
        · exact isName_singleton (by decide)
        · exact isName_of_verifyName hv
      · cases hs
  | setCommand _ hs ih =>
    unfold SnapCommunicatorMessage.setCommand at hs
    split at hs
    · rename_i hv
      cases hs
      exact { ih with command := isName_of_verifyName hv }
    · cases hs
  | addParameter _ hs ih =>
    unfold SnapCommunicatorMessage.addParameter at hs
    split at hs
    · rename_i hv
      cases hs
      refine { ih with parameters := fun p hp => ?_ }
      rcases SortedMap.mem_insertIn hp with rfl | hp
      · exact hv
      · exact ih.parameters p hp
    · cases hs

theorem Names.isNameChar_head (h : Names m) : ∀ c ∈ m.server ++ m.service ++ m.command, isNameChar c = true := fun c hc => by
  simp only [List.mem_append] at hc
  rcases hc with (hc | hc) | hc
  · exact h.server c hc
  · exact h.service c hc
  · exact h.command c hc

theorem Names.wellFormed (h : Names m) (hc : m.command ≠ []) (hv : ∀ p ∈ m.parameters.entries, nul ∉ p.2) : WellFormed m := by
  have hhead := h.isNameChar_head
  refine ⟨hc, fun c hc => ⟨?_, ?_, ?_⟩, fun hm => ?_, fun c hc => ?_, h.parameters, hv⟩
  · exact ne_of_isNameChar (hhead c hc) (by decide)
  · exact ne_of_isNameChar (hhead c hc) (by decide)
  · exact ne_of_isNameChar (hhead c hc) (by decide)
  · exact ne_of_isNameChar (hhead _ hm) (by decide) rfl
  · have hname : isNameChar c = true := (List.mem_append.mp hc).elim (h.sentFromServer c) (h.sentFromService c)
    have := toNat_of_isNameChar hname
    omega

theorem mem_of_head?_headText {server service command : QString} {c : Char}
    (h : (headText server service command).head? = some c) : c ∈ server ++ service ++ command := by
  unfold headText at h
  cases server with
  | cons d s =>
    cases h
    exact List.mem_append_left _ (List.mem_append_left _ List.mem_cons_self)
  | nil =>
    cases service with
    | cons d s =>
      cases h
      exact List.mem_append_left _ (List.mem_append_right _ List.mem_cons_self)
    | nil => exact List.mem_append_right _ (List.mem_of_mem_head? h)

theorem Names.headKept (h : Names m) (hd : m.server ≠ [] → m.service ≠ []) : HeadKept m := by
  have hnot : ∀ {s : QString} {c : Char}, IsName s → isNameChar c = false → c ∉ s := fun hs hc hm =>
    ne_of_isNameChar (hs _ hm) hc rfl
  refine ⟨fun hm => ?_, hd, ⟨hnot h.sentFromServer (by decide), hnot h.sentFromServer (by decide),
    hnot h.sentFromServer (by decide)⟩, ⟨hnot h.sentFromService (by decide), hnot h.sentFromService (by decide)⟩,
    fun _ _ c hc => ?_, fun _ c hc => isSpace_of_isNameChar (h.command c (List.mem_of_getLast? hc))⟩
  · simp only [List.mem_append] at hm
    rcases hm with (((hm | hm) | hm) | hm) | hm
    · exact hnot h.sentFromServer (by decide) hm
    · exact hnot h.sentFromService (by decide) hm
    · exact hnot h.server (by decide) hm
    · exact hnot h.service (by decide) hm
    · exact hnot h.command (by decide) hm
  · rw [writeDestination_append hd] at hc
    have hname := h.isNameChar_head c (mem_of_head?_headText hc)
    exact ⟨ne_of_isNameChar hname (by decide), isSpace_of_isNameChar hname⟩

/-- A message built with the setters is restored by the reader exactly when its values are kept. -/
theorem roundTrips_of_built_iff (hb : Built m) (hc : m.command ≠ []) (hd : m.server ≠ [] → m.service ≠ [])
    (hv : ∀ p ∈ m.parameters.entries, nul ∉ p.2) : RoundTrips m ↔ ParametersKept m.parameters := by
  rw [roundTrips_iff (hb.names.wellFormed hc hv)]
  exact and_iff_right (hb.names.headKept hd)

/-- A `LOCK` message with one parameter. -/
def lockMessage (value : QString) : SnapCommunicatorMessage :=
  { command := "LOCK".toList, parameters := (∅ : SortedMap QString QString).insert "tag".toList value }

theorem lockMessage_built (value : QString) : Built (lockMessage value) :=
  have hcommand : setCommand {} "LOCK".toList = some { command := "LOCK".toList } := rfl
  .addParameter (.setCommand .new hcommand) (show addParameter _ "tag".toList value = _ from rfl)

theorem roundTrips_of_built_iff_lock : RoundTrips (lockMessage "a;b".toList) ↔
    ParametersKept (lockMessage "a;b".toList).parameters :=
  roundTrips_of_built_iff (lockMessage_built _) (by decide) (by decide) (by decide)

/-- A quoted value with a backslash at its end is not read back. -/
theorem not_roundTrips_of_built : ¬ ∀ m, Built m → m.command ≠ [] → (m.server ≠ [] → m.service ≠ []) →
    (∀ p ∈ m.parameters.entries, nul ∉ p.2) → RoundTrips m := fun h =>
  absurd (h (lockMessage ";\\".toList) (lockMessage_built _) (by decide) (by decide) (by decide)) (by decide)

/-! ### Messages that are forwarded -/

/-- What a message has become after `n` daemons: each sends the line on and reads it. -/
def relayed : Nat → SnapCommunicatorMessage → Option SnapCommunicatorMessage
  | 0, m => some m
  | n + 1, m => do
    let line ← m.toMessage
    if '\n' ∈ line then none
    else
      let m ← fromMessage line
      relayed n m

theorem RoundTrips.relayed (h : RoundTrips m) (n : Nat) : relayed n m = some m := by
  obtain ⟨line, hline, hn, hread⟩ := h
  induction n with
  | zero => rfl
  | succ n ih =>
    show (m.toMessage.bind fun line => if '\n' ∈ line then none else (fromMessage line).bind (SnapCommunicatorMessage.relayed n)) = _
    rw [hline, Option.bind_some, if_neg hn, hread, Option.bind_some, ih]

/-- A message that was read is forwarded unchanged exactly when each of its fields can be. -/
theorem forwarded_of_fromMessage_iff {text : QString} (h : fromMessage text = some m) :
    (RoundTrips m ∧ ∀ n, relayed n m = some m) ↔ HeadKept m ∧ ParametersKept m.parameters := by
  rw [← roundTrips_iff (wellFormed_of_fromMessage h)]
  exact and_iff_left_of_imp RoundTrips.relayed

theorem forwarded_of_fromMessage_iff_ping :
    (RoundTrips { service := "snaplock".toList, command := "PING".toList } ∧
      ∀ n, relayed n { service := "snaplock".toList, command := "PING".toList } =
        some { service := "snaplock".toList, command := "PING".toList }) ↔
    HeadKept { service := "snaplock".toList, command := "PING".toList } ∧ ParametersKept ∅ :=
  have hread : fromMessage "snaplock/PING".toList = some { service := "snaplock".toList, command := "PING".toList } := by decide
  forwarded_of_fromMessage_iff hread

/-- A server without a service is read and not written. -/
theorem not_forwarded_of_fromMessage : ¬ ∀ text m, fromMessage text = some m → RoundTrips m := fun h =>
  absurd (h "neptune:PING".toList { server := "neptune".toList, command := "PING".toList } (by decide)) (by decide)

end SnapCommunicatorMessage
end Snapwebsites
