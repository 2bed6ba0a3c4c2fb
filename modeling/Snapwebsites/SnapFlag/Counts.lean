import Snapwebsites.SnapFlag.Save

/-! # What a flag file counts

A flag file says how often its flag was raised since it went up, when that was first, and what was said last, in every run in which
what a process remembers of the file is still what the file says when the process raises the flag again, and in which all texts are
read back as they are written. -/

namespace Snapwebsites
namespace SnapFlag
open QString SnapConfig Trace

/-! ### What is shown -/

/-- What happened to a flag since it went up. -/
structure Record where
  count : Nat
  date : Int64
  modified : Int64
  message : Bytes
  priority : Int32

def happened (r : Option Record) (c : Call) : Option Record :=
  match c.flag.state, r with
  | .down, _ => none
  | .up, none => some { count := 1, date := c.now, modified := c.now, message := c.flag.message, priority := c.flag.priority }
  | .up, some r => some { r with count := r.count + 1, modified := c.now, message := c.flag.message, priority := c.flag.priority }

/-- What is read of the flag file. -/
def State.parameters (n : FlagName) (s : State) : Option Parameters :=
  match actualReadConfigFile n.filename s.file ∅ with
  | .ok (true, parameters) => some parameters
  | _ => none

structure Says (r : Record) (ps : Parameters) : Prop where
  count : ps.find? countName = some (toString r.count)
  date : ps.find? dateName = some (toString r.date.toInt)
  modified : ps.find? modifiedName = some (toString r.modified.toInt)
  message : ps.find? messageName = some r.message
  priority : ps.find? priorityName = some (toString r.priority.toInt)

/-- The file is there when the flag is up, and says what happened. -/
def Shows (n : FlagName) (s : State) : Option Record → Prop
  | none => s.file = none
  | some r => ∃ ps, s.parameters n = some ps ∧ Says r ps

/-- A parameter that is read back as it is written. -/
structure Fits (e : Bytes × Bytes) : Prop where
  writable : Writable e
  short : (bodyOf e).length < bufSize
  kept : Kept e.2

/-- The texts of a flag are read back. -/
def Texts (n : FlagName) (c : Call) : Prop :=
  ∀ e ∈ [(unitName, n.unit), (sectionName, n.section_), (nameName, n.name), (sourceFileName, c.flag.sourceFile),
    (functionName, c.flag.function), (messageName, c.flag.message), (tagsName, [0x2C].intercalate c.flag.tags), (hostnameName, c.hostname),
    (versionName, c.version)], Fits e

/-- A process that raises a flag remembers what the file says, and the texts are read back. -/
structure Current (n : FlagName) (s : State) (c : Call) : Prop where
  found : ∀ m, s.remembered c.process = some m → m.found = s.file.isSome
  date : ∀ m, s.remembered c.process = some m → ∀ ps, s.parameters n = some ps → m.parameters.find? dateName = ps.find? dateName
  count : ∀ m, s.remembered c.process = some m → ∀ ps, s.parameters n = some ps → m.parameters.find? countName = ps.find? countName
  texts : Texts n c
  small : ∀ ps, s.parameters n = some ps → ps.find? countName ≠ some (toString 0x7FFFFFFFFFFFFFFF)

/-! ### Numbers -/

theorem toNat_of_mem_number {c : Char} {n : Int} (h : c ∈ number n) : 0x2D ≤ c.toNat ∧ c.toNat ≤ 0x39 := by
  rcases mem_number h with rfl | h
  · decide
  · simp only [Char.isDigit, Bool.and_eq_true, decide_eq_true_eq] at h
    have hle : 0x30 ≤ c.toNat ∧ c.toNat ≤ 0x39 := h
    omega

theorem mem_toString {b : UInt8} {n : Int} (h : b ∈ toString n) : 0x2D ≤ b ∧ b ≤ 0x39 := by
  obtain ⟨c, hc, rfl⟩ := List.mem_map.mp h
  have hrange := toNat_of_mem_number hc
  rw [UInt8.le_iff_toNat_le, UInt8.le_iff_toNat_le, UInt8.toNat_ofNat_of_lt' (show c.toNat < 256 by omega)]
  exact hrange

theorem length_number {n : Int} (h₀ : -0x8000000000000000 ≤ n) (h : n < 0x8000000000000000) : (number n).length ≤ 20 := by
  have hdigits : (Nat.toDigits 10 n.natAbs).length ≤ 19 := (Nat.length_toDigits_le_iff (by decide) (by decide)).mpr (by omega)
  unfold number
  split
  · rw [List.length_cons]
    omega
  · omega

theorem chars_toString (n : Int) : ((toString n).map fun b => Char.ofNat b.toNat) = number n := by
  have hchar : ∀ c ∈ number n, Char.ofNat (UInt8.ofNat c.toNat).toNat = c := fun c hc => by
    have hrange := toNat_of_mem_number hc
    rw [UInt8.toNat_ofNat_of_lt' (show c.toNat < 256 by omega), Char.ofNat_toNat]
  rw [toString, List.map_map]
  exact (List.map_congr_left fun c hc => hchar c hc).trans (List.map_id _)

/-- A count is read back. -/
theorem stol_toString {n : Nat} (h : n < 0x8000000000000000) : stol (toString n) = some (n : Int) := by
  have hzero : 0 ∉ toString n := fun hmem => absurd (mem_toString hmem).1 (by decide)
  have hspace : ∀ b, (toString n).head? = some b → SnapConfig.isSpace b = false := fun b hb =>
    not_space_of_lt (lt_of_lt_of_le (by decide) (mem_toString (List.mem_of_mem_head? hb)).1)
  have hdrop : (toString n).dropWhile SnapConfig.isSpace = toString n := by
    cases hs : toString n with
    | nil => rfl
    | cons b s => rw [List.dropWhile_cons_of_neg (by rw [hspace b (by rw [hs]; rfl)]; exact Bool.false_ne_true)]
  have htake : (number n).takeWhile Char.isDigit = number n := List.takeWhile_eq_self_iff.mpr fun c hc => isDigit_of_mem_number hc
  have hsign : ∀ c u, number n = c :: u → c.isDigit = true := fun c u hnumber =>
    isDigit_of_mem_number (n := n) (by rw [hnumber]; exact List.mem_cons_self)
  unfold stol
  rw [cString_eq_self hzero, hdrop, chars_toString]
  split
  · rename_i u hnumber
    cases hsign _ _ hnumber
  · rename_i u hnumber
    cases hsign _ _ hnumber
  · dsimp only
    rw [htake, digits_number, Option.map_some, Option.filter_some, if_pos (by simp; omega)]

theorem nextCount_toString {n : Nat} (h : n + 1 < 0x8000000000000000) : nextCount (toString n) = some (toString (n + 1)) := by
  rw [nextCount, stol_toString (by omega), Option.bind_some, if_pos (by omega)]

/-! ### Parameters that are read back -/

/-- A short value without a space, a quote or a backslash. -/
theorem fits_plain {name v : Bytes} (hname : ValidName name) (hlength : name.length ≤ 64) (hv : v.length ≤ 64)
    (hplain : ∀ b ∈ v, 0x28 ≤ b ∧ b ≠ 0x5C) : Fits (name, v) := by
  have hne : ∀ {b : UInt8}, b < 0x28 ∨ b = 0x5C → b ∉ v := by
    rintro b (hlt | rfl) hmem
    · exact absurd (hplain b hmem).1 (not_le.mpr hlt)
    · exact (hplain _ hmem).2 rfl
  have hspace : ∀ b ∈ v, SnapConfig.isSpace b = false := fun b hb => not_space_of_lt (lt_of_lt_of_le (by decide) (hplain b hb).1)
  have hescape : escape v = v := by
    refine (List.flatMap_congr fun b hb => if_neg ?_).trans (List.flatMap_singleton' v)
    rintro rfl
    exact hne (.inl (by decide)) hb
  have hzero : 0 ∉ v := hne (.inl (by decide))
  refine ⟨⟨hname, hzero⟩, ?_, fun b hb hs => ?_, fun b hb hs => ?_, ?_, fun hwithin => ?_⟩
  · rw [bodyOf_eq hname hzero, hescape, List.length_append, List.length_cons]
    exact lt_of_le_of_lt (by omega : name.length + (v.length + 1) ≤ 129) (by decide)
  · rw [hspace b (List.mem_of_mem_head? hb)] at hs
    cases hs
  · rw [hspace b (List.mem_of_getLast? hb)] at hs
    cases hs
  · rintro q (rfl | rfl) ⟨hhead, -⟩
    · exact hne (.inl (by decide)) (List.mem_of_mem_head? hhead)
    · exact hne (.inl (by decide)) (List.mem_of_mem_head? hhead)
  · exact hne (.inr rfl) (hwithin.subset List.mem_cons_self)

theorem fits_number {name : Bytes} (hname : ValidName name) (hlength : name.length ≤ 64) {n : Int} (h₀ : -0x8000000000000000 ≤ n)
    (h : n < 0x8000000000000000) : Fits (name, toString n) := by
  refine fits_plain hname hlength ?_ fun b hb => ⟨(by decide : (0x28 : UInt8) ≤ 0x2D).trans (mem_toString hb).1, ?_⟩
  · rw [toString, List.length_map]
    exact (length_number h₀ h).trans (by decide)
  · rintro rfl
    exact absurd (mem_toString hb).2 (by decide)

/-- All parameters are read back. -/
def Readable (ps : Parameters) : Prop := ∀ e ∈ ps.entries, Fits e

theorem Readable.insert {ps : Parameters} {e : Bytes × Bytes} (h : Readable ps) (he : Fits e) : Readable (ps.insert e.1 e.2) := by
  intro x hx
  rcases SortedMap.mem_insertIn hx with rfl | hx
  · exact he
  · exact h x hx

theorem Readable.insertAll {ps : Parameters} {l : List (Bytes × Bytes)} (h : Readable ps) (hl : ∀ e ∈ l, Fits e) : Readable (ps.insertAll l) := by
  induction l generalizing ps with
  | nil => exact h
  | cons e l ih =>
    obtain ⟨he, hrest⟩ := List.forall_mem_cons.mp hl
    exact ih (h.insert he) hrest

theorem Readable.read {ps : Parameters} (h : Readable ps) (filename : QString) (date time : Stamp) :
    actualReadConfigFile filename (some (actualWriteConfigFile date time ps)) ∅ = .ok (true, ps) := by
  have hwritable : ∀ e ∈ ps.entries, Writable e := fun e he => (h e he).writable
  have haccepted : ∀ e ∈ ps.entries, Accepted e := fun e he => accepted_of_short (hwritable e he) (not_not.mpr (h e he).short)
  have hread := read_written hwritable filename date time haccepted
  rw [hread, (readBack_of_accepted hwritable haccepted filename date time).mpr (fun e he => ⟨(h e he).short, (h e he).kept⟩) _ hread]

/-! ### What is saved -/

section Saved
variable {n : FlagName} {c : Call} {m : ConfigFile}

theorem keys_fields (n : FlagName) (c : Call) (hasDate : Bool) : (c.fields n hasDate).map (·.1) =
    [unitName, sectionName, nameName, sourceFileName, functionName, lineName, messageName, priorityName, manualDownName] ++
      (if hasDate then [] else [dateName]) ++ [modifiedName, tagsName, hostnameName, versionName] := by
  cases hasDate <;> rfl

theorem nodup_fields (n : FlagName) (c : Call) (hasDate : Bool) : ((c.fields n hasDate).map (·.1)).Nodup := by
  rw [keys_fields]
  cases hasDate <;> decide

theorem date_notMem_fields (n : FlagName) (c : Call) : dateName ∉ (c.fields n true).map (·.1) := by
  rw [keys_fields]
  decide

theorem count_notMem_fields (n : FlagName) (c : Call) (hasDate : Bool) : countName ∉ (c.fields n hasDate).map (·.1) := by
  rw [keys_fields]
  cases hasDate <;> decide

theorem forall_mem_of_all {p : UInt8 → Prop} [DecidablePred p] {l : Bytes} (h : (l.all fun b => p b) = true) : ∀ b ∈ l, p b :=
  fun b hb => of_decide_eq_true (List.all_eq_true.mp h b hb)

/-- Lower case letters and underscores. -/
theorem validName_of_letters {k : Bytes} (hne : k ≠ []) (h : (k.all fun b => 0x5F ≤ b ∧ b ≤ 0x7A) = true) : ValidName k where
  ne_nil := hne
  characters b hb := by
    obtain ⟨hle, hge⟩ := forall_mem_of_all h b hb
    refine ⟨lt_of_lt_of_le (by decide) hle, ?_, ?_, ?_, ?_⟩ <;> rintro rfl
    · exact absurd hge (by decide)
    · exact absurd hle (by decide)
    · exact absurd hle (by decide)
    · exact absurd hle (by decide)
  start b hb := by
    have hle := (forall_mem_of_all h b (List.mem_of_mem_head? hb)).1
    refine ⟨?_, ?_, ?_⟩ <;> rintro rfl <;> exact absurd hle (by decide)

theorem fits_numbers {k : Bytes} (hk : k ∈ [lineName, priorityName, dateName, modifiedName, countName]) {n : Int}
    (h₀ : -0x8000000000000000 ≤ n) (h : n < 0x8000000000000000) : Fits (k, toString n) := by
  have hletters : ∀ k ∈ [lineName, priorityName, dateName, modifiedName, countName],
      k ≠ [] ∧ (k.all fun b => 0x5F ≤ b ∧ b ≤ 0x7A) = true ∧ k.length ≤ 64 := by decide
  obtain ⟨hne, hrange, hlength⟩ := hletters k hk
  exact fits_number (validName_of_letters hne hrange) hlength h₀ h

theorem fits_int {k : Bytes} (hk : k ∈ [lineName, priorityName, dateName, modifiedName, countName]) (n : Int32) : Fits (k, toString n.toInt) := by
  have hle := n.le_toInt
  have hlt := n.toInt_lt
  exact fits_numbers hk (by omega) (by omega)

theorem fits_time {k : Bytes} (hk : k ∈ [lineName, priorityName, dateName, modifiedName, countName]) (n : Int64) : Fits (k, toString n.toInt) :=
  fits_numbers hk n.le_toInt n.toInt_lt

theorem fits_manualDown (b : Bool) : Fits (manualDownName, utf8 (if b then "yes".toList else "no".toList)) := by
  have hletters : manualDownName ≠ [] ∧ (manualDownName.all fun b => 0x5F ≤ b ∧ b ≤ 0x7A) = true ∧ manualDownName.length ≤ 64 := by
    decide
  refine fits_plain (validName_of_letters hletters.1 hletters.2.1) hletters.2.2 ?_ (forall_mem_of_all ?_) <;>
    cases b <;> decide

/-- The texts are read back, so all fields are. -/
theorem fits_fields (h : Texts n c) (hasDate : Bool) : ∀ e ∈ c.fields n hasDate, Fits e := by
  unfold Texts at h
  simp only [List.forall_mem_cons] at h
  obtain ⟨hunit, hsection, hname, hsource, hfunction, hmessage, htags, hhostname, hversion, -⟩ := h
  have hdate : ∀ e ∈ if hasDate then [] else [(dateName, toString c.now.toInt)], Fits e := by
    cases hasDate
    · exact List.forall_mem_singleton.mpr (fits_time (by simp) _)
    · exact nofun
  unfold Call.fields
  simp only [List.forall_mem_append, List.forall_mem_cons]
  exact ⟨⟨⟨hunit, hsection, hname, hsource, hfunction, fits_int (by simp) _, hmessage, fits_int (by simp) _, fits_manualDown _, nofun⟩, hdate⟩,
    fits_time (by simp) _, htags, hhostname, hversion, nofun⟩

/-- The fields are found behind the count. -/
theorem find?_field {hasDate : Bool} {k v : Bytes} (hk : (k, v) ∈ c.fields n hasDate) (ps : Parameters) (count : Bytes) :
    ((ps.insertAll (c.fields n hasDate)).insert countName count).find? k = some v := by
  have hne : k ≠ countName := by
    rintro rfl
    exact count_notMem_fields n c hasDate (List.mem_map_of_mem hk)
  rw [SortedMap.find?_insert_of_ne hne, SortedMap.find?_insertAll_of_mem (nodup_fields n c hasDate) hk]

theorem says_saved {hasDate : Bool} {ps : Parameters} {count : Nat} {date : Int64}
    (hdate : ((ps.insertAll (c.fields n hasDate)).insert countName (toString count)).find? dateName = some (toString date.toInt)) :
    Says { count, date, modified := c.now, message := c.flag.message, priority := c.flag.priority }
      ((ps.insertAll (c.fields n hasDate)).insert countName (toString count)) where
  count := SortedMap.find?_insert_self ..
  date := hdate
  modified := find?_field (by simp [Call.fields]) ..
  message := find?_field (by simp [Call.fields]) ..
  priority := find?_field (by simp [Call.fields]) ..

/-- What a process remembers of what happened. -/
def Remembers (m : ConfigFile) : Option Record → Prop
  | none => m.found = false
  | some r => m.found = true ∧ m.parameters.find? dateName = some (toString r.date.toInt) ∧
      m.parameters.find? countName = some (toString r.count) ∧ r.count + 1 < 0x8000000000000000

/-- The parameters that are saved say what happened. -/
theorem saved_says {r : Option Record} (hc : Texts n c) (hup : c.flag.state = .up) (hm : Readable m.parameters)
    (hr : Remembers m r) : ∃ r' ps, happened r c = some r' ∧ r'.count < 0x8000000000000000 ∧ saved n c m = (ps, true) ∧ Readable ps ∧ Says r' ps := by
  have hreadable : ∀ {hasDate : Bool} {count : Nat}, count < 0x8000000000000000 →
      Readable ((m.parameters.insertAll (c.fields n hasDate)).insert countName (toString count)) := fun hcount =>
    (hm.insertAll (fits_fields hc _)).insert (e := (countName, _)) (fits_numbers (by simp) (by omega) (by omega))
  unfold happened
  rw [hup]
  cases r with
  | none =>
    have hfound : m.found = false := hr
    have hone : ([0x31] : Bytes) = toString (1 : Nat) := by decide
    have hsaved : saved n c m = ((m.parameters.insertAll (c.fields n false)).insert countName (toString (1 : Nat)), true) := by
      unfold saved
      simp only [hfound, Bool.false_and, Bool.false_eq_true, if_false]
      rw [hone]
    exact ⟨_, _, rfl, (by decide : 1 < 0x8000000000000000), hsaved, hreadable (by decide), says_saved (find?_field (by simp [Call.fields]) ..)⟩
  | some r =>
    obtain ⟨hfound, hdate, hcount, hsmall⟩ := hr
    have hhasDate : m.parameters.contains dateName = true := by rw [SortedMap.contains, hdate]; rfl
    have hhasCount : m.parameters.contains countName = true := by rw [SortedMap.contains, hcount]; rfl
    have hsaved : saved n c m = ((m.parameters.insertAll (c.fields n true)).insert countName (toString (r.count + 1 : Nat)), true) := by
      unfold saved
      simp only [hfound, hhasDate, hhasCount, Bool.true_and, if_true, SortedMap.find?_insertAll_of_notMem (count_notMem_fields n c true),
        hcount, Option.getD_some, nextCount_toString hsmall]
      rfl
    have hne : dateName ≠ countName := by decide
    refine ⟨_, _, rfl, hsmall, hsaved, hreadable hsmall, says_saved ?_⟩
    rw [SortedMap.find?_insert_of_ne hne, SortedMap.find?_insertAll_of_notMem (date_notMem_fields n c), hdate]

end Saved

/-! ### Runs -/

section Run
variable {n : FlagName} {s : State} {c : Call} {r : Option Record} {calls : List Call}

/-- The file is one that has been written, and says what happened. -/
def Written (s : State) : Option Record → Prop
  | none => s.file = none
  | some r => r.count < 0x8000000000000000 ∧
      ∃ date time ps, s.file = some (actualWriteConfigFile date time ps) ∧ Readable ps ∧ Says r ps

structure Consistent (s : State) (r : Option Record) : Prop where
  file : Written s r
  remembered : ∀ p m, s.remembered p = some m → Readable m.parameters

theorem consistent_initial : Consistent {} none := ⟨rfl, nofun⟩

theorem parameters_written {date time : Stamp} {ps : Parameters} (hfile : s.file = some (actualWriteConfigFile date time ps))
    (hps : Readable ps) (n : FlagName) : s.parameters n = some ps := by
  rw [State.parameters, hfile, hps.read]

theorem Consistent.shows (h : Consistent s r) (n : FlagName) : Shows n s r := by
  cases r with
  | none => exact h.file
  | some r =>
    obtain ⟨-, date, time, ps, hfile, hps, hsaid⟩ := h.file
    exact ⟨ps, parameters_written hfile hps n, hsaid⟩

theorem remembers_of_says {m : ConfigFile} {r : Record} {ps : Parameters} (hsaid : Says r ps) (hcount : r.count < 0x8000000000000000)
    (hsmall : ps.find? countName ≠ some (toString 0x7FFFFFFFFFFFFFFF)) (hfound : m.found = true)
    (hdate : m.parameters.find? dateName = ps.find? dateName) (hm : m.parameters.find? countName = ps.find? countName) :
    Remembers m (some r) := by
  refine ⟨hfound, hdate.trans hsaid.date, hm.trans hsaid.count, ?_⟩
  have hne : r.count ≠ 0x7FFFFFFFFFFFFFFF := fun heq => hsmall (by rw [hsaid.count, heq]; rfl)
  omega

/-- A process that uses the file the first time reads it; another one remembers what it says. -/
theorem getConfiguration_current (h : Consistent s r) (hc : Current n s c) :
    ∃ m, getConfiguration n s c.process = (m, false) ∧ Readable m.parameters ∧ Remembers m r := by
  have hfile := h.file
  unfold getConfiguration
  cases hm : s.remembered c.process with
  | some m =>
    refine ⟨m, rfl, h.remembered _ m hm, ?_⟩
    have hfound := hc.found m hm
    cases r with
    | none =>
      rw [show s.file = none from hfile] at hfound
      exact hfound
    | some r =>
      obtain ⟨hcount, date, time, ps, hfile, hps, hsaid⟩ := hfile
      have hread := parameters_written hfile hps n
      rw [hfile] at hfound
      exact remembers_of_says hsaid hcount (hc.small ps hread) hfound (hc.date m hm ps hread) (hc.count m hm ps hread)
  | none =>
    cases r with
    | none =>
      rw [show s.file = none from hfile]
      exact ⟨{}, rfl, nofun, rfl⟩
    | some r =>
      obtain ⟨hcount, date, time, ps, hfile, hps, hsaid⟩ := hfile
      have hread := parameters_written hfile hps n
      rw [hfile, hps.read]
      exact ⟨_, rfl, hps, remembers_of_says hsaid hcount (hc.small ps hread) rfl rfl rfl⟩

theorem step_up {m : ConfigFile} {ps : Parameters} (hup : c.flag.state = .up) (hm : getConfiguration n s c.process = (m, false))
    (hsaved : saved n c m = (ps, true)) : step n s c =
      { file := some (actualWriteConfigFile c.second.1 c.second.2 ps)
        remembered := Function.update s.remembered c.process (some { m with parameters := ps }) } := by
  rw [step, save, hup]
  simp [hm, hsaved, State.remember]

theorem consistent_step (h : Consistent s r) (hc : c.flag.state = .up → Current n s c) : Consistent (step n s c) (happened r c) := by
  cases hstate : c.flag.state with
  | down =>
    have hstep : step n s c = { s with file := none } := by rw [step, save, hstate]
    have hnone : happened r c = none := by simp [happened, hstate]
    rw [hstep, hnone]
    exact ⟨rfl, h.remembered⟩
  | up =>
    obtain ⟨m, hm, hread, hremembers⟩ := getConfiguration_current h (hc hstate)
    obtain ⟨r', ps, hr', hcount, hsaved, hps, hsaid⟩ := saved_says (hc hstate).texts hstate hread hremembers
    rw [step_up hstate hm hsaved, hr']
    refine ⟨⟨hcount, _, _, ps, rfl, hps, hsaid⟩, fun p m' hp => ?_⟩
    change Function.update s.remembered c.process (some { m with parameters := ps }) p = some m' at hp
    rw [Function.update_apply] at hp
    split at hp
    · rw [← Option.some.inj hp]
      exact hps
    · exact h.remembered p m' hp

/-- In every run in which each process that raises the flag remembers what the file says, the file shows what happened. -/
theorem shows_happened (h : Along (step n) (fun s c => c.flag.state = .up → Current n s c) {} calls) :
    Shows n (after (step n) {} calls) (calls.foldl happened none) := by
  refine Consistent.shows (h.snoc_induction (motive := fun calls => Consistent (after (step n) {} calls) (calls.foldl happened none))
    consistent_initial fun calls c _ hc ih => ?_) n
  rw [after_snoc, List.foldl_append]
  exact consistent_step ih hc

end Run

def diskFull : FlagName where
  filename := "disk_space_full.flag".toList
  unit := utf8 "disk".toList
  section_ := utf8 "space".toList
  name := utf8 "full".toList

def raise (process : Nat) (state : FlagState) : Call where
  process
  flag := { state, message := utf8 "full".toList }
  now := 1000
  hostname := utf8 "web".toList
  version := utf8 "one".toList
  first := (midnight, midnight)
  second := (midnight, midnight)

theorem texts_raise (process : Nat) (state : FlagState) : Texts diskFull (raise process state) := by
  have hletters : ∀ k ∈ [unitName, sectionName, nameName, sourceFileName, functionName, messageName, tagsName, hostnameName, versionName],
      k ≠ [] ∧ (k.all fun b => 0x5F ≤ b ∧ b ≤ 0x7A) = true ∧ k.length ≤ 64 := by decide
  have hfits : ∀ k ∈ [unitName, sectionName, nameName, sourceFileName, functionName, messageName, tagsName, hostnameName, versionName],
      ∀ v : Bytes, (v.length ≤ 64 ∧ (v.all fun b => 0x28 ≤ b ∧ b ≠ 0x5C) = true) → Fits (k, v) := fun k hk v hv =>
    fits_plain (validName_of_letters (hletters k hk).1 (hletters k hk).2.1) (hletters k hk).2.2 hv.1 (forall_mem_of_all hv.2)
  have hempty : ([] : Bytes).length ≤ 64 ∧ (([] : Bytes).all fun b => 0x28 ≤ b ∧ b ≠ 0x5C) = true := ⟨Nat.zero_le _, rfl⟩
  simp only [List.forall_mem_cons] at hfits
  obtain ⟨hunit, hsection, hname, hsource, hfunction, hmessage, htags, hhostname, hversion, -⟩ := hfits
  unfold Texts
  simp only [List.forall_mem_cons]
  exact ⟨hunit _ (by decide), hsection _ (by decide), hname _ (by decide), hsource _ hempty, hfunction _ hempty,
    hmessage (utf8 "full".toList) (by decide), htags _ hempty, hhostname (utf8 "web".toList) (by decide),
    hversion (utf8 "one".toList) (by decide), nofun⟩

theorem current_new {n : FlagName} {s : State} {c : Call} (hfile : s.file = none) (hnew : s.remembered c.process = none) (htexts : Texts n c) :
    Current n s c where
  found m hm := by rw [hnew] at hm; cases hm
  date m hm := by rw [hnew] at hm; cases hm
  count m hm := by rw [hnew] at hm; cases hm
  texts := htexts
  small ps hps := by rw [State.parameters, hfile] at hps; cases hps

/-- A process raises a flag, takes it down, and another one raises it. -/
theorem shows_happened_raise : Shows diskFull (after (step diskFull) {} [raise 0 .up, raise 0 .down, raise 1 .up])
    ([raise 0 .up, raise 0 .down, raise 1 .up].foldl happened none) :=
  shows_happened ⟨fun _ => current_new rfl rfl (texts_raise 0 .up), nofun,
    fun _ => current_new rfl rfl (texts_raise 1 .up), trivial⟩

/-- A process raises a flag twice: the count is one. -/
theorem not_shows : ¬∀ (n : FlagName) (calls : List Call), Shows n (after (step n) {} calls) (calls.foldl happened none) := by
  intro hall
  obtain ⟨-, ps, -, -, hsaved, hps, -⟩ := saved_says (m := {}) (r := none) (texts_raise 0 .up) rfl nofun rfl
  obtain ⟨r, ps', hr, -, hsaved', hps', hsaid⟩ := saved_says (m := { parameters := ps }) (r := none) (texts_raise 0 .up) rfl hps rfl
  obtain ⟨ps'', hread, hsaid'⟩ := hall diskFull [raise 0 .up, raise 0 .up]
  have hfirst := step_up (s := {}) (c := raise 0 .up) rfl rfl hsaved
  have hsecond := step_up (s := step diskFull {} (raise 0 .up)) (c := raise 0 .up) rfl (by rw [hfirst]; rfl) hsaved'
  rw [after_cons, after_cons, after_nil, parameters_written (by rw [hsecond]) hps'] at hread
  obtain rfl := Option.some.inj hread
  obtain rfl := Option.some.inj hr
  have hcount := hsaid.count.symm.trans hsaid'.count
  revert hcount
  decide

end SnapFlag
end Snapwebsites
