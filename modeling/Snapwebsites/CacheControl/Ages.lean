import Mathlib.Order.Bounds.Basic
import Snapwebsites.Lib.Trace
import Snapwebsites.SnapUri.Codec

/-! # Cache ages

The two ages of `cache_control_settings`, `max-age` and `s-maxage`, in seconds, or `IGNORE_VALUE` when the
parameter is not used. The sentinel is a negative number among the ages: `minimum` knows `-1` only, so a
smaller argument of an update becomes the age (`update_leaks`), and a text of more than ten digits is taken
for an error (`secondsFrom_long`). Runs without such calls are safe, and only these (`ages_safe_iff`). -/

namespace Snapwebsites
open QString Trace

namespace CacheControl

/-- One year. -/
def AGE_MAXIMUM : Int := 365 * 24 * 60 * 60

def IGNORE_VALUE : Int := -1

/-- The ages of `cache_control_settings`. -/
structure CacheControlSettings where
  maxAge : Int := 0
  sMaxage : Int := IGNORE_VALUE
  deriving DecidableEq, Repr

/-! ### Texts and the minimum -/

/-- The loop of `string_to_seconds`, behind `n` digits; `'\0'` ends the bytes. A byte from `0x80` on is
    negative as a `char`, hence below `'0'`. -/
def secondsFrom : Nat → Int → Bytes → Int
  | _, result, [] => if AGE_MAXIMUM < result then AGE_MAXIMUM else result
  | n, result, b :: s =>
    if b = 0 then (if AGE_MAXIMUM < result then AGE_MAXIMUM else result)
    else if b < 48 || 57 < b || 9 < n then IGNORE_VALUE
    else secondsFrom (n + 1) (result * 10 + (b.toNat - 48)) s

def stringToSeconds (maxAge : QString) : Int :=
  if maxAge.isEmpty then IGNORE_VALUE else secondsFrom 0 0 maxAge.utf8

def minimum (a b : Int) : Int :=
  if a = IGNORE_VALUE then b else if b = IGNORE_VALUE then a else min a b

/-! ### The setters -/

namespace CacheControlSettings

def setMaxAge (c : CacheControlSettings) (maxAge : Int) : CacheControlSettings :=
  if AGE_MAXIMUM ≤ maxAge then { c with maxAge := AGE_MAXIMUM }
  else if maxAge < 0 then { c with maxAge := IGNORE_VALUE }
  else { c with maxAge := maxAge }

def setMaxAgeText (c : CacheControlSettings) (maxAge : QString) : CacheControlSettings :=
  { c with maxAge := stringToSeconds maxAge }

def updateMaxAge (c : CacheControlSettings) (maxAge : Int) : CacheControlSettings :=
  let maxAge := if AGE_MAXIMUM < maxAge then AGE_MAXIMUM else maxAge
  { c with maxAge := minimum c.maxAge maxAge }

def setSMaxage (c : CacheControlSettings) (sMaxage : Int) : CacheControlSettings :=
  if AGE_MAXIMUM ≤ sMaxage then { c with sMaxage := AGE_MAXIMUM }
  else if sMaxage < 0 then { c with sMaxage := IGNORE_VALUE }
  else { c with sMaxage := sMaxage }

def setSMaxageText (c : CacheControlSettings) (sMaxage : QString) : CacheControlSettings :=
  { c with sMaxage := stringToSeconds sMaxage }

def updateSMaxage (c : CacheControlSettings) (sMaxage : Int) : CacheControlSettings :=
  let sMaxage := if AGE_MAXIMUM ≤ sMaxage then AGE_MAXIMUM else sMaxage
  { c with sMaxage := minimum c.sMaxage sMaxage }

end CacheControlSettings

/-! ### Calls -/

inductive Age
  | maxAge
  | sMaxage
  deriving DecidableEq, Repr

/-- A call that changes one of the ages. -/
inductive Call
  | set (a : Age) (n : Int)
  | setText (a : Age) (q : QString)
  | update (a : Age) (n : Int)

def Call.age : Call → Age
  | set a _ => a
  | setText a _ => a
  | update a _ => a

def CacheControlSettings.get (c : CacheControlSettings) : Age → Int
  | .maxAge => c.maxAge
  | .sMaxage => c.sMaxage

def call (c : CacheControlSettings) : Call → CacheControlSettings
  | .set .maxAge n => c.setMaxAge n
  | .set .sMaxage n => c.setSMaxage n
  | .setText .maxAge q => c.setMaxAgeText q
  | .setText .sMaxage q => c.setSMaxageText q
  | .update .maxAge n => c.updateMaxAge n
  | .update .sMaxage n => c.updateSMaxage n

/-- What is stored of a number that is set. -/
def limited (n : Int) : Int := if AGE_MAXIMUM ≤ n then AGE_MAXIMUM else if n < 0 then IGNORE_VALUE else n

/-- The age that a call leaves behind, from the one it finds. -/
def Call.result (old : Int) : Call → Int
  | set _ n => limited n
  | setText _ q => stringToSeconds q
  | update _ n => minimum old (min n AGE_MAXIMUM)

/-! ### What each setter stores -/

section Setters
variable (c : CacheControlSettings) (n : Int)

theorem min_eq_if_lt : min n AGE_MAXIMUM = if AGE_MAXIMUM < n then AGE_MAXIMUM else n := by
  rcases lt_or_ge AGE_MAXIMUM n with h | h
  · rw [if_pos h, min_eq_right h.le]
  · rw [if_neg (not_lt.mpr h), min_eq_left h]

theorem min_eq_if_le : min n AGE_MAXIMUM = if AGE_MAXIMUM ≤ n then AGE_MAXIMUM else n := by
  rcases le_or_gt AGE_MAXIMUM n with h | h
  · rw [if_pos h, min_eq_right h]
  · rw [if_neg (not_le.mpr h), min_eq_left h.le]

theorem setMaxAge_eq : c.setMaxAge n = { c with maxAge := limited n } := by
  unfold CacheControlSettings.setMaxAge limited
  split_ifs <;> rfl

theorem setSMaxage_eq : c.setSMaxage n = { c with sMaxage := limited n } := by
  unfold CacheControlSettings.setSMaxage limited
  split_ifs <;> rfl

theorem updateMaxAge_eq : c.updateMaxAge n = { c with maxAge := minimum c.maxAge (min n AGE_MAXIMUM) } := by
  rw [min_eq_if_lt]
  rfl

/-- `update_s_maxage` compares with `>=`, which gives the same. -/
theorem updateSMaxage_eq : c.updateSMaxage n = { c with sMaxage := minimum c.sMaxage (min n AGE_MAXIMUM) } := by
  rw [min_eq_if_le]
  rfl

/-- A call changes its own age and no other. -/
theorem get_call (e : Call) (a : Age) : (call c e).get a = if a = e.age then e.result (c.get a) else c.get a := by
  rcases e with ⟨_ | _, n⟩ | ⟨_ | _, q⟩ | ⟨_ | _, n⟩
  · rw [call, setMaxAge_eq]
    cases a <;> rfl
  · rw [call, setSMaxage_eq]
    cases a <;> rfl
  · cases a <;> rfl
  · cases a <;> rfl
  · rw [call, updateMaxAge_eq]
    cases a <;> rfl
  · rw [call, updateSMaxage_eq]
    cases a <;> rfl

theorem get_call_self {e : Call} {a : Age} (h : e.age = a) : (call c e).get a = e.result (c.get a) := by
  rw [get_call, if_pos h.symm]

end Setters

/-! ### Ages in range -/

def AgeInRange (n : Int) : Prop := n = IGNORE_VALUE ∨ 0 ≤ n ∧ n ≤ AGE_MAXIMUM

def CacheControlSettings.InRange (c : CacheControlSettings) : Prop := ∀ a, AgeInRange (c.get a)

theorem ageInRange_limit {n : Int} (h : 0 ≤ n) : AgeInRange (min n AGE_MAXIMUM) :=
  .inr ⟨le_min h (by decide), min_le_right _ _⟩

/-- A text gives an age in range, whatever it says. -/
theorem secondsFrom_inRange : ∀ (s : Bytes) (n : Nat) {result : Int}, 0 ≤ result → AgeInRange (secondsFrom n result s)
  | [], n, result, h => by
    rw [secondsFrom, ← min_eq_if_lt]
    exact ageInRange_limit h
  | b :: s, n, result, h => by
    rw [secondsFrom, ← min_eq_if_lt]
    split_ifs with h0 hbad
    · exact ageInRange_limit h
    · exact .inl rfl
    · simp only [Bool.or_eq_true, decide_eq_true_eq, not_or, UInt8.not_lt, UInt8.le_iff_toNat_le] at hbad
      have hb : 48 ≤ b.toNat := hbad.1.1
      exact secondsFrom_inRange s (n + 1) (by omega)

theorem stringToSeconds_inRange (q : QString) : AgeInRange (stringToSeconds q) := by
  unfold stringToSeconds
  split_ifs
  · exact .inl rfl
  · exact secondsFrom_inRange _ 0 (Int.le_refl 0)

/-! ### Texts of digits -/

theorem toNat_digit {c : Char} (h : c.isDigit = true) : 48 ≤ c.toNat ∧ c.toNat ≤ 57 := by
  simp only [Char.isDigit, Bool.and_eq_true, decide_eq_true_eq] at h
  exact h

/-- One digit: at most ten are taken. -/
theorem secondsFrom_digit {c : Char} (hc : c.isDigit = true) (n : Nat) (result : Int) (s : Bytes) :
    secondsFrom n result (UInt8.ofNat c.toNat :: s) =
      if 9 < n then IGNORE_VALUE else secondsFrom (n + 1) (result * 10 + (c.toNat - 48)) s := by
  obtain ⟨hlo, hhi⟩ := toNat_digit hc
  have hb : (UInt8.ofNat c.toNat).toNat = c.toNat := UInt8.toNat_ofNat_of_lt' (Nat.lt_of_le_of_lt hhi (by decide))
  have h0 : UInt8.ofNat c.toNat ≠ 0 := fun h => by
    rw [h] at hb
    exact absurd (hb ▸ hlo) (by decide)
  have hlow : ¬ UInt8.ofNat c.toNat < 48 := by
    rw [UInt8.lt_iff_toNat_lt, hb]
    exact Nat.not_lt.mpr hlo
  have hhigh : ¬ 57 < UInt8.ofNat c.toNat := by
    rw [UInt8.lt_iff_toNat_lt, hb]
    exact Nat.not_lt.mpr hhi
  rw [secondsFrom, if_neg h0, hb]
  simp only [hlow, hhigh, decide_false, Bool.false_or, decide_eq_true_eq]

theorem secondsFrom_digits : ∀ {q : QString}, (∀ c ∈ q, c.isDigit = true) → ∀ {n : Nat}, n + q.length ≤ 10 → ∀ result : Nat,
    secondsFrom n result (q.map fun c => UInt8.ofNat c.toNat) = min (Nat.ofDigitChars 10 q result : Int) AGE_MAXIMUM
  | [], _, n, _, result => by
    rw [List.map_nil, secondsFrom, ← min_eq_if_lt, Nat.ofDigitChars_nil]
  | c :: q, hq, n, hn, result => by
    rw [List.forall_mem_cons] at hq
    rw [List.length_cons] at hn
    obtain ⟨hlo, -⟩ := toNat_digit hq.1
    have hresult : (result : Int) * 10 + (c.toNat - 48) = (10 * result + (c.toNat - 48) : Nat) := by omega
    rw [List.map_cons, secondsFrom_digit hq.1, if_neg (by omega), hresult, secondsFrom_digits hq.2 (by omega),
      Nat.ofDigitChars_cons]
    rfl

/-- The eleventh digit is refused. -/
theorem secondsFrom_long : ∀ {q : QString}, (∀ c ∈ q, c.isDigit = true) → ∀ {n : Nat}, n ≤ 10 → 10 < n + q.length → ∀ result : Int,
    secondsFrom n result (q.map fun c => UInt8.ofNat c.toNat) = IGNORE_VALUE
  | [], _, n, hn, hlong, _ => absurd hlong (Nat.not_lt.mpr hn)
  | c :: q, hq, n, hn, hlong, result => by
    rw [List.forall_mem_cons] at hq
    rw [List.length_cons] at hlong
    rw [List.map_cons, secondsFrom_digit hq.1]
    split_ifs with h
    · rfl
    · exact secondsFrom_long hq.2 (by omega) (by omega) _

/-- What is read of a text of digits. -/
theorem stringToSeconds_digits {q : QString} {n : Nat} (h : digits q = some n) :
    stringToSeconds q = if q.length ≤ 10 then min (n : Int) AGE_MAXIMUM else IGNORE_VALUE := by
  unfold digits at h
  obtain ⟨⟨hne, hall⟩, hn⟩ := Option.ite_none_right_eq_some.mp h
  have hdigit : ∀ c ∈ q, c.isDigit = true := List.all_eq_true.mp hall
  have hutf8 : q.utf8 = q.map fun c => UInt8.ofNat c.toNat :=
    utf8_ascii fun c hc => Nat.lt_of_le_of_lt (toNat_digit (hdigit c hc)).2 (by decide)
  rw [stringToSeconds, if_neg (by simpa using hne), hutf8]
  split_ifs with hlen
  · rw [← Option.some.inj hn]
    exact secondsFrom_digits hdigit (by omega) 0
  · exact secondsFrom_long hdigit (Nat.zero_le _) (by omega) 0

/-! ### The youngest age -/

/-- The ages that count: those that are not negative, one year at most. -/
def candidates (start : Int) (args : List Int) : Set Int := {y | ∃ x ∈ start :: args, 0 ≤ x ∧ y = min x AGE_MAXIMUM}

/-- The least of the ages that count, or no age when there is none. The order of the arguments is of no account. -/
def Youngest (start : Int) (args : List Int) (result : Int) : Prop :=
  candidates start args = ∅ ∧ result = IGNORE_VALUE ∨ IsLeast (candidates start args) result

theorem youngest_nil {start : Int} (h : AgeInRange start) : Youngest start [] start := by
  rcases h with rfl | ⟨h0, hmax⟩
  · refine .inl ⟨Set.eq_empty_of_forall_notMem ?_, rfl⟩
    rintro y ⟨x, hx, hx0, -⟩
    rw [List.mem_singleton.mp hx] at hx0
    exact absurd hx0 (by decide)
  · refine .inr ⟨⟨start, List.mem_singleton_self start, h0, (min_eq_left hmax).symm⟩, ?_⟩
    rintro y ⟨x, hx, -, rfl⟩
    rw [List.mem_singleton.mp hx, min_eq_left hmax]

theorem candidates_ignored (start : Int) (args : List Int) : candidates start (args ++ [IGNORE_VALUE]) = candidates start args := by
  ext y
  constructor
  · rintro ⟨x, hx, hx0, rfl⟩
    rw [← List.cons_append, List.mem_append, List.mem_singleton] at hx
    rcases hx with hx | rfl
    · exact ⟨x, hx, hx0, rfl⟩
    · exact absurd hx0 (by decide)
  · rintro ⟨x, hx, hx0, rfl⟩
    exact ⟨x, List.mem_append_left [IGNORE_VALUE] hx, hx0, rfl⟩

theorem candidates_concat (start : Int) (args : List Int) {n : Int} (h : 0 ≤ n) :
    candidates start (args ++ [n]) = insert (min n AGE_MAXIMUM) (candidates start args) := by
  ext y
  constructor
  · rintro ⟨x, hx, hx0, rfl⟩
    rw [← List.cons_append, List.mem_append, List.mem_singleton] at hx
    rcases hx with hx | rfl
    · exact .inr ⟨x, hx, hx0, rfl⟩
    · exact .inl rfl
  · rintro (rfl | ⟨x, hx, hx0, rfl⟩)
    · exact ⟨n, by simp, h, rfl⟩
    · exact ⟨x, List.mem_append_left [n] hx, hx0, rfl⟩

theorem minimum_ignored (old : Int) : minimum old (min IGNORE_VALUE AGE_MAXIMUM) = old := by
  unfold minimum
  split_ifs with h1 h2
  · exact h1.symm
  · rfl
  · exact absurd rfl h2

theorem minimum_of_nonneg {a b : Int} (ha : 0 ≤ a) (hb : 0 ≤ b) : minimum a b = min a b := by
  have hne : ∀ {n : Int}, 0 ≤ n → n ≠ IGNORE_VALUE := by
    rintro n hn rfl
    exact absurd hn (by decide)
  rw [minimum, if_neg (hne ha), if_neg (hne hb)]

theorem nonneg_of_candidate {start : Int} {args : List Int} {y : Int} (h : y ∈ candidates start args) : 0 ≤ y := by
  obtain ⟨x, -, hx0, rfl⟩ := h
  exact le_min hx0 (by decide)

/-- One more update. -/
theorem Youngest.concat {start : Int} {args : List Int} {old : Int} (h : Youngest start args old) {n : Int} (hn : IGNORE_VALUE ≤ n) :
    Youngest start (args ++ [n]) (minimum old (min n AGE_MAXIMUM)) := by
  unfold Youngest
  rcases hn.eq_or_lt with rfl | h0
  · rwa [candidates_ignored, minimum_ignored]
  · have hlimit : 0 ≤ min n AGE_MAXIMUM := le_min h0 (by decide)
    rw [candidates_concat start args h0]
    rcases h with ⟨hempty, rfl⟩ | hleast
    · rw [hempty, minimum, if_pos rfl, insert_empty_eq]
      exact .inr isLeast_singleton
    · rw [minimum_of_nonneg (nonneg_of_candidate hleast.1) hlimit, min_comm old]
      exact .inr (hleast.insert _)

/-! ### Runs -/

def Call.IsUpdate : Call → Prop
  | update _ _ => True
  | _ => False

def Call.offer (a : Age) : Call → Option Int
  | update b n => if b = a then some n else none
  | _ => none

/-- What the updates of a run offer to an age. -/
def offered (a : Age) (run : List Call) : List Int := run.filterMap (Call.offer a)

/-- What is said of the ages along a run of calls. -/
structure Safe (c : CacheControlSettings) (calls : List Call) : Prop where
  inRange : ∀ pre post, calls = pre ++ post → (after call c pre).InRange
  youngest : ∀ pre run post, calls = pre ++ run ++ post → (∀ e ∈ run, e.IsUpdate) → ∀ a,
    Youngest ((after call c pre).get a) (offered a run) ((after call c (pre ++ run)).get a)
  text : ∀ pre a q post n, calls = pre ++ Call.setText a q :: post → digits q = some n →
    (after call c (pre ++ [Call.setText a q])).get a = min (n : Int) AGE_MAXIMUM

/-- A call that the sentinel and the limit of ten digits do not disturb. -/
def Call.Kept : Call → Prop
  | set _ _ => True
  | setText _ q => ∀ n, digits q = some n → q.length ≤ 10
  | update _ n => IGNORE_VALUE ≤ n

theorem result_inRange {e : Call} (he : e.Kept) {old : Int} (h : AgeInRange old) : AgeInRange (e.result old) := by
  cases e with
  | set a n =>
    rw [Call.result, limited]
    split_ifs with hmax hneg
    · exact .inr ⟨by decide, Int.le_refl _⟩
    · exact .inl rfl
    · exact .inr ⟨not_lt.mp hneg, (not_le.mp hmax).le⟩
  | setText a q => exact stringToSeconds_inRange q
  | update a n =>
    rcases (youngest_nil h).concat he with ⟨-, hr⟩ | ⟨⟨x, -, hx0, hx⟩, -⟩
    · exact .inl hr
    · rw [Call.result, hx]
      exact ageInRange_limit hx0

theorem call_inRange {c : CacheControlSettings} (hc : c.InRange) {e : Call} (he : e.Kept) : (call c e).InRange := fun a => by
  rw [get_call]
  split_ifs
  · exact result_inRange he (hc a)
  · exact hc a

theorem after_inRange {c : CacheControlSettings} (hc : c.InRange) : ∀ {calls : List Call}, (∀ e ∈ calls, e.Kept) →
    (after call c calls).InRange
  | [], _ => hc
  | e :: calls, h => by
    rw [List.forall_mem_cons] at h
    exact after_inRange (call_inRange hc h.1) h.2

/-- A run of updates leaves the youngest age. -/
theorem after_youngest {c : CacheControlSettings} (hc : c.InRange) {run : List Call} (hupdate : ∀ e ∈ run, e.IsUpdate)
    (hkept : ∀ e ∈ run, e.Kept) (a : Age) : Youngest (c.get a) (offered a run) ((after call c run).get a) := by
  induction run using List.reverseRecOn with
  | nil => exact youngest_nil (hc a)
  | append_singleton run e ih =>
    rw [List.forall_mem_append, List.forall_mem_singleton] at hupdate hkept
    have hrun := ih hupdate.1 hkept.1
    rw [after_snoc, get_call, offered, List.filterMap_append]
    cases e with
    | set b n => exact absurd hupdate.2 id
    | setText b q => exact absurd hupdate.2 id
    | update b n =>
      by_cases hb : b = a
      · have hoffer : (Call.update b n).offer a = some n := if_pos hb
        rw [if_pos (show a = Call.age (.update b n) from hb.symm), List.filterMap_cons_some hoffer]
        exact hrun.concat hkept.2
      · have hoffer : (Call.update b n).offer a = none := if_neg hb
        rw [if_neg (show a ≠ Call.age (.update b n) from Ne.symm hb), List.filterMap_cons_none hoffer, List.filterMap_nil,
          List.append_nil]
        exact hrun

/-- A smaller argument than the sentinel becomes the age. -/
theorem update_leaks {old n : Int} (h : AgeInRange old) (hn : n < IGNORE_VALUE) : minimum old (min n AGE_MAXIMUM) = n := by
  have hmax : n < AGE_MAXIMUM := hn.trans (by decide)
  rw [min_eq_left hmax.le, minimum]
  split_ifs with h1 h2
  · rfl
  · exact absurd h2 hn.ne
  · rcases h with rfl | ⟨h0, -⟩
    · exact absurd rfl h1
    · exact min_eq_right ((hn.trans (by decide : IGNORE_VALUE < 0)).le.trans h0)

/-- The first call of a safe run is not disturbed. -/
theorem Safe.head {c : CacheControlSettings} (hc : c.InRange) {e : Call} {calls : List Call} (h : Safe c (e :: calls)) : e.Kept := by
  cases e with
  | set a n => trivial
  | setText a q =>
    intro n hn
    have htext := h.text [] a q calls n rfl hn
    rw [List.nil_append, after_cons, after_nil, get_call_self (a := a) c (e := .setText a q) rfl, Call.result, stringToSeconds_digits hn] at htext
    by_contra hlong
    rw [if_neg hlong] at htext
    have h0 : (0 : Int) ≤ min (n : Int) AGE_MAXIMUM := le_min (Int.natCast_nonneg n) (by decide)
    rw [← htext] at h0
    exact absurd h0 (by decide)
  | update a n =>
    refine not_lt.mp fun hn => ?_
    have hrange := h.inRange [.update a n] calls rfl a
    rw [after_cons, after_nil, get_call_self (a := a) c (e := .update a n) rfl, Call.result, update_leaks (hc _) hn] at hrange
    rcases hrange with rfl | ⟨h0, -⟩
    · exact absurd hn (lt_irrefl _)
    · exact absurd (h0.trans hn.le) (by decide)

theorem Safe.tail {c : CacheControlSettings} {e : Call} {calls : List Call} (h : Safe c (e :: calls)) : Safe (call c e) calls where
  inRange pre post heq := h.inRange (e :: pre) post (by rw [heq, List.cons_append])
  youngest pre run post heq := h.youngest (e :: pre) run post (by rw [heq, List.cons_append, List.cons_append])
  text pre a q post n heq := h.text (e :: pre) a q post n (by rw [heq, List.cons_append])

theorem kept_of_safe : ∀ {calls : List Call} {c : CacheControlSettings}, c.InRange → Safe c calls → ∀ e ∈ calls, e.Kept
  | [], _, _, _ => List.forall_mem_nil _
  | e :: calls, c, hc, h => by
    have he := h.head hc
    exact List.forall_mem_cons.mpr ⟨he, kept_of_safe (call_inRange hc he) h.tail⟩

/-- The ages of a run combine safely just when no update goes below the sentinel and no text of digits is longer than ten. -/
theorem ages_safe_iff {c : CacheControlSettings} (hc : c.InRange) (calls : List Call) : Safe c calls ↔ ∀ e ∈ calls, e.Kept := by
  refine ⟨kept_of_safe hc, fun h => ⟨?_, ?_, ?_⟩⟩
  · rintro pre post rfl
    exact after_inRange hc (List.forall_mem_append.mp h).1
  · rintro pre run post rfl hupdate a
    obtain ⟨⟨hpre, hrun⟩, -⟩ := List.forall_mem_append.mp h |>.imp_left List.forall_mem_append.mp
    rw [after_append]
    exact after_youngest (after_inRange hc hpre) hupdate hrun a
  · rintro pre a q post n rfl hn
    have hq : q.length ≤ 10 := (List.forall_mem_cons.mp (List.forall_mem_append.mp h).2).1 n hn
    rw [after_snoc, get_call_self (a := a) _ (e := .setText a q) rfl, Call.result, stringToSeconds_digits hn, if_pos hq]

theorem ages_safe_iff_default : Safe {} [.update .maxAge 60] ↔ ∀ e ∈ [Call.update .maxAge 60], e.Kept :=
  ages_safe_iff (by rintro (_ | _); exacts [.inr (by decide), .inl rfl]) _

/-- A settings object that is told to update its `max-age` with `-5`: the age is `-5` then. -/
theorem update_negative : ¬ Safe {} [.update .maxAge (-5)] := fun h => by
  have hrange := h.inRange [.update .maxAge (-5)] [] rfl .maxAge
  rcases hrange with h | ⟨h, -⟩
  · exact absurd h (by decide)
  · exact absurd h (by decide)

end CacheControl
end Snapwebsites
