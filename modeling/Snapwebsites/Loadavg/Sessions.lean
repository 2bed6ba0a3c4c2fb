import Snapwebsites.Loadavg.LoadavgFile

/-! # Sessions with the load average file

Processes that load the file in a new object, change the list and save it, one after the other. A session that
saves fewer items than it has loaded leaves the others behind its own in the file, and the next `load()` takes
them for current ones; without such a session every file holds exactly the list that was saved last
(`sessions_exact_iff`). -/

namespace Snapwebsites
namespace Loadavg
open Trace

/-- What a process does to its list. -/
inductive Change
  | add (item : LoadavgItem)
  | removeOldEntries (time howOld : Int)

/-- The file and the list of the last `save()`. -/
structure Site where
  file : Option Bytes := none
  saved : List LoadavgItem := []

variable (same : SockaddrIn6 → SockaddrIn6 → Bool) (less : UInt32 → UInt32 → Bool)

def change (items : List LoadavgItem) : Change → List LoadavgItem
  | .add item => add same item items
  | .removeOldEntries time howOld => removeOldEntries time howOld items

/-- The list of a process when it saves. -/
def changed (s : Site) (changes : List Change) : List LoadavgItem := changes.foldl (change same) (load s.file).2

def session (s : Site) (changes : List Change) : Site :=
  { file := some (save s.file (changed same s changes)), saved := changed same s changes }

/-- A `load()` in a new object gives what was saved last: each address once, and the least busy computer is one of these. -/
structure Exact (s : Site) : Prop where
  load : (load s.file).2 = s.saved
  distinct : Distinct same (Loadavg.load s.file).2
  leastBusy : ∀ item, findLeastBusy less (Loadavg.load s.file).2 = some item → item ∈ s.saved

/-- The session does not save fewer items than the file holds. -/
def NoShorter (s : Site) (changes : List Change) : Prop := (load s.file).2.length ≤ (changed same s changes).length

/-- The file is as the last session has left it, which has not left anything else in it. -/
structure Sound (s : Site) : Prop where
  holds : Holds s.file s.saved
  distinct : Distinct same s.saved

variable {same} {less} {s : Site} {changes : List Change}

theorem Sound.exact (h : Sound same s) : Exact same less s where
  load := load_holds h.holds
  distinct := by
    rw [load_holds h.holds]
    exact h.distinct
  leastBusy item hitem := by
    rw [load_holds h.holds] at hitem
    exact mem_of_findLeastBusy less hitem

theorem Distinct.foldl_change {items : List LoadavgItem} (h : Distinct same items) (l : List Change) :
    Distinct same (l.foldl (change same) items) := by
  induction l generalizing items with
  | nil => exact h
  | cons c l ih =>
    refine ih ?_
    cases c with
    | add item => exact h.add
    | removeOldEntries time howOld => exact h.removeOldEntries time howOld

theorem session_holds (h : Sound same s) (changes : List Change) :
    Holds (session same s changes).file (changed same s changes ++ s.saved.drop (changed same s changes).length) :=
  save_holds h.holds _

theorem Sound.session (h : Sound same s) (hlength : NoShorter same s changes) : Sound same (session same s changes) where
  holds := by
    have hholds := session_holds h changes
    rw [NoShorter, load_holds h.holds] at hlength
    rwa [List.drop_of_length_le hlength, List.append_nil] at hholds
  distinct := by
    have hdistinct := h.distinct
    rw [← load_holds h.holds] at hdistinct
    exact hdistinct.foldl_change changes

/-- One session: what it leaves is exact when it does not leave older items. -/
theorem exact_session_iff (h : Sound same s) : Exact same less (session same s changes) ↔ NoShorter same s changes := by
  refine ⟨fun hexact => ?_, fun hlength => (h.session hlength).exact⟩
  have hload := hexact.load
  rw [load_holds (session_holds h changes)] at hload
  have hdrop : s.saved.drop (changed same s changes).length = [] := List.append_right_eq_self.mp hload
  rw [NoShorter, load_holds h.holds]
  exact List.drop_eq_nil_iff.mp hdrop

theorem exact_iff_of_sound : ∀ {sessions : List (List Change)} {s : Site}, Sound same s →
    ((∀ pre post, sessions = pre ++ post → Exact same less (after (session same) s pre)) ↔
      Along (session same) (NoShorter same) s sessions)
  | [], s, h => by
    refine ⟨fun _ => trivial, fun _ pre post heq => ?_⟩
    rw [(List.append_eq_nil_iff.mp heq.symm).1]
    exact h.exact
  | changes :: sessions, s, h => by
    constructor
    · intro hall
      have hlength := (exact_session_iff h).mp (hall [changes] sessions rfl)
      refine ⟨hlength, (exact_iff_of_sound (h.session hlength)).mp fun pre post heq => ?_⟩
      exact hall (changes :: pre) post (by rw [heq, List.cons_append])
    · rintro ⟨hlength, hrest⟩ pre post heq
      rcases List.cons_eq_append_iff.mp heq with ⟨rfl, -⟩ | ⟨pre', rfl, hpre⟩
      · exact h.exact
      · exact (exact_iff_of_sound (h.session hlength)).mpr hrest pre' post hpre

theorem sound_empty : Sound same {} := ⟨.inl ⟨rfl, rfl⟩, List.Pairwise.nil⟩

/-- In every run of sessions from no file, all states are exact just when no session saves fewer items than it has loaded. -/
theorem sessions_exact_iff (same : SockaddrIn6 → SockaddrIn6 → Bool) (less : UInt32 → UInt32 → Bool) (sessions : List (List Change)) :
    (∀ pre post, sessions = pre ++ post → Exact same less (after (session same) {} pre)) ↔
      Along (session same) (NoShorter same) {} sessions :=
  exact_iff_of_sound sound_empty

def sameAddress (a b : SockaddrIn6) : Bool := decide (∀ i, a i = b i)

/-- One process adds a computer and the next one, 100 seconds later, removes it: the file still has it. -/
theorem removed_entry_stays : ¬ Exact sameAddress (fun a b => decide (a < b))
    (after (session sameAddress) {} [[.add { timestamp := 1500000000 }], [.removeOldEntries 1500000100 10]]) := by
  have hadd : Sound sameAddress (session sameAddress {} [.add { timestamp := 1500000000 }]) := sound_empty.session (Nat.zero_le 1)
  have hload := load_holds hadd.holds
  intro h
  have hlength := (exact_session_iff hadd).mp h
  rw [NoShorter, changed, hload] at hlength
  exact absurd hlength (by decide)

end Loadavg
end Snapwebsites
