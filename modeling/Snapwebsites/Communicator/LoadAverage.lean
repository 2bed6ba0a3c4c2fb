import Snapwebsites.Lib.Trace
import Mathlib.Data.List.Basic

/-! # The load average timer

`REGISTERFORLOADAVG` and `UNREGISTERFORLOADAVG`. The list of `f_communicator` holds connections of all kinds, the timer
itself as well, and only those to services and to other daemons are base connections. The search for a connection that wants
`LOADAVG` casts each of them and does not test the pointer that it gets. -/

namespace Snapwebsites

/-- A connection of the list. Only a base connection has `f_wants_loadavg`. -/
inductive LoadConnection
  | interrupt | localListener | listener | ping | loadavgTimer | gossip
  | remote (wantsLoadavg : Bool)
  | service (wantsLoadavg : Bool)
  deriving DecidableEq

namespace LoadConnection

/-- `wants_loadavg()` of the base connection that the cast gives; `none` is a null pointer. -/
def wantsLoadavg : LoadConnection → Option Bool
  | .remote wants | .service wants => some wants
  | _ => none

def setWantsLoadavg (wants : Bool) : LoadConnection → LoadConnection
  | .remote _ => .remote wants
  | .service _ => .service wants
  | c => c

/-- Whether `std::find_if()` gets to the end of the list; `none` when it dereferences a null pointer. -/
def noneWants : List LoadConnection → Option Bool
  | [] => some true
  | c :: l => do
    let wants ← c.wantsLoadavg
    if wants then some false else noneWants l

end LoadConnection

/-- The list of `f_communicator` and whether `f_loadavg_timer` is enabled. -/
structure LoadServer where
  connections : List LoadConnection
  timerEnabled : Bool
  deriving DecidableEq

inductive LoadCommand
  | registerForLoadavg | unregisterForLoadavg

/-- A message and the place of the connection that it comes over; `none` is UDP. -/
structure LoadMessage where
  command : LoadCommand
  sender : Option Nat

namespace LoadServer
open LoadConnection

def setWantsLoadavg (i : Nat) (wants : Bool) (s : LoadServer) : LoadServer :=
  { s with connections := s.connections.modify i (LoadConnection.setWantsLoadavg wants) }

/-- The messages come over a base connection: no other one hands a message to `process_message()`. -/
def IsBase (s : LoadServer) (i : Nat) : Prop := ((s.connections[i]?).bind wantsLoadavg).isSome = true

instance (s : LoadServer) (i : Nat) : Decidable (s.IsBase i) := inferInstanceAs (Decidable (_ = true))

/-- `process_message()` for the two commands; `none` when a null pointer is dereferenced. Over UDP they are only logged. -/
def processMessage (s : LoadServer) (m : LoadMessage) : Option LoadServer :=
  match m.sender with
  | none => some s
  | some i =>
    if s.IsBase i then
      match m.command with
      | .registerForLoadavg => some { s.setWantsLoadavg i true with timerEnabled := true }
      | .unregisterForLoadavg => do
        let s := s.setWantsLoadavg i false
        if ← noneWants s.connections then some { s with timerEnabled := false } else some s
    else some s

/-- Nothing happens after a crash. -/
def step (s : LoadServer) (m : LoadMessage) : LoadServer := (s.processMessage m).getD s

/-- The connections as they are made, and the timer that is not enabled. -/
def start (l : List LoadConnection) : LoadServer :=
  { connections := l.map (LoadConnection.setWantsLoadavg false), timerEnabled := false }

def Wanted (l : List LoadConnection) : Prop := ∃ c ∈ l, c.wantsLoadavg = some true

/-- The timer is enabled when a connection wants `LOADAVG`, and only then. -/
def Tracks (s : LoadServer) : Prop := s.timerEnabled = true ↔ Wanted s.connections

/-- No null pointer is dereferenced, and the timer is as it should be. -/
def Served (s : LoadServer) (m : LoadMessage) : Prop := ∃ t, s.processMessage m = some t ∧ Tracks t

/-- Another connection that wants `LOADAVG` stands in front of each that is not a base connection. -/
def Shielded (l : List LoadConnection) (i : Nat) : Prop :=
  ∀ (j : Nat) (c : LoadConnection), l[j]? = some c → c.wantsLoadavg = none →
    ∃ k < j, k ≠ i ∧ ∃ d : LoadConnection, l[k]? = some d ∧ d.wantsLoadavg = some true

/-- An `UNREGISTERFORLOADAVG` of a base connection comes when the others are shielded. -/
def Safe (s : LoadServer) (m : LoadMessage) : Prop :=
  m.command = .unregisterForLoadavg → ∀ i, m.sender = some i → s.IsBase i → Shielded s.connections i

/-! ### The search -/

variable {s t : LoadServer} {l : List LoadConnection} {m : LoadMessage} {i j : Nat}

theorem noneWants_eq_true (h : noneWants l = some true) : ¬ Wanted l := by
  fun_induction noneWants l with
  | case1 => simp [Wanted]
  | case2 c l ih =>
    cases hc : c.wantsLoadavg with
    | none => simp [hc] at h
    | some wants =>
      cases wants with
      | true => simp [hc] at h
      | false =>
        simp only [hc, Option.bind_eq_bind, Option.bind_some, Bool.false_eq_true, if_false] at h
        rintro ⟨d, hd, hwants⟩
        rcases List.mem_cons.mp hd with rfl | hd
        · simp [hc] at hwants
        · exact ih h ⟨d, hd, hwants⟩

theorem noneWants_eq_false (h : noneWants l = some false) : Wanted l := by
  fun_induction noneWants l with
  | case1 => simp at h
  | case2 c l ih =>
    cases hc : c.wantsLoadavg with
    | none => simp [hc] at h
    | some wants =>
      cases wants with
      | true => exact ⟨c, List.mem_cons_self, hc⟩
      | false =>
        simp only [hc, Option.bind_eq_bind, Option.bind_some, Bool.false_eq_true, if_false] at h
        obtain ⟨d, hd, hwants⟩ := ih h
        exact ⟨d, List.mem_cons_of_mem c hd, hwants⟩

/-- The search dereferences no null pointer exactly when one that wants `LOADAVG` stands in front of each. -/
theorem noneWants_isSome : (noneWants l).isSome = true ↔ ∀ (j : Nat) (c : LoadConnection),
    l[j]? = some c → c.wantsLoadavg = none → ∃ k < j, ∃ d : LoadConnection, l[k]? = some d ∧ d.wantsLoadavg = some true := by
  induction l with
  | nil => simp [noneWants]
  | cons c l ih =>
    rw [noneWants]
    cases hc : c.wantsLoadavg with
    | none =>
      refine iff_of_false (by simp) fun h => ?_
      obtain ⟨k, hk, -⟩ := h 0 c rfl hc
      exact absurd hk (Nat.not_lt_zero k)
    | some wants =>
      cases wants with
      | true =>
        refine iff_of_true (by simp) fun j d hd hnone => ?_
        cases j with
        | zero =>
          cases hd
          simp [hc] at hnone
        | succ j => exact ⟨0, Nat.succ_pos j, c, rfl, hc⟩
      | false =>
        simp only [Option.bind_eq_bind, Option.bind_some, Bool.false_eq_true, if_false, ih]
        constructor
        · intro h j d hd hnone
          cases j with
          | zero =>
            cases hd
            simp [hc] at hnone
          | succ j =>
            obtain ⟨k, hk, e, he, hwants⟩ := h j d hd hnone
            exact ⟨k + 1, Nat.succ_lt_succ hk, e, he, hwants⟩
        · intro h j d hd hnone
          obtain ⟨k, hk, e, he, hwants⟩ := h (j + 1) d hd hnone
          cases k with
          | zero =>
            cases he
            simp [hc] at hwants
          | succ k => exact ⟨k, Nat.lt_of_succ_lt_succ hk, e, he, hwants⟩

/-! ### The flags -/

@[simp] theorem wantsLoadavg_setWantsLoadavg (c : LoadConnection) (wants : Bool) :
    (c.setWantsLoadavg wants).wantsLoadavg = c.wantsLoadavg.map fun _ => wants := by
  cases c <;> rfl

/-- What the list of connections holds when the sender's flag is set. -/
theorem getElem?_setWantsLoadavg (s : LoadServer) (i j : Nat) (wants : Bool) :
    (s.setWantsLoadavg i wants).connections[j]? =
      (s.connections[j]?).map fun c => if i = j then c.setWantsLoadavg wants else c := by
  rw [setWantsLoadavg, List.getElem?_modify]
  split <;> simp [*]

theorem wanted_iff : Wanted l ↔ ∃ (j : Nat) (c : LoadConnection), l[j]? = some c ∧ c.wantsLoadavg = some true := by
  simp only [Wanted, List.mem_iff_getElem?]
  constructor
  · rintro ⟨c, ⟨j, hj⟩, hc⟩
    exact ⟨j, c, hj, hc⟩
  · rintro ⟨j, c, hj, hc⟩
    exact ⟨c, ⟨j, hj⟩, hc⟩

theorem IsBase.exists (h : s.IsBase i) :
    ∃ (c : LoadConnection) (wants : Bool), s.connections[i]? = some c ∧ c.wantsLoadavg = some wants := by
  obtain ⟨wants, h⟩ := Option.isSome_iff_exists.mp h
  obtain ⟨c, hc, hwants⟩ := Option.bind_eq_some_iff.mp h
  exact ⟨c, wants, hc, hwants⟩

theorem wanted_register (h : s.IsBase i) : Wanted (s.setWantsLoadavg i true).connections := by
  obtain ⟨c, wants, hc, hwants⟩ := h.exists
  refine wanted_iff.mpr ⟨i, c.setWantsLoadavg true, ?_, by simp [hwants]⟩
  simp [getElem?_setWantsLoadavg, hc]

/-- After the flag of the sender is reset, the search is safe exactly when the connections were shielded. -/
theorem noneWants_unregister : (noneWants (s.setWantsLoadavg i false).connections).isSome = true ↔ Shielded s.connections i := by
  rw [noneWants_isSome]
  simp only [getElem?_setWantsLoadavg, Option.map_eq_some_iff]
  constructor
  · intro h j c hc hnone
    obtain ⟨k, hk, -, ⟨d, hd, rfl⟩, hwants⟩ := h j _ ⟨c, hc, rfl⟩ (by split <;> simp [hnone])
    by_cases hik : i = k
    · simp [hik] at hwants
    · exact ⟨k, hk, Ne.symm hik, d, hd, by simpa [hik] using hwants⟩
  · rintro h j - ⟨c, hc, rfl⟩ hnone
    have hnone' : c.wantsLoadavg = none := by
      split at hnone
      · simpa using hnone
      · exact hnone
    obtain ⟨k, hk, hne, d, hd, hwants⟩ := h j c hc hnone'
    exact ⟨k, hk, d, ⟨d, hd, if_neg (Ne.symm hne)⟩, hwants⟩

/-! ### The messages -/

/-- What a message does. -/
theorem processMessage_cases (h : s.processMessage m = some t) :
    ((m.sender = none ∨ ∃ i, m.sender = some i ∧ ¬ s.IsBase i) ∧ t = s) ∨
    (∃ i, m.sender = some i ∧ s.IsBase i ∧ m.command = .registerForLoadavg ∧
      t = { s.setWantsLoadavg i true with timerEnabled := true }) ∨
    ∃ i none, m.sender = some i ∧ s.IsBase i ∧ m.command = .unregisterForLoadavg ∧
      noneWants (s.setWantsLoadavg i false).connections = some none ∧
      t = { s.setWantsLoadavg i false with timerEnabled := !none && s.timerEnabled } := by
  unfold processMessage at h
  split at h
  · rename_i hsender
    cases h
    exact .inl ⟨.inl hsender, rfl⟩
  · rename_i i hsender
    split at h
    · rename_i hbase
      split at h
      · rename_i hcommand
        cases h
        exact .inr (.inl ⟨i, hsender, hbase, hcommand, rfl⟩)
      · rename_i hcommand
        obtain ⟨none, hnone, h⟩ := Option.bind_eq_some_iff.mp h
        refine .inr (.inr ⟨i, none, hsender, hbase, hcommand, hnone, ?_⟩)
        cases none <;> · cases h; rfl
    · rename_i hbase
      cases h
      exact .inl ⟨.inr ⟨i, hsender, hbase⟩, rfl⟩

/-- A message that is processed leaves the timer as it should be. -/
theorem Tracks.processMessage (hs : Tracks s) (h : s.processMessage m = some t) : Tracks t := by
  obtain ⟨-, rfl⟩ | ⟨i, -, hbase, -, rfl⟩ | ⟨i, none, -, -, -, hnone, rfl⟩ := processMessage_cases h
  · exact hs
  · exact iff_of_true rfl (wanted_register hbase)
  · cases none with
    | true => exact iff_of_false (by simp) (noneWants_eq_true hnone)
    | false =>
      have hwanted := noneWants_eq_false hnone
      refine iff_of_true ?_ hwanted
      obtain ⟨j, _, hj, hwants⟩ := wanted_iff.mp hwanted
      rw [getElem?_setWantsLoadavg, Option.map_eq_some_iff] at hj
      obtain ⟨c, hc, rfl⟩ := hj
      have hc' : c.wantsLoadavg = some true := by
        split at hwants
        · simp at hwants
        · exact hwants
      simpa using hs.mpr (wanted_iff.mpr ⟨j, c, hc, hc'⟩)

theorem isSome_processMessage : (s.processMessage m).isSome = true ↔ Safe s m := by
  unfold LoadServer.processMessage Safe
  cases hsender : m.sender with
  | none => simp
  | some i =>
    by_cases hbase : s.IsBase i
    · cases hcommand : m.command with
      | registerForLoadavg => simp [hbase]
      | unregisterForLoadavg =>
        simp only [hbase, if_true, Option.some.injEq, forall_eq', forall_const, ← noneWants_unregister]
        cases noneWants (s.setWantsLoadavg i false).connections with
        | none => simp
        | some none => cases none <;> simp
    · simp [hbase]

theorem served_iff (hs : Tracks s) : Served s m ↔ Safe s m := by
  rw [← isSome_processMessage, Option.isSome_iff_exists]
  constructor
  · rintro ⟨t, ht, -⟩
    exact ⟨t, ht⟩
  · rintro ⟨t, ht⟩
    exact ⟨t, ht, hs.processMessage ht⟩

theorem Tracks.step (hs : Tracks s) : Tracks (s.step m) := by
  unfold LoadServer.step
  cases h : s.processMessage m with
  | none => exact hs
  | some t => exact hs.processMessage h

theorem tracks_start (l : List LoadConnection) : Tracks (start l) := by
  refine iff_of_false (by simp [start]) ?_
  rintro ⟨c, hc, hwants⟩
  obtain ⟨d, -, rfl⟩ := List.mem_map.mp hc
  simp at hwants

/-- Every message is served exactly when each `UNREGISTERFORLOADAVG` comes while another connection that wants `LOADAVG`
    stands in front of every connection that is not a base connection. -/
theorem served_start_iff (l : List LoadConnection) (ms : List LoadMessage) :
    Trace.Along step Served (start l) ms ↔ Trace.Along step Safe (start l) ms :=
  Trace.along_congr (tracks_start l) (fun _ _ hs => hs.step) fun _ _ hs => served_iff hs

/-- One service that registers and unregisters makes the daemon crash. -/
theorem not_served : ¬ ∀ l ms, Trace.Along step Served (start l) ms := by
  intro h
  obtain ⟨-, ⟨t, ht, -⟩, -⟩ := h [.interrupt, .localListener, .ping, .loadavgTimer, .service false]
    [⟨.registerForLoadavg, some 4⟩, ⟨.unregisterForLoadavg, some 4⟩]
  cases ht

end LoadServer
end Snapwebsites
