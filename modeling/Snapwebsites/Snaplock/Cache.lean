import Snapwebsites.Lib.Run
import Snapwebsites.Snaplock.Frame

/-! # Requests that wait for the leaders

A LOCK that comes before the daemon is ready waits in the cache, and `check_lock_status()` takes up
the cache when the daemon becomes ready. It goes by the status that it remembers: as long as that is
NOLOCK whenever a request waits (`Awaited`), no check can leave one behind. -/

namespace Snapwebsites
open QString

namespace Snaplock

/-! ### What is shown -/

/-- The messages that the readiness depends on, and LOCK. -/
def aboutStatus : LockCommand → Bool
  | .clusterUp _ | .clusterDown | .lockStarted _ | .lockLeaders _ | .serverGone _ | .lock _ => true
  | _ => false

/-- `msg_lock()` puts the request in the cache. -/
def caches (now : Int) (s : Snaplock) (m : LockMessage LockParameters) : Bool :=
  decide (timeoutOr now m.payload.timeout > now) && !decide (int32 m.payload.duration < SnapLock.minimumTimeout) &&
  !(m.payload.unlockDuration.map fun d => decide (int32 d < SnapLock.unlockMinimumTimeout)).getD false && !s.ready

/-- A message comes in at the time `date`. -/
inductive StatusStep : Snaplock → Snaplock → Prop
  | receive {s s' : Snaplock} (date : Int) (random : Nat) (m : LockMessage LockCommand) : aboutStatus m.payload = true →
      s.processMessage date random m = some s' → StatusStep s s'

/-- A message comes in; a LOCK goes to the cache only while the remembered status is NOLOCK. -/
inductive NoticedStep : Snaplock → Snaplock → Prop
  | receive {s s' : Snaplock} (date : Int) (random : Nat) (m : LockMessage LockCommand) : aboutStatus m.payload = true →
      (∀ p, m.payload = .lock p → caches (date / 1000000) s (m.withPayload p) = true → s.lockStatus = "NOLOCK".toList) →
      s.processMessage date random m = some s' → NoticedStep s s'

/-- No check of the status has left a request in the cache while the daemon was ready. -/
def Flushed (s : Snaplock) : Prop := ∀ c ∈ s.checks, c.1 = true → c.2 = []

/-! ### The invariant -/

/-- Whenever a request is in the cache, the remembered status is NOLOCK. -/
structure Awaited (s : Snaplock) : Prop where
  flushed : s.Flushed
  status : s.messageCache ≠ [] → s.lockStatus = "NOLOCK".toList

section Awaited
variable {now date : Int} {s s' t : Snaplock} {m : LockMessage LockParameters}

/-- What `msg_lock()` does to the cache. -/
theorem msgLock_cases (h : s.msgLock now m = some s') :
    s'.toCluster = s.toCluster ∧ s'.checks = s.checks ∧ (s'.messageCache.Sublist s.messageCache ∨ caches now s m = true) := by
  unfold msgLock at h
  dsimp only at h
  split at h
  · cases h
  · obtain ⟨t, ht, h⟩ := Option.bind_eq_some_iff.mp h
    have hst := sameCluster_cleanup ht
    have keep : ∀ {u}, SameCluster t u → some u = some s' →
        s'.toCluster = s.toCluster ∧ s'.checks = s.checks ∧ (s'.messageCache.Sublist s.messageCache ∨ caches now s m = true) :=
      fun hu heq => by
        cases heq
        exact ⟨(hst.trans hu).cluster, (hst.trans hu).checks, Or.inl (hst.trans hu).messageCache⟩
    split at h
    · exact keep (sameCluster_send _) h
    split at h
    · exact keep (sameCluster_send _) h
    split at h
    · exact keep (sameCluster_send _) h
    split at h
    · -- the request goes to the cache
      rename_i htime hduration hunlock hready
      have hcheck := hst.trans (@sameCluster_checkLeaders now _)
      cases h
      refine ⟨hcheck.cluster, hcheck.checks, Or.inr ?_⟩
      rw [hst.ready] at hready
      simp only [caches, Bool.and_eq_true, Bool.not_eq_true', decide_eq_true_eq, decide_eq_false_iff_not]
      exact ⟨⟨⟨not_le.mp htime, hduration⟩, by simpa using hunlock⟩, by simpa using hready⟩
    split at h
    · rename_i hleader
      cases h
      exact ⟨hst.cluster, hst.checks, Or.inl hst.messageCache⟩
    split at h
    · split at h
      · exact keep (.refl t) h
      · exact keep (sameCluster_send _) h
    · split at h
      · exact keep (sameCluster_send _) h
      · exact keep (sameCluster_makeTicket h) rfl

theorem caches_of_ready (h : s.ready = true) : caches now s m = false := by simp [caches, h]

/-- Requests that are taken up go to the cache only when the daemon is not ready. -/
theorem foldlM_msgLock {α : Type} {f : α → LockMessage LockParameters} :
    ∀ {l : List α} {s s' : Snaplock}, l.foldlM (fun s a => s.msgLock now (f a)) s = some s' →
      s'.toCluster = s.toCluster ∧ s'.checks = s.checks ∧ (s.ready = true → s'.messageCache.Sublist s.messageCache)
  | [], s, s', h => by
    cases h
    exact ⟨rfl, rfl, fun _ => .refl _⟩
  | a :: l, s, s', h => by
    rw [List.foldlM_cons] at h
    obtain ⟨t, ht, h⟩ := Option.bind_eq_some_iff.mp h
    obtain ⟨hcluster, hchecks, hcache⟩ := msgLock_cases ht
    obtain ⟨hcluster', hchecks', hcache'⟩ := foldlM_msgLock h
    refine ⟨hcluster'.trans hcluster, hchecks'.trans hchecks, fun hready => ?_⟩
    have hcache := hcache.resolve_right (by rw [caches_of_ready hready]; exact Bool.false_ne_true)
    exact (hcache' (by rw [hcluster]; exact hready)).trans hcache

/-- The check itself: a daemon that is ready and has been NOLOCK takes up what waits. -/
theorem awaited_checkLockStatus (hflushed : s.Flushed)
    (hstatus : s.messageCache ≠ [] → s.lockStatus = "NOLOCK".toList ∨ s.ready = false) (h : s.checkLockStatus now = some s') :
    Awaited s' := by
  unfold checkLockStatus at h
  dsimp only at h
  obtain ⟨u, hu, h⟩ := Option.bind_eq_some_iff.mp h
  cases h
  have hsame := @sameCluster_checkLeaders now s
  have hcache : (s.checkLeaders now).messageCache = [] ∨ s.messageCache ≠ [] := by
    by_cases hnil : s.messageCache = []
    · exact Or.inl (List.sublist_nil.mp (hnil ▸ hsame.messageCache))
    · exact Or.inr hnil
  suffices hu : u.checks = s.checks ∧ (u.ready = true → u.messageCache = []) ∧
      (u.messageCache ≠ [] → u.lockStatus = "NOLOCK".toList) by
    obtain ⟨hchecks, hready, hstatus⟩ := hu
    refine ⟨fun c hc => ?_, hstatus⟩
    rcases List.mem_append.mp hc with hc | hc
    · exact hflushed c (hchecks ▸ hc)
    · rw [List.mem_singleton] at hc
      subst hc
      exact hready
  cases hready : s.ready with
  | false =>
    rw [hready] at hu
    -- the status is NOLOCK now
    have hu : u.toCluster = { s.toCluster with lockStatus := "NOLOCK".toList } ∧ u.checks = s.checks := by
      by_cases heq : (s.checkLeaders now).lockStatus = statusText false
      · rw [if_neg (not_not.mpr heq)] at hu
        cases hu
        refine ⟨?_, hsame.checks⟩
        rw [hsame.cluster] at heq ⊢
        exact congrArg (fun status => { s.toCluster with lockStatus := status }) heq
      · rw [if_pos heq] at hu
        cases hu
        exact ⟨congrArg (fun c : Cluster => { c with lockStatus := "NOLOCK".toList }) hsame.cluster, hsame.checks⟩
    refine ⟨hu.2, fun hr => ?_, fun _ => by rw [hu.1]⟩
    have : u.ready = s.ready := by rw [hu.1]; rfl
    rw [this, hready] at hr
    cases hr
  | true =>
    rw [hready] at hu
    have hempty : u.checks = s.checks ∧ u.messageCache = [] := by
      by_cases heq : (s.checkLeaders now).lockStatus = statusText true
      · rw [if_neg (not_not.mpr heq)] at hu
        cases hu
        refine ⟨hsame.checks, hcache.resolve_right fun hne => ?_⟩
        rw [hsame.cluster] at heq
        rcases hstatus hne with h | h
        · rw [heq] at h
          cases h
        · rw [hready] at h
          cases h
      · rw [if_pos heq] at hu
        obtain ⟨-, hchecks, hempty⟩ := foldlM_msgLock hu
        have hready' : (s.checkLeaders now).ready = true := by rw [hsame.ready, hready]
        exact ⟨hchecks.trans hsame.checks, List.sublist_nil.mp (hempty hready')⟩
    exact ⟨hempty.1, fun _ => hempty.2, fun hne => absurd hempty.2 hne⟩

theorem Awaited.checkLockStatus (hs : Awaited s) (h : s.checkLockStatus now = some s') : Awaited s' :=
  awaited_checkLockStatus hs.flushed (fun hne => Or.inl (hs.status hne)) h

/-- Whatever else a handler changes in the cluster, the invariant is about the status, the checks and
    the cache. -/
theorem Awaited.congr (hs : Awaited s) (hstatus : t.lockStatus = s.lockStatus) (hchecks : t.checks = s.checks)
    (hcache : t.messageCache.Sublist s.messageCache) : Awaited t := by
  refine ⟨fun c hc => hs.flushed c (hchecks ▸ hc), fun hne => hstatus.trans (hs.status fun hnil => hne ?_)⟩
  rw [hnil] at hcache
  exact List.sublist_nil.mp hcache

theorem Awaited.electionStatus (hs : Awaited s) (h : s.electionStatus date = some s') : Awaited s' := by
  unfold Snaplock.electionStatus at h
  dsimp only at h
  split at h
  · exact hs.checkLockStatus h
  · split at h
    · cases h
      exact hs
    · refine Awaited.checkLockStatus (Awaited.congr hs ?_ ?_ ?_) h
      · rfl
      · rfl
      · exact .refl _

theorem addLeader_keeps (lockid : QString) :
    (s.addLeader lockid).lockStatus = s.lockStatus ∧ (s.addLeader lockid).checks = s.checks ∧
      (s.addLeader lockid).messageCache = s.messageCache := by
  unfold addLeader
  split
  · exact ⟨rfl, rfl, rfl⟩
  · split <;> exact ⟨rfl, rfl, rfl⟩

theorem Awaited.addLeaders (hs : Awaited s) (l : List QString) : Awaited (l.foldl addLeader s) := by
  induction l generalizing s with
  | nil => exact hs
  | cons a l ih =>
    obtain ⟨hstatus, hchecks, hcache⟩ := addLeader_keeps (s := s) a
    exact ih (hs.congr hstatus hchecks (by rw [hcache]))

/-! ### The hand-over of tickets -/

theorem sameCluster_eraseEntering {objectName key : QString} (s : Snaplock) : SameCluster s (eraseEntering objectName key s) :=
  ⟨rfl, rfl, .refl _⟩

theorem sameCluster_eraseTicket {objectName key : QString} (s : Snaplock) : SameCluster s (eraseTicket objectName key s) :=
  ⟨rfl, rfl, .refl _⟩

theorem sameCluster_relock {leader0 : Bool} {remove : Snaplock → Snaplock} (hremove : ∀ s, SameCluster s (remove s)) {p : Nat}
    {next : Option Nat} {r r' : Snaplock × List (LockMessage LockParameters)} (h : relock leader0 remove p next r = some r') :
    SameCluster r.1 r'.1 := by
  unfold relock at h
  split at h
  · obtain ⟨m, -, h⟩ := Option.bind_eq_some_iff.mp h
    cases h
    exact hremove r.1
  · obtain ⟨m, -, h⟩ := Option.bind_eq_some_iff.mp h
    obtain ⟨q, -, h⟩ := Option.bind_eq_some_iff.mp h
    cases h
    exact sameCluster_send _

theorem sameCluster_syncEntering {leader0 : Bool} {objectName : QString} : ∀ {l : List (QString × Nat)}
    {r r' : Snaplock × List (LockMessage LockParameters)}, syncEntering leader0 objectName l r = some r' → SameCluster r.1 r'.1
  | [], r, r', h => by
    cases h
    exact .refl _
  | e :: l, r, r', h => by
    unfold syncEntering at h
    split at h
    · obtain ⟨u, hu, h⟩ := Option.bind_eq_some_iff.mp h
      exact (sameCluster_relock (fun s => sameCluster_eraseEntering s) hu).trans
        (sameCluster_syncEntering h)
    · exact sameCluster_syncEntering h

theorem sameCluster_syncTickets {leader0 : Bool} {objectName : QString} : ∀ {l : List (QString × Nat)}
    {r r' : (Snaplock × List (LockMessage LockParameters)) × QString}, syncTickets leader0 objectName l r = some r' →
      SameCluster r.1.1 r'.1.1
  | [], r, r', h => by
    cases h
    exact .refl _
  | e :: l, (r, serialized), r', h => by
    unfold syncTickets at h
    split at h
    · have hset : SameCluster r.1 (if r.1.orphan e.2 = true then
          r.1.setTicket e.2 { r.1.ticket e.2 with owner := r.1.leader0Name } else r.1) := by
        split
        · exact sameCluster_setTicket _
        · exact .refl _
      exact hset.trans (sameCluster_syncTickets h)
    · split at h
      · obtain ⟨u, hu, h⟩ := Option.bind_eq_some_iff.mp h
        exact (sameCluster_relock (fun s => sameCluster_eraseTicket s) hu).trans (sameCluster_syncTickets h)
      · exact sameCluster_syncTickets h

/-- The hand-over puts a request in the cache only when the daemon is not ready. -/
theorem synchronizeLeaders_cache (h : s.synchronizeLeaders now = some s') :
    s'.toCluster = s.toCluster ∧ s'.checks = s.checks ∧ (s.ready = true → s'.messageCache.Sublist s.messageCache) := by
  unfold synchronizeLeaders at h
  split at h
  · cases h
    exact ⟨rfl, rfl, fun _ => .refl _⟩
  split at h
  · cases h
    exact ⟨rfl, rfl, fun _ => .refl _⟩
  dsimp only at h
  obtain ⟨r, hr, h⟩ := Option.bind_eq_some_iff.mp h
  obtain ⟨⟨r', serialized⟩, hr', h⟩ := Option.bind_eq_some_iff.mp h
  obtain ⟨u, hu, h⟩ := Option.bind_eq_some_iff.mp h
  have hsame : SameCluster s r'.1 :=
    (foldlM_keeps (fun r r' : Snaplock × List (LockMessage LockParameters) => SameCluster r.1 r'.1) (fun _ => .refl _)
      (fun h h' => h.trans h') (fun _ _ _ h => sameCluster_syncEntering h) hr).trans
    (foldlM_keeps (fun r r' : (Snaplock × List (LockMessage LockParameters)) × QString => SameCluster r.1.1 r'.1.1)
      (fun _ => .refl _) (fun h h' => h.trans h') (fun _ _ _ h => sameCluster_syncTickets h) hr')
  obtain ⟨hcluster, hchecks, hcache⟩ := foldlM_msgLock hu
  have huser : s'.toCluster = u.toCluster ∧ s'.checks = u.checks ∧ s'.messageCache = u.messageCache := by
    unfold sendLockTickets at h
    dsimp only at h
    split at h
    · cases h
      exact ⟨rfl, rfl, rfl⟩
    · obtain ⟨a, -, h⟩ := Option.bind_eq_some_iff.mp h
      cases a with
      | none =>
        cases h
        exact ⟨rfl, rfl, rfl⟩
      | some a =>
        obtain ⟨b, -, h⟩ := Option.bind_eq_some_iff.mp h
        cases b <;> cases h <;> exact ⟨rfl, rfl, rfl⟩
  refine ⟨huser.1.trans (hcluster.trans hsame.cluster), huser.2.1.trans (hchecks.trans hsame.checks), fun hready => ?_⟩
  rw [huser.2.2]
  exact (hcache (by rw [hsame.ready]; exact hready)).trans hsame.messageCache

/-! ### Runs -/

theorem Awaited.msgLockLeaders {random : Nat} {p : LeadersParameters} (hs : Awaited s)
    (h : s.msgLockLeaders now random p = some s') : Awaited s' := by
  unfold Snaplock.msgLockLeaders at h
  dsimp only at h
  obtain ⟨u, hu, h⟩ := Option.bind_eq_some_iff.mp h
  have ht := Awaited.addLeaders (s := { s with electionDate := p.electionDate, leaders := [] })
    (hs.congr rfl rfl (.refl _)) (p.leaders.take 3)
  generalize (p.leaders.take 3).foldl addLeader { s with electionDate := p.electionDate, leaders := [] } = t at hu ht
  split at hu
  · cases hu
    exact ht.checkLockStatus h
  · obtain ⟨v, hv, rfl⟩ := Option.map_eq_some_iff.mp hu
    obtain ⟨hcluster, hchecks, hcache⟩ := synchronizeLeaders_cache hv
    refine awaited_checkLockStatus ?_ ?_ h
    · exact fun c hc => ht.flushed c (hchecks ▸ hc)
    · intro hne
      show v.lockStatus = _ ∨ v.ready = false
      rw [hcluster]
      cases hready : t.ready with
      | false => exact Or.inr rfl
      | true =>
        refine Or.inl (ht.status fun hnil => hne ?_)
        exact List.sublist_nil.mp (hnil ▸ hcache hready)

theorem Awaited.msgServerGone {serverName : QString} (hs : Awaited s) (h : s.msgServerGone date serverName = some s') :
    Awaited s' := by
  unfold Snaplock.msgServerGone at h
  split at h
  · cases h
    exact hs
  · split at h
    · cases h
      exact hs
    · dsimp only at h
      split at h
      · obtain ⟨u, hu, h⟩ := Option.bind_eq_some_iff.mp h
        refine Awaited.checkLockStatus (Awaited.electionStatus (hs.congr ?_ ?_ ?_) hu) h
        · rfl
        · rfl
        · exact .refl _
      · cases h
        exact hs.congr rfl rfl (.refl _)

theorem meetComputer_keeps {p : LockStartedParameters} {newComputer : Bool} (h : s.meetComputer p = some (t, newComputer)) :
    t.lockStatus = s.lockStatus ∧ t.checks = s.checks ∧ t.messageCache = s.messageCache := by
  unfold meetComputer at h
  split at h
  · obtain ⟨c, -, heq⟩ := Option.map_eq_some_iff.mp h
    cases heq
    exact ⟨rfl, rfl, rfl⟩
  · cases h
    exact ⟨rfl, rfl, rfl⟩

theorem Awaited.msgLockStarted {message : LockMessage LockStartedParameters} (hs : Awaited s)
    (h : s.msgLockStarted date message = some s') : Awaited s' := by
  unfold Snaplock.msgLockStarted at h
  dsimp only at h
  split at h
  · cases h
  split at h
  · cases h
    exact hs
  split at h
  · cases h
    exact hs
  · rename_i t newComputer ht
    obtain ⟨hstatus, hchecks, hcache⟩ := meetComputer_keeps ht
    have ht := hs.congr hstatus hchecks (by rw [hcache])
    have hnewest : Awaited (t.keepNewest message.payload.electionDate) := by
      unfold keepNewest
      split
      · split
        · exact ht.congr rfl rfl (.refl _)
        · exact ht
      · exact ht
    obtain ⟨u, hu, h⟩ := Option.bind_eq_some_iff.mp h
    have hu : Awaited u := by
      refine Awaited.electionStatus ?_ hu
      unfold setMyLeaders
      split
      · exact hnewest.addLeaders _
      · exact hnewest
    cases h
    split
    · exact hu.congr rfl rfl (.refl _)
    · exact hu

theorem Awaited.step (hs : Awaited s) (h : NoticedStep s s') : Awaited s' := by
  obtain ⟨date, random, m, hstatus, hnoticed, h⟩ := h
  unfold processMessage at h
  dsimp only at h
  split at h
  case h_1 p hp =>
    obtain ⟨hcluster, hchecks, hcache⟩ := msgLock_cases h
    refine ⟨fun c hc => hs.flushed c (hchecks ▸ hc), fun hne => ?_⟩
    rw [hcluster]
    rcases hcache with hcache | hcaches
    · exact hs.status fun hnil => hne (List.sublist_nil.mp (hnil ▸ hcache))
    · exact hnoticed p hp hcaches
  case h_16 neighborsCount hp =>
    obtain ⟨u, hu, h⟩ := Option.bind_eq_some_iff.mp h
    cases h
    refine Awaited.congr (Awaited.electionStatus (hs.congr ?_ ?_ ?_) hu) rfl rfl (.refl _)
    · rfl
    · rfl
    · exact .refl _
  case h_17 hp =>
    refine Awaited.checkLockStatus (Awaited.congr hs ?_ ?_ ?_) h
    · rfl
    · rfl
    · exact .refl _
  case h_18 p hp => exact hs.msgLockStarted h
  case h_19 p hp => exact hs.msgLockLeaders h
  case h_21 serverName hp => exact hs.msgServerGone h
  all_goals
    rename_i hp
    rw [hp] at hstatus
    cases hstatus

/-- As long as a LOCK goes to the cache only while the remembered status is NOLOCK, every check of the
    status that ends with the daemon ready ends with the cache empty. -/
theorem flushed_of_noticed {s₀ : Snaplock} (hs : s₀.messageCache = []) (hc : s₀.checks = []) {n : Nat}
    (hrun : Run NoticedStep s₀ n s) : s.Flushed := by
  have hstart : Awaited s₀ := ⟨fun c hmem => absurd (hc ▸ hmem) List.not_mem_nil, fun hne => absurd hs hne⟩
  exact (Run.invariant (I := Awaited) hstart (fun _ _ ht h => ht.step h) hrun).flushed

end Awaited

/-! ### One computer that is counted as one of three for a while -/

def alpha : Snaplock := start "alpha".toList "10.0.0.1".toList 14 7 100 0 32768

def clusterUpMessage (neighborsCount : Int) : LockMessage LockCommand := { payload := .clusterUp neighborsCount }

def lockMessage (pid : Int) : LockMessage LockCommand :=
  { sentFromServer := "alpha".toList, sentFromService := "client".toList
    payload := .lock { objectName := "o".toList, pid, timeout := some 100, duration := 10 } }

theorem flushed_of_noticed_alpha : ∃ s, Run NoticedStep alpha 2 s ∧ s.checks.length = 1 ∧ s.Flushed := by
  have hrun : ((alpha.processMessage 0 0 (lockMessage 5)).bind fun s => (s.processMessage 0 0 (clusterUpMessage 1)).map fun t =>
      (s.lockStatus, t.checks.length)) = some ("NOLOCK".toList, 1) := by decide
  obtain ⟨s, hs, h⟩ := Option.bind_eq_some_iff.mp hrun
  obtain ⟨t, ht, h⟩ := Option.map_eq_some_iff.mp h
  obtain ⟨-, hlength⟩ := Prod.mk.inj h
  have hrun : Run NoticedStep alpha 2 t :=
    .step (.step .start (.receive 0 0 (lockMessage 5) rfl (fun _ _ _ => rfl) hs))
      (.receive 0 0 (clusterUpMessage 1) rfl (fun p hp => LockCommand.noConfusion hp) ht)
  exact ⟨t, hrun, hlength, flushed_of_noticed rfl rfl hrun⟩

/-- CLUSTERUP with three neighbors ends the readiness without a check; the LOCK that comes next is in
    the cache still when the daemon, which remembers LOCKREADY, is ready again. -/
theorem not_flushed : ¬ ∀ n s, Run StatusStep alpha n s → s.Flushed := by
  intro h
  have hrun : ((alpha.processMessage 0 0 (clusterUpMessage 1)).bind fun s₁ =>
      (s₁.processMessage 0 0 (clusterUpMessage 3)).bind fun s₂ => (s₂.processMessage 0 0 (lockMessage 5)).bind fun s₃ =>
      (s₃.processMessage 0 0 (clusterUpMessage 1)).map fun s₄ => s₄.checks.any fun c => c.1 && !c.2.isEmpty) = some true := by
    decide
  obtain ⟨s₁, h₁, hrun⟩ := Option.bind_eq_some_iff.mp hrun
  obtain ⟨s₂, h₂, hrun⟩ := Option.bind_eq_some_iff.mp hrun
  obtain ⟨s₃, h₃, hrun⟩ := Option.bind_eq_some_iff.mp hrun
  obtain ⟨s₄, h₄, hany⟩ := Option.map_eq_some_iff.mp hrun
  obtain ⟨c, hc, hleft⟩ := List.any_eq_true.mp hany
  simp only [Bool.and_eq_true, Bool.not_eq_true'] at hleft
  have hflushed := h 4 s₄ (.step (.step (.step (.step .start (.receive 0 0 _ rfl h₁)) (.receive 0 0 _ rfl h₂))
    (.receive 0 0 _ rfl h₃)) (.receive 0 0 _ rfl h₄)) c hc hleft.1
  rw [hflushed] at hleft
  exact Bool.noConfusion hleft.2

end Snaplock
end Snapwebsites
