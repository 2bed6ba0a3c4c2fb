import Mathlib.Order.Bounds.Basic
import Snapwebsites.Lib.Trace
import Snapwebsites.Snaplistd.ListData

/-! # The journal over a run

A message whose parameters can be read is saved and answered, or not saved and refused, unless the transaction it needs was
never started (`Handled`). Then the journal has at most one new row of a URI, and that row has the greatest date and the
smallest priority of what was committed since it was inserted (`journalKept_of_handled`). -/

namespace Snapwebsites
open QString
namespace Snaplistd

variable {κ : Type} [DecidableEq κ] (mysql : Mysql κ) (tld getservbyname : QString → Option Nat)

/-! ### What is committed -/

/-- The data of a message. -/
structure ListEntry where
  uri : QString
  keyStartDate : Int
  priority : Int

def entry (message : SnapCommunicatorMessage) : ListEntry where
  uri := (message.getParameter "uri").getD []
  keyStartDate := mysql.integer ((message.getParameter "key_start_date").getD [])
  priority := mysql.integer ((message.getParameter "priority").getD [])

/-- The handler comes to a `commit()` that succeeds. -/
def committed (s : Snaplistd) (steps : SqlSteps) (message : SnapCommunicatorMessage) : Bool :=
  steps.isOpen && ((save mysql tld getservbyname steps message).value s).getD false

def commits (s : Snaplistd) : ListEvent → List ListEntry
  | .listData steps message => if committed mysql tld getservbyname s steps message then [entry mysql message] else []
  | _ => []

/-- What the events commit, from the state `s` on. -/
def commitsOf : Snaplistd → List ListEvent → List ListEntry
  | _, [] => []
  | s, e :: es => commits mysql tld getservbyname s e ++ commitsOf (step mysql tld getservbyname s e) es

/-! ### What holds of the journal -/

/-- No two new rows are of one URI. -/
def OneRow (s : Snaplistd) : Prop :=
  s.journal.Pairwise fun r r' => ¬ (mysql.collate r.uri = mysql.collate r'.uri ∧ r.status = none ∧ r'.status = none)

/-- The row has the greatest date and the smallest priority of the data of its URI. -/
structure Sums (l : List ListEntry) (r : JournalRow) : Prop where
  keyStartDate : IsGreatest {k | ∃ d ∈ l, mysql.collate d.uri = mysql.collate r.uri ∧ d.keyStartDate = k} r.keyStartDate
  priority : IsLeast {p | ∃ d ∈ l, mysql.collate d.uri = mysql.collate r.uri ∧ d.priority = p} r.priority

/-- One of the events inserted the row, which sums up what was committed from that event on. -/
def Accounted (es : List ListEvent) (r : JournalRow) : Prop :=
  ∃ es₁ e es₂, es = es₁ ++ e :: es₂ ∧
    (∀ r' ∈ (Trace.after (step mysql tld getservbyname) {} es₁).journal, r'.id ≠ r.id) ∧
    (∃ r' ∈ (Trace.after (step mysql tld getservbyname) {} (es₁ ++ [e])).journal, r'.id = r.id) ∧
    Sums mysql (commitsOf mysql tld getservbyname (Trace.after (step mysql tld getservbyname) {} es₁) (e :: es₂)) r

/-- The data is in the journal. -/
def Stored (s : Snaplistd) (d : ListEntry) : Prop :=
  ∃ r ∈ s.journal, r.status = none ∧ mysql.collate r.uri = mysql.collate d.uri ∧ d.keyStartDate ≤ r.keyStartDate ∧
    r.priority ≤ d.priority

/-- A message is answered once: that it was committed, and then it is in the journal, or that it failed, and then the
    journal is as it was. -/
def Answered (s : Snaplistd) (e : ListEvent) : Prop :=
  match e with
  | .listData steps message =>
    (∃ id reply, message.getParameter "listdata_id" = some id ∧
      SnapCommunicatorMessage.replyTo { command := (if committed mysql tld getservbyname s steps message
        then "GOTLISTDATA" else "LISTDATAFAILED").toList } message = some reply ∧
      (step mysql tld getservbyname s e).sent = s.sent ++ [reply.withParameter "listdata_id" id]) ∧
    if committed mysql tld getservbyname s steps message
    then Stored mysql (step mysql tld getservbyname s e) (entry mysql message)
    else (step mysql tld getservbyname s e).journal = s.journal
  | _ => (step mysql tld getservbyname s e).sent = s.sent

/-- What the journal is for, after any events. -/
structure JournalKept (es : List ListEvent) : Prop where
  oneRow : OneRow mysql (Trace.after (step mysql tld getservbyname) {} es)
  accounted : ∀ r ∈ (Trace.after (step mysql tld getservbyname) {} es).journal, r.status = none →
    Accounted mysql tld getservbyname es r
  answered : Trace.Along (step mysql tld getservbyname) (Answered mysql tld getservbyname) {} es

/-! ### When a message is handled -/

/-- The parameters are there and the URI can be decoded; an update is not left out for numbers that Qt reads in another way
    than MySQL; and what is written is not saved before a `commit()` that fails, because `transaction()` had failed. -/
structure Readable (s : Snaplistd) (steps : SqlSteps) (message : SnapCommunicatorMessage)
    (uri keyStartDate priority domain : QString) : Prop where
  hasUri : message.getParameter "uri" = some uri
  hasKeyStartDate : message.getParameter "key_start_date" = some keyStartDate
  hasPriority : message.getParameter "priority" = some priority
  decodes : websiteUri tld getservbyname uri = some domain
  numbers : ∀ r, s.select mysql uri = some r → noUpdateRequired r keyStartDate priority = true →
    mysql.integer keyStartDate ≤ r.keyStartDate ∧ r.priority ≤ mysql.integer priority
  transaction : steps.transaction = false → steps.commit = false → steps.select = true → steps.write = true →
    ∃ r, s.select mysql uri = some r ∧ noUpdateRequired r keyStartDate priority = true

def Handled (s : Snaplistd) : ListEvent → Prop
  | .listData steps message =>
    (SnapCommunicatorMessage.replyTo {} message).isSome = true ∧ (message.getParameter "listdata_id").isSome = true ∧
      (steps.isOpen = true → ∃ uri keyStartDate priority domain,
        Readable mysql tld getservbyname s steps message uri keyStartDate priority domain)
  | _ => True

/-! ### What one message does -/

variable {mysql tld getservbyname} {s t : Snaplistd} {steps : SqlSteps} {message : SnapCommunicatorMessage}
  {uri keyStartDate priority domain : QString}

/-- The row with a greater date and a smaller priority, in its place. -/
def raise (id : Nat) (d : ListEntry) (journal : List JournalRow) : List JournalRow :=
  journal.map fun r => if r.id = id then greatest d.keyStartDate d.priority r else r

def newRow (id : Nat) (domain : QString) (d : ListEntry) : JournalRow :=
  { id, domain, priority := d.priority, keyStartDate := d.keyStartDate, uri := d.uri }

/-- The journal with the data in it. -/
inductive Wrote (mysql : Mysql κ) (domain : QString) (d : ListEntry) (s t : Snaplistd) : Prop
  | update (r : JournalRow) (found : s.select mysql d.uri = some r)
      (eq : t = { s with journal := raise r.id d s.journal })
  | insert (found : s.select mysql d.uri = none)
      (eq : t = { s with journal := s.journal ++ [newRow s.nextId domain d], nextId := s.nextId + 1 })

def entryOf (mysql : Mysql κ) (uri keyStartDate priority : QString) : ListEntry :=
  { uri, keyStartDate := mysql.integer keyStartDate, priority := mysql.integer priority }

/-- What `store` does: nothing, for a statement that failed; nothing, for a row that is up to date; or a statement. -/
theorem store_cases (mysql : Mysql κ) (steps : SqlSteps) (domain priority keyStartDate uri : QString) (s : Snaplistd) :
    ∃ success t, Program.Yields (store mysql steps domain priority keyStartDate uri) s success t ∧
      (success = false ∧ t = s ∨
        success = true ∧ t = s ∧ (∃ r, s.select mysql uri = some r ∧ noUpdateRequired r keyStartDate priority = true) ∨
        success = true ∧ steps.select = true ∧ steps.write = true ∧
          (∀ r, s.select mysql uri = some r → noUpdateRequired r keyStartDate priority = false) ∧
          Wrote mysql domain (entryOf mysql uri keyStartDate priority) s t) := by
  unfold store
  by_cases hselect : steps.select = true
  · rw [if_pos hselect]
    cases hfound : s.select mysql uri with
    | some r =>
      by_cases hskip : noUpdateRequired r keyStartDate priority = true
      · refine ⟨true, s, (Program.Yields.get s).bind ?_, .inr (.inl ⟨rfl, rfl, r, rfl, hskip⟩)⟩
        rw [hfound]
        simp only [hskip, if_true]
        exact Program.Yields.pure true s
      · have hskip' : noUpdateRequired r keyStartDate priority = false := Bool.eq_false_iff.mpr hskip
        by_cases hwrite : steps.write = true
        · refine ⟨true, { s with journal := raise r.id (entryOf mysql uri keyStartDate priority) s.journal },
            (Program.Yields.get s).bind ?_,
            .inr (.inr ⟨rfl, hselect, hwrite, fun r' hr' => by cases hr'; exact hskip', .update r hfound rfl⟩)⟩
          rw [hfound]
          simp only [hskip', Bool.false_eq_true, if_false, update, hwrite, if_true]
          exact (Program.Yields.modify _ s).bind (Program.Yields.pure true _)
        · refine ⟨false, s, (Program.Yields.get s).bind ?_, .inl ⟨rfl, rfl⟩⟩
          rw [hfound]
          simp only [hskip', Bool.false_eq_true, if_false, update, hwrite]
          exact Program.Yields.pure false s
    | none =>
      by_cases hwrite : steps.write = true
      · refine ⟨true, { s with journal := s.journal ++ [newRow s.nextId domain (entryOf mysql uri keyStartDate priority)]
                               nextId := s.nextId + 1 }, (Program.Yields.get s).bind ?_,
          .inr (.inr ⟨rfl, hselect, hwrite, fun r' hr' => (by cases hr'), .insert hfound rfl⟩)⟩
        rw [hfound]
        simp only [insert, hwrite, if_true]
        exact (Program.Yields.modify _ s).bind (Program.Yields.pure true _)
      · refine ⟨false, s, (Program.Yields.get s).bind ?_, .inl ⟨rfl, rfl⟩⟩
        rw [hfound]
        simp only [insert, hwrite, if_false, Bool.false_eq_true]
        exact Program.Yields.pure false s
  · rw [if_neg hselect]
    exact ⟨false, s, Program.Yields.pure false s, .inl ⟨rfl, rfl⟩⟩

/-- The state in which the statements of a message are run. -/
def begun (s : Snaplistd) (steps : SqlSteps) : Snaplistd :=
  { s with saved := if steps.transaction then some s.journal else none }

theorem transaction_begun (hsaved : s.saved = none) : Program.Yields (transaction steps) s () (begun s steps) := by
  have hstate : (if steps.transaction then { s with saved := some s.journal } else s) = begun s steps := by
    unfold begun
    split
    · rfl
    · rw [← hsaved]
  rw [← hstate]
  exact Program.Yields.modify _ s

theorem end_begun (hsaved : s.saved = none) : { begun s steps with saved := none } = s := by
  rw [← hsaved]
  rfl

/-- The end of the handler: the transaction is committed or rolled back. -/
def finish (steps : SqlSteps) (success : Bool) : Program Snaplistd Bool := do
  let committed ← (if success then commit steps else pure false : Program Snaplistd Bool)
  if committed then pure true
  else do
    rollback
    pure false

theorem finish_commit (hcommit : steps.commit = true) (t : Snaplistd) :
    Program.Yields (finish steps true) t true { t with saved := none } := by
  unfold finish commit
  rw [if_pos rfl, if_pos hcommit]
  exact Program.Yields.bind ((Program.Yields.modify _ t).bind (Program.Yields.pure true _)) (Program.Yields.pure true _)

/-- Without a commit the journal is as it was before the transaction, or before a transaction that did not start. -/
theorem finish_rollback (s : Snaplistd) (success : Bool) (h : success = true → steps.commit = false)
    (ht : t.saved = some s.journal ∨ t.saved = none ∧ t.journal = s.journal) :
    ∃ u, Program.Yields (finish steps success) t false u ∧ u.journal = s.journal ∧ u.saved = none ∧ u.sent = t.sent ∧
      u.nextId = t.nextId := by
  have hcommitted : Program.Yields (if success then commit steps else pure false) t false t := by
    unfold commit
    cases success with
    | false => exact Program.Yields.pure false t
    | true =>
      rw [h rfl]
      exact Program.Yields.pure false t
  have hend : ∀ u, Program.Yields rollback t () u → Program.Yields (finish steps success) t false u := fun u hu => by
    unfold finish
    refine hcommitted.bind ?_
    simp only [Bool.false_eq_true, if_false]
    exact hu.bind (Program.Yields.pure false u)
  obtain ⟨journal, nextId, saved, sent⟩ := t
  simp only at ht
  rcases ht with rfl | ⟨rfl, rfl⟩
  · exact ⟨_, hend _ (Program.Yields.modify _ _), rfl, rfl, rfl, rfl⟩
  · exact ⟨_, hend _ (Program.Yields.modify _ _), rfl, rfl, rfl, rfl⟩

/-- What is left when a message was handled with the database open: the journal as it was, or with the data in it. -/
inductive Saved (mysql : Mysql κ) (domain : QString) (d : ListEntry) (s : Snaplistd) : Bool → Snaplistd → Prop
  | failed (t : Snaplistd) (journal : t.journal = s.journal) (saved : t.saved = none) (sent : t.sent = s.sent)
      (nextId : s.nextId ≤ t.nextId) : Saved mysql domain d s false t
  | current (r : JournalRow) (found : s.select mysql d.uri = some r)
      (le : d.keyStartDate ≤ r.keyStartDate ∧ r.priority ≤ d.priority) : Saved mysql domain d s true s
  | wrote (t : Snaplistd) (wrote : Wrote mysql domain d s t) : Saved mysql domain d s true t

/-- The data that was written is in the journal once the transaction has ended. -/
theorem Wrote.begun {d : ListEntry} (hsaved : s.saved = none) (h : Wrote mysql domain d (s.begun steps) t) :
    t.saved = (s.begun steps).saved ∧ t.sent = s.sent ∧ s.nextId ≤ t.nextId ∧
      Wrote mysql domain d s { t with saved := none } := by
  cases h with
  | update r found eq =>
    subst eq
    refine ⟨rfl, rfl, le_rfl, .update r found ?_⟩
    rw [← hsaved]
    rfl
  | insert found eq =>
    subst eq
    refine ⟨rfl, rfl, Nat.le_succ _, .insert found ?_⟩
    rw [← hsaved]
    rfl

theorem save_saved (hsaved : s.saved = none)
    (h : Readable mysql tld getservbyname s steps message uri keyStartDate priority domain) :
    ∃ b u, Program.Yields (save mysql tld getservbyname steps message) s b u ∧
      Saved mysql domain (entryOf mysql uri keyStartDate priority) s b u := by
  obtain ⟨success, t, hstore, hcases⟩ := store_cases mysql steps domain priority keyStartDate uri (begun s steps)
  have hundo : (begun s steps).saved = some s.journal ∨ (begun s steps).saved = none ∧ (begun s steps).journal = s.journal := by
    unfold begun
    split
    · exact .inl rfl
    · exact .inr ⟨rfl, rfl⟩
  have hend : ∃ b u, Program.Yields (finish steps success) t b u ∧
      Saved mysql domain (entryOf mysql uri keyStartDate priority) s b u := by
    rcases hcases with ⟨rfl, rfl⟩ | ⟨rfl, rfl, r, hfound, hskip⟩ | ⟨rfl, hselect, hwrite, hrequired, hwrote⟩
    · obtain ⟨u, hfinish, hjournal, hnone, hsent, hid⟩ := finish_rollback s false (fun h => by cases h) hundo
      exact ⟨false, u, hfinish, .failed u hjournal hnone hsent hid.ge⟩
    · by_cases hcommit : steps.commit = true
      · refine ⟨true, _, finish_commit hcommit _, ?_⟩
        rw [end_begun hsaved]
        exact .current r hfound (h.numbers r hfound hskip)
      · obtain ⟨u, hfinish, hjournal, hnone, hsent, hid⟩ :=
          finish_rollback s true (fun _ => Bool.eq_false_iff.mpr hcommit) hundo
        exact ⟨false, u, hfinish, .failed u hjournal hnone hsent hid.ge⟩
    · obtain ⟨hstill, hsent, hid, hwrote⟩ := hwrote.begun hsaved
      by_cases hcommit : steps.commit = true
      · exact ⟨true, _, finish_commit hcommit t, .wrote _ hwrote⟩
      · have hcommit' := Bool.eq_false_iff.mpr hcommit
        have htransaction : steps.transaction = true := by
          by_contra hfalse
          obtain ⟨r, hfound, hskip⟩ := h.transaction (Bool.eq_false_iff.mpr hfalse) hcommit' hselect hwrite
          rw [hrequired r hfound] at hskip
          cases hskip
        have hsavedRows : t.saved = some s.journal := by
          rw [hstill, begun, htransaction]
          rfl
        obtain ⟨u, hfinish, hjournal, hnone, hsent', hid'⟩ :=
          finish_rollback s true (fun _ => hcommit') (.inl hsavedRows)
        exact ⟨false, u, hfinish, .failed u hjournal hnone (hsent'.trans hsent) (hid.trans hid'.ge)⟩
  obtain ⟨b, u, hfinish, hresult⟩ := hend
  refine ⟨b, u, ?_, hresult⟩
  unfold save
  rw [h.hasUri, h.hasKeyStartDate, h.hasPriority]
  refine (Program.Yields.ofOption _ s).bind ((Program.Yields.ofOption _ s).bind ((Program.Yields.ofOption _ s).bind ?_))
  rw [h.decodes]
  exact (Program.Yields.ofOption _ s).bind ((transaction_begun hsaved).bind (hstore.bind hfinish))

theorem replyTo_command (command : QString) (message : SnapCommunicatorMessage) :
    SnapCommunicatorMessage.replyTo { command } message =
      (SnapCommunicatorMessage.replyTo {} message).map fun m => { m with command } := by
  unfold SnapCommunicatorMessage.replyTo SnapCommunicatorMessage.setServer SnapCommunicatorMessage.setService
  simp only
  split
  · simp only [Option.bind_eq_bind, Option.bind_some]
    split
    · rfl
    · split <;> rfl
  · split
    · simp only [Option.bind_eq_bind, Option.bind_some]
      split
      · rfl
      · split <;> rfl
    · rfl

theorem Saved.sent {d : ListEntry} {b : Bool} (h : Saved mysql domain d s b t) : t.sent = s.sent := by
  cases h with
  | failed _ _ _ sent => exact sent
  | current r found le => rfl
  | wrote _ hwrote =>
    cases hwrote with
    | update r found eq => rw [eq]
    | insert found eq => rw [eq]

/-- What a message that can be handled leaves, and its only answer. -/
theorem step_listData (hsaved : s.saved = none) (h : Handled mysql tld getservbyname s (.listData steps message)) :
    ∃ domain t id reply, Saved mysql domain (entry mysql message) s (committed mysql tld getservbyname s steps message) t ∧
      message.getParameter "listdata_id" = some id ∧
      SnapCommunicatorMessage.replyTo { command := (if committed mysql tld getservbyname s steps message
        then "GOTLISTDATA" else "LISTDATAFAILED").toList } message = some reply ∧
      step mysql tld getservbyname s (.listData steps message) =
        { t with sent := s.sent ++ [reply.withParameter "listdata_id" id] } := by
  obtain ⟨hreply, hid, hopen⟩ := h
  obtain ⟨id, hid⟩ := Option.isSome_iff_exists.mp hid
  obtain ⟨m, hm⟩ := Option.isSome_iff_exists.mp hreply
  obtain ⟨domain, t, hyields, hresult⟩ : ∃ domain t,
      Program.Yields (if steps.isOpen then save mysql tld getservbyname steps message else pure false) s
        (committed mysql tld getservbyname s steps message) t ∧
      Saved mysql domain (entry mysql message) s (committed mysql tld getservbyname s steps message) t := by
    unfold committed
    cases hisOpen : steps.isOpen with
    | false => exact ⟨[], s, Program.Yields.pure false s, .failed s rfl hsaved rfl le_rfl⟩
    | true =>
      obtain ⟨uri, keyStartDate, priority, domain, hreadable⟩ := hopen hisOpen
      obtain ⟨b, t, hyields, hresult⟩ := save_saved hsaved hreadable
      have hentry : entryOf mysql uri keyStartDate priority = entry mysql message := by
        unfold entryOf entry
        rw [hreadable.hasUri, hreadable.hasKeyStartDate, hreadable.hasPriority]
        rfl
      rw [hentry] at hresult
      refine ⟨domain, t, ?_⟩
      rw [hyields.value]
      exact ⟨hyields, hresult⟩
  refine ⟨domain, t, id, { m with command := _ }, hresult, hid, by rw [replyTo_command, hm]; rfl, ?_⟩
  have hstep : step mysql tld getservbyname s (.listData steps message) =
      (listData mysql tld getservbyname steps message).exec s := rfl
  rw [← hresult.sent, hstep, listData, Program.exec_bind hyields, reply, replyTo_command, hm, hid, Option.map_some]
  rw [Program.exec_bind (Program.Yields.ofOption _ t), Program.exec_bind (Program.Yields.ofOption _ t)]
  rfl

/-! ### What every event keeps -/

/-- No transaction is open between two events, ids are used once, and a URI has one new row. -/
structure Consistent (mysql : Mysql κ) (s : Snaplistd) : Prop where
  saved : s.saved = none
  fresh : ∀ r ∈ s.journal, r.id < s.nextId
  ids : s.journal.Pairwise fun r r' => r.id ≠ r'.id
  oneRow : OneRow mysql s

omit [DecidableEq κ] in
theorem Consistent.eq_of_new {r r' : JournalRow} (h : Consistent mysql s) (hr : r ∈ s.journal) (hr' : r' ∈ s.journal)
    (hnew : r.status = none ∧ r'.status = none) (hsame : mysql.collate r.uri = mysql.collate r'.uri) : r = r' := by
  by_contra hne
  have hsymm : Std.Symm fun r r' : JournalRow =>
      ¬ (mysql.collate r.uri = mysql.collate r'.uri ∧ r.status = none ∧ r'.status = none) :=
    ⟨fun _ _ h hc => h ⟨hc.1.symm, hc.2.2, hc.2.1⟩⟩
  exact h.oneRow.forall hr hr' hne ⟨hsame, hnew⟩

omit [DecidableEq κ] in
theorem Consistent.eq_of_id {r r' : JournalRow} (h : Consistent mysql s) (hr : r ∈ s.journal) (hr' : r' ∈ s.journal)
    (hid : r.id = r'.id) : r = r' := by
  by_contra hne
  have hsymm : Std.Symm fun r r' : JournalRow => r.id ≠ r'.id := ⟨fun _ _ h => h.symm⟩
  exact h.ids.forall hr hr' hne hid

theorem select_some {r : JournalRow} (h : s.select mysql uri = some r) :
    r ∈ s.journal ∧ mysql.collate r.uri = mysql.collate uri ∧ r.status = none := by
  refine ⟨List.mem_of_find?_eq_some h, ?_⟩
  have hfound := List.find?_some h
  exact of_decide_eq_true hfound

theorem select_none (h : s.select mysql uri = none) :
    ∀ r ∈ s.journal, ¬ (mysql.collate r.uri = mysql.collate uri ∧ r.status = none) := fun r hr hc => by
  have hfound := List.find?_eq_none.mp h r hr
  exact hfound (decide_eq_true hc)

omit [DecidableEq κ] in
/-- The rows keep their ids, their URIs and, if they are new, were new before. -/
theorem Consistent.map {f : JournalRow → JournalRow} (h : Consistent mysql s) (hid : ∀ r, (f r).id = r.id)
    (huri : ∀ r, (f r).uri = r.uri) (hnew : ∀ r, (f r).status = none → r.status = none) (sent : List SnapCommunicatorMessage) :
    Consistent mysql { s with journal := s.journal.map f, sent } := by
  refine ⟨h.saved, fun r hr => ?_, ?_, ?_⟩
  · obtain ⟨r₀, hr₀, rfl⟩ := List.mem_map.mp hr
    rw [hid]
    exact h.fresh r₀ hr₀
  · refine List.pairwise_map.mpr (h.ids.imp fun hne => ?_)
    rw [hid, hid]
    exact hne
  · refine List.pairwise_map.mpr (h.oneRow.imp fun hne hc => hne ?_)
    rw [huri, huri] at hc
    exact ⟨hc.1, hnew _ hc.2.1, hnew _ hc.2.2⟩

theorem Consistent.saved_step {d : ListEntry} {b : Bool} (h : Consistent mysql s) (ht : Saved mysql domain d s b t)
    (sent : List SnapCommunicatorMessage) : Consistent mysql { t with sent } := by
  cases ht with
  | failed _ hjournal hsaved _ hnext =>
    refine ⟨hsaved, fun r hr => ?_, ?_, ?_⟩
    · rw [hjournal] at hr
      exact (h.fresh r hr).trans_le hnext
    · rw [hjournal]
      exact h.ids
    · rw [OneRow, hjournal]
      exact h.oneRow
  | current => exact ⟨h.saved, h.fresh, h.ids, h.oneRow⟩
  | wrote _ hwrote =>
    cases hwrote with
    | update r found eq =>
      subst eq
      refine h.map (fun r => ?_) (fun r => ?_) (fun r hr => ?_) sent
      · split <;> rfl
      · split <;> rfl
      · split at hr <;> exact hr
    | insert found eq =>
      subst eq
      refine ⟨h.saved, fun r hr => ?_, ?_, ?_⟩
      · rcases List.mem_append.mp hr with hr | hr
        · exact (h.fresh r hr).trans (Nat.lt_succ_self _)
        · rw [List.mem_singleton.mp hr]
          exact Nat.lt_succ_self _
      · refine List.pairwise_append.mpr ⟨h.ids, List.pairwise_singleton _ _, fun r hr r' hr' => ?_⟩
        rw [List.mem_singleton.mp hr']
        exact (h.fresh r hr).ne
      · refine List.pairwise_append.mpr ⟨h.oneRow, List.pairwise_singleton _ _, fun r hr r' hr' hc => ?_⟩
        rw [List.mem_singleton.mp hr'] at hc
        exact select_none found r hr ⟨hc.1, hc.2.1⟩

theorem Consistent.step {e : ListEvent} (h : Consistent mysql s) (he : Handled mysql tld getservbyname s e) :
    Consistent mysql (step mysql tld getservbyname s e) := by
  cases e with
  | listData steps message =>
    obtain ⟨domain, t, id, reply, hresult, -, -, heq⟩ := step_listData h.saved he
    rw [heq]
    exact h.saved_step hresult _
  | setStatus id status =>
    refine h.map (fun r => ?_) (fun r => ?_) (fun r hr => ?_) s.sent
    · split <;> rfl
    · split <;> rfl
    · split at hr
      · cases hr
      · exact hr
  | delete id =>
    exact ⟨h.saved, fun r hr => h.fresh r (List.mem_of_mem_filter hr), h.ids.filter _, h.oneRow.filter _⟩

/-- A new row after an event was there before, or it is the one that the event inserted. -/
inductive Continues (mysql : Mysql κ) (s : Snaplistd) (ds : List ListEntry) (r : JournalRow) : Prop
  | same (mem : r ∈ s.journal) (other : ∀ d ∈ ds, mysql.collate d.uri ≠ mysql.collate r.uri)
  | raised (d : ListEntry) (r₀ : JournalRow) (eq : ds = [d]) (mem : r₀ ∈ s.journal) (new : r₀.status = none)
      (uri : mysql.collate d.uri = mysql.collate r₀.uri) (greatest : r = Snaplistd.greatest d.keyStartDate d.priority r₀)
  | inserted (d : ListEntry) (domain : QString) (eq : ds = [d]) (row : r = newRow s.nextId domain d)

theorem greatest_self {r : JournalRow} {k p : Int} (h : k ≤ r.keyStartDate ∧ r.priority ≤ p) : greatest k p r = r := by
  unfold greatest
  rw [max_eq_left h.1, min_eq_left h.2]

theorem continues_of_saved {d : ListEntry} {b : Bool} {r : JournalRow} (h : Consistent mysql s)
    (ht : Saved mysql domain d s b t) (hr : r ∈ t.journal) (hnew : r.status = none) :
    Continues mysql s (if b then [d] else []) r := by
  have hother : ∀ {r r₀ : JournalRow}, s.select mysql d.uri = some r₀ → r ∈ s.journal → r.status = none → r ≠ r₀ →
      ∀ d' ∈ [d], mysql.collate d'.uri ≠ mysql.collate r.uri := fun hfound hr hnew hne d' hd' hc => by
    obtain ⟨hr₀, huri, hnew₀⟩ := select_some hfound
    rw [List.mem_singleton.mp hd'] at hc
    exact hne (h.eq_of_new hr hr₀ ⟨hnew, hnew₀⟩ (hc.symm.trans huri.symm))
  cases ht with
  | failed _ hjournal =>
    rw [hjournal] at hr
    exact .same hr fun d hd => by cases hd
  | current r₀ found le =>
    by_cases heq : r = r₀
    · obtain ⟨hr₀, huri, hnew₀⟩ := select_some found
      exact .raised d r₀ rfl hr₀ hnew₀ huri.symm (by rw [greatest_self le, heq])
    · exact .same hr (hother found hr hnew heq)
  | wrote _ hwrote =>
    cases hwrote with
    | update r₀ found eq =>
      subst eq
      obtain ⟨hr₀, huri, hnew₀⟩ := select_some found
      obtain ⟨r₁, hr₁, heq⟩ := List.mem_map.mp hr
      by_cases hid : r₁.id = r₀.id
      · rw [if_pos hid, h.eq_of_id hr₁ hr₀ hid] at heq
        exact .raised d r₀ rfl hr₀ hnew₀ huri.symm heq.symm
      · rw [if_neg hid] at heq
        subst heq
        exact .same hr₁ (hother found hr₁ hnew fun h => hid (by rw [h]))
    | insert found eq =>
      subst eq
      rcases List.mem_append.mp hr with hr | hr
      · refine .same hr fun d' hd' hc => ?_
        rw [List.mem_singleton.mp hd'] at hc
        exact select_none found r hr ⟨hc.symm, hnew⟩
      · exact .inserted d domain rfl (List.mem_singleton.mp hr)

theorem continues_step {e : ListEvent} {r : JournalRow} (h : Consistent mysql s) (he : Handled mysql tld getservbyname s e)
    (hr : r ∈ (Snaplistd.step mysql tld getservbyname s e).journal) (hnew : r.status = none) :
    Continues mysql s (commits mysql tld getservbyname s e) r := by
  cases e with
  | listData steps message =>
    obtain ⟨domain, t, id, reply, hresult, -, -, heq⟩ := step_listData h.saved he
    rw [heq] at hr
    exact continues_of_saved h hresult hr hnew
  | setStatus id status =>
    obtain ⟨r₀, hr₀, heq⟩ := List.mem_map.mp hr
    split at heq
    · subst heq
      cases hnew
    · subst heq
      exact .same hr₀ fun d hd => by cases hd
  | delete id => exact .same (List.mem_of_mem_filter hr) fun d hd => by cases hd

/-! ### Runs -/

section
omit [DecidableEq κ]
variable {l : List ListEntry} {r : JournalRow}

theorem Sums.other (h : Sums mysql l r) {ds : List ListEntry} (hother : ∀ d ∈ ds, mysql.collate d.uri ≠ mysql.collate r.uri) :
    Sums mysql (l ++ ds) r := by
  have hmem : ∀ d, (d ∈ l ++ ds ∧ mysql.collate d.uri = mysql.collate r.uri) ↔ d ∈ l ∧ mysql.collate d.uri = mysql.collate r.uri :=
    fun d => and_congr_left fun hd => by
      rw [List.mem_append]
      exact or_iff_left fun hds => hother d hds hd
  refine ⟨?_, ?_⟩
  · simpa only [← and_assoc, hmem] using h.keyStartDate
  · simpa only [← and_assoc, hmem] using h.priority

theorem Sums.raise (h : Sums mysql l r) {d : ListEntry} (huri : mysql.collate d.uri = mysql.collate r.uri) :
    Sums mysql (l ++ [d]) (greatest d.keyStartDate d.priority r) := by
  obtain ⟨⟨⟨dk, hdk, hdku, hk⟩, hkmax⟩, ⟨dp, hdp, hdpu, hp⟩, hpmin⟩ := h
  refine ⟨⟨?_, ?_⟩, ?_, ?_⟩
  · rcases le_total r.keyStartDate d.keyStartDate with hle | hle
    · exact ⟨d, List.mem_append_right _ (List.mem_singleton_self d), huri, (max_eq_right hle).symm⟩
    · exact ⟨dk, List.mem_append_left _ hdk, hdku, hk.trans (max_eq_left hle).symm⟩
  · rintro _ ⟨d', hd', hu, rfl⟩
    rcases List.mem_append.mp hd' with hd' | hd'
    · exact (hkmax ⟨d', hd', hu, rfl⟩).trans (le_max_left _ _)
    · rw [List.mem_singleton.mp hd']
      exact le_max_right _ _
  · rcases le_total r.priority d.priority with hle | hle
    · exact ⟨dp, List.mem_append_left _ hdp, hdpu, hp.trans (min_eq_left hle).symm⟩
    · exact ⟨d, List.mem_append_right _ (List.mem_singleton_self d), huri, (min_eq_right hle).symm⟩
  · rintro _ ⟨d', hd', hu, rfl⟩
    rcases List.mem_append.mp hd' with hd' | hd'
    · exact (min_le_left _ _).trans (hpmin ⟨d', hd', hu, rfl⟩)
    · rw [List.mem_singleton.mp hd']
      exact min_le_right _ _

theorem sums_newRow (id : Nat) (domain : QString) (d : ListEntry) : Sums mysql [d] (newRow id domain d) := by
  refine ⟨⟨⟨d, List.mem_singleton_self d, rfl, rfl⟩, ?_⟩, ⟨d, List.mem_singleton_self d, rfl, rfl⟩, ?_⟩
  · rintro _ ⟨d', hd', -, rfl⟩
    rw [List.mem_singleton.mp hd']
    exact le_rfl
  · rintro _ ⟨d', hd', -, rfl⟩
    rw [List.mem_singleton.mp hd']
    exact le_rfl

end

variable {es es' : List ListEvent} {e : ListEvent} {r : JournalRow}

theorem commitsOf_snoc : commitsOf mysql tld getservbyname s (es ++ [e]) = commitsOf mysql tld getservbyname s es ++
    commits mysql tld getservbyname (Trace.after (step mysql tld getservbyname) s es) e := by
  induction es generalizing s with
  | nil => exact List.append_nil _
  | cons e₁ es ih => rw [List.cons_append, commitsOf, commitsOf, ih, List.append_assoc, Trace.after_cons]

/-- A row that is kept by one event more sums up one more list of data. -/
theorem Accounted.snoc {r' : JournalRow} (h : Accounted mysql tld getservbyname es r) (hid : r'.id = r.id)
    (hsums : ∀ l, Sums mysql l r →
      Sums mysql (l ++ commits mysql tld getservbyname (Trace.after (step mysql tld getservbyname) {} es) e) r') :
    Accounted mysql tld getservbyname (es ++ [e]) r' := by
  obtain ⟨es₁, e₁, es₂, rfl, hbefore, hafter, hsum⟩ := h
  refine ⟨es₁, e₁, es₂ ++ [e], by simp, by rwa [hid], by rwa [hid], ?_⟩
  rw [← List.cons_append, commitsOf_snoc, ← Trace.after_append]
  exact hsums _ hsum

theorem accounted_inserted {d : ListEntry} {domain : QString}
    (h : Consistent mysql (Trace.after (step mysql tld getservbyname) {} es))
    (hcommits : commits mysql tld getservbyname (Trace.after (step mysql tld getservbyname) {} es) e = [d])
    (hrow : r = newRow (Trace.after (step mysql tld getservbyname) {} es).nextId domain d)
    (hr : r ∈ (Trace.after (step mysql tld getservbyname) {} (es ++ [e])).journal) :
    Accounted mysql tld getservbyname (es ++ [e]) r := by
  refine ⟨es, e, [], rfl, fun r' hr' => ?_, ⟨r, hr, rfl⟩, ?_⟩
  · rw [hrow]
    exact (h.fresh r' hr').ne
  · rw [commitsOf, commitsOf, List.append_nil, hcommits, hrow]
    exact sums_newRow _ _ d

omit [DecidableEq κ] in
theorem consistent_start : Consistent mysql {} :=
  ⟨rfl, fun r hr => (by cases hr), List.Pairwise.nil, List.Pairwise.nil⟩

theorem accounted_of_handled (h : Trace.Along (step mysql tld getservbyname) (Handled mysql tld getservbyname) {} es) :
    ∀ r ∈ (Trace.after (step mysql tld getservbyname) {} es).journal, r.status = none →
      Accounted mysql tld getservbyname es r := by
  refine Trace.Along.snoc_induction (motive := fun es =>
    ∀ r ∈ (Trace.after (step mysql tld getservbyname) {} es).journal, r.status = none →
      Accounted mysql tld getservbyname es r) (fun r hr => by cases hr) (fun es e hes he ih r hr hnew => ?_) h
  have hconsistent : Consistent mysql (Trace.after (step mysql tld getservbyname) {} es) :=
    hes.invariant consistent_start fun s e hs he => hs.step he
  have hr' := hr
  rw [Trace.after_snoc] at hr'
  cases continues_step hconsistent he hr' hnew with
  | same mem other => exact (ih r mem hnew).snoc rfl fun l hl => hl.other other
  | raised d r₀ eq mem new uri greatest =>
    refine (ih r₀ mem new).snoc (by rw [greatest]; rfl) fun l hl => ?_
    rw [eq, greatest]
    exact hl.raise uri
  | inserted d domain eq row => exact accounted_inserted hconsistent eq row hr

/-- Data that was committed is in the journal. -/
theorem Saved.stored {d : ListEntry} (h : Saved mysql domain d s true t) : Stored mysql t d := by
  cases h with
  | current r found le =>
    obtain ⟨hr, huri, hnew⟩ := select_some found
    exact ⟨r, hr, hnew, huri, le⟩
  | wrote _ hwrote =>
    cases hwrote with
    | update r found eq =>
      obtain ⟨hr, huri, hnew⟩ := select_some found
      subst eq
      refine ⟨greatest d.keyStartDate d.priority r, List.mem_map.mpr ⟨r, hr, if_pos rfl⟩, hnew, huri, ?_⟩
      exact ⟨le_max_right _ _, min_le_right _ _⟩
    | insert found eq =>
      subst eq
      exact ⟨_, List.mem_append_right _ (List.mem_singleton_self _), rfl, rfl, le_rfl, le_rfl⟩

theorem Saved.journal {d : ListEntry} (h : Saved mysql domain d s false t) : t.journal = s.journal := by
  cases h with
  | failed _ hjournal => exact hjournal

theorem answered_of_handled (hs : Consistent mysql s) (he : Handled mysql tld getservbyname s e) :
    Answered mysql tld getservbyname s e := by
  cases e with
  | listData steps message =>
    obtain ⟨domain, t, id, reply, hresult, hid, hreply, heq⟩ := step_listData hs.saved he
    refine ⟨⟨id, reply, hid, hreply, by rw [heq]⟩, ?_⟩
    rw [heq]
    cases hcommitted : committed mysql tld getservbyname s steps message with
    | true =>
      rw [hcommitted] at hresult
      exact hresult.stored
    | false =>
      rw [hcommitted] at hresult
      exact hresult.journal
  | setStatus id status => rfl
  | delete id => rfl

/-- The journal is kept by every run whose messages can be handled. -/
theorem journalKept_of_handled (mysql : Mysql κ) (tld getservbyname : QString → Option Nat) (es : List ListEvent)
    (h : Trace.Along (step mysql tld getservbyname) (Handled mysql tld getservbyname) {} es) :
    JournalKept mysql tld getservbyname es where
  oneRow := (h.invariant consistent_start fun _ _ hs he => hs.step he).oneRow
  accounted := accounted_of_handled h
  answered := h.mono consistent_start fun _ _ hs he => ⟨hs.step he, answered_of_handled hs he⟩

/-! ### A page and its journal -/

/-- A message about a page. -/
def pageMessage (uri keyStartDate priority : String) : SnapCommunicatorMessage :=
  SnapCommunicatorMessage.withParameter (.withParameter (.withParameter (.withParameter { command := "LISTDATA".toList }
    "uri" uri.toList) "key_start_date" keyStartDate.toList) "priority" priority.toList) "listdata_id" "7".toList

/-- A server that compares texts as they are and reads numbers as Qt does. -/
def plainMysql : Mysql QString where
  integer := fun s => (toLongLong s).getD 0
  collate := id

theorem journalKept_page : JournalKept plainMysql (fun _ => none) (fun _ => none)
    [.listData {} (pageMessage "a" "10" "5"), .listData { commit := false } (pageMessage "a" "9" "4"), .setStatus 1 2] := by
  refine journalKept_of_handled plainMysql (fun _ => none) (fun _ => none) _ ⟨?_, ?_, trivial, trivial⟩
  · refine ⟨by decide, by decide, fun _ => ⟨"a".toList, "10".toList, "5".toList, "http:///".toList, by decide, by decide,
      by decide, by decide, fun r hr => ?_, fun h => by cases h⟩⟩
    cases hr
  · refine ⟨by decide, by decide, fun _ => ⟨"a".toList, "9".toList, "4".toList, "http:///".toList, by decide, by decide,
      by decide, by decide, fun r hr => ?_, fun h => by cases h⟩⟩
    have hrow : select plainMysql (step plainMysql (fun _ => none) (fun _ => none) {}
        (.listData {} (pageMessage "a" "10" "5"))) "a".toList =
        some { id := 1, domain := "http:///".toList, priority := 5, keyStartDate := 10, uri := "a".toList } := by decide
    rw [hrow] at hr
    cases hr
    decide

/-- A message whose URI cannot be decoded is not answered. -/
theorem not_journalKept : ¬ ∀ es, JournalKept plainMysql (fun name => some (name.length - 4)) (fun _ => none) es := by
  intro hall
  obtain ⟨⟨⟨id, reply, -, -, hsent⟩, -⟩, -⟩ := (hall [.listData {} (pageMessage "http://a.com/%zz" "10" "5")]).answered
  have hnothing : (step plainMysql (fun name => some (name.length - 4)) (fun _ => none) {}
      (.listData {} (pageMessage "http://a.com/%zz" "10" "5"))).sent = [] := by decide
  rw [hnothing] at hsent
  cases hsent

end Snaplistd
end Snapwebsites
