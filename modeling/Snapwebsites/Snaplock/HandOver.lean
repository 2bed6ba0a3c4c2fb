import Snapwebsites.Snaplock.Serials

/-! # The hand-over of a ticket

What one leader writes with `serialize()`, another reads with `msg_lock_tickets()`. A ticket that is not locked, or whose owner is no
leader, is read but not kept: the LOCK that goes with it brings it back. The other tickets are the same ones again. -/

namespace Snapwebsites
open QString

/-! ### What is shown -/

/-- A text that is neither written with another bar nor broken at the end of a line. -/
structure Unbroken (s : QString) : Prop where
  bar : '|' ∉ s
  newline : '\n' ∉ s

namespace SnaplockTicket

/-- The texts of the ticket are unbroken, and its numbers are those of their types. -/
structure Written (t : SnaplockTicket) : Prop where
  objectName : Unbroken t.objectName
  serverName : Unbroken t.serverName
  serviceName : Unbroken t.serviceName
  owner : Unbroken t.owner
  enteringKey : Unbroken t.enteringKey
  ticketKey : Unbroken t.ticketKey
  obtentionTimeout : -0x8000000000000000 ≤ t.obtentionTimeout ∧ t.obtentionTimeout < 0x8000000000000000
  lockTimeout : -0x8000000000000000 ≤ t.lockTimeout ∧ t.lockTimeout < 0x8000000000000000
  lockDuration : -0x80000000 ≤ t.lockDuration ∧ t.lockDuration < 0x80000000
  unlockDuration : -0x80000000 ≤ t.unlockDuration ∧ t.unlockDuration < 0x80000000
  serial : -0x80000000 ≤ t.serial ∧ t.serial < 0x80000000

/-- The ticket that another leader makes of the text: the alive timeout and the tickets that are still entering stay behind, and
the lock timeout is no smaller than that of a new ticket. -/
def handedOver (t : SnaplockTicket) : SnaplockTicket :=
  { t with aliveTimeout := 0, stillEntering := ∅, lockTimeout := max 0 t.lockTimeout, tag := 0 }

/-! ### The fields by their names -/

/-- The names in the order of `serialize()`, with and without a serial number. -/
def fieldNames (serial : Bool) : List QString :=
  ["object_name".toList, "obtention_timeout".toList, "lock_duration".toList, "unlock_duration".toList, "server_name".toList,
    "service_name".toList, "owner".toList] ++ (if serial then ["serial".toList] else []) ++
  ["entering_key".toList, "get_max_ticket".toList, "our_ticket".toList, "added_ticket".toList, "ticket_key".toList,
    "added_ticket_quorum".toList, "ticket_ready".toList, "locked".toList, "lock_timeout".toList, "lock_failed".toList]

def fieldValues (t : SnaplockTicket) (serial : Bool) : List QString :=
  [t.objectName, QString.number t.obtentionTimeout, QString.number t.lockDuration, QString.number t.unlockDuration, t.serverName,
    t.serviceName, t.owner] ++ (if serial then [QString.number t.serial] else []) ++
  [t.enteringKey, boolText t.getMaxTicket, QString.number t.ourTicket.toNat, boolText t.addedTicket, t.ticketKey,
    boolText t.addedTicketQuorum, boolText t.ticketReady, boolText t.locked, QString.number t.lockTimeout, boolText t.lockFailed]

/-- What a field does to a ticket, in the order of the names. -/
def setters (serial : Bool) : List (QString × (SnaplockTicket → QString → SnaplockTicket)) :=
  [("added_ticket".toList, fun t v => { t with addedTicket := t.addedTicket || decide (v = "true".toList) }),
    ("added_ticket_quorum".toList, fun t v => { t with addedTicketQuorum := t.addedTicketQuorum || decide (v = "true".toList) }),
    ("entering_key".toList, fun t v => { t with enteringKey := v }),
    ("get_max_ticket".toList, fun t v => { t with getMaxTicket := t.getMaxTicket || decide (v = "true".toList) }),
    ("lock_duration".toList, fun t v => { t with lockDuration := int32 (toLong v) }),
    ("lock_failed".toList, fun t v => { t with lockFailed := t.lockFailed || decide (v = "true".toList) }),
    ("lock_timeout".toList, fun t v => { t with lockTimeout := max t.lockTimeout (toLong v) }),
    ("locked".toList, fun t v => { t with locked := t.locked || decide (v = "true".toList) }),
    ("object_name".toList, fun t v => { t with objectName := v }),
    ("obtention_timeout".toList, fun t v => { t with obtentionTimeout := toLong v }),
    ("our_ticket".toList, fun t v => { t with ourTicket := UInt32.ofInt (toLong v) }),
    ("owner".toList, fun t v => { t with owner := v })] ++
  (if serial then [("serial".toList, fun t v => { t with serial := int32 (toLong v) })] else []) ++
  [("server_name".toList, fun t v => { t with serverName := v }),
    ("service_name".toList, fun t v => { t with serviceName := v }),
    ("ticket_key".toList, fun t v => { t with ticketKey := v }),
    ("ticket_ready".toList, fun t v => { t with ticketReady := t.ticketReady || decide (v = "true".toList) }),
    ("unlock_duration".toList, fun t v => { t with unlockDuration := int32 (toLong v) })]

/-- The places of the sorted names among those of `serialize()`. -/
def places (serial : Bool) : List Nat :=
  if serial then [11, 13, 8, 9, 2, 17, 16, 15, 0, 1, 10, 6, 7, 4, 5, 12, 14, 3] else [10, 12, 7, 8, 2, 16, 15, 14, 0, 1, 9, 6, 4, 5, 11, 13, 3]

theorem setField_setter (serial : Bool) : ∀ e ∈ setters serial, ∀ t v, t.setField e.1 v = e.2 t v := by
  unfold setters
  refine List.forall_mem_append.mpr ⟨List.forall_mem_append.mpr ⟨?_, ?_⟩, ?_⟩
  on_goal 2 => split
  all_goals repeat' refine List.forall_mem_cons.mpr ⟨fun t v => ?_, ?_⟩
  all_goals first
    | exact fun e he => absurd he List.not_mem_nil
    | dsimp only
      rw [setField]
      simp only [String.toList_inj]
      simp only [String.reduceEq, reduceIte]

theorem setField_empty (t : SnaplockTicket) (v : QString) : t.setField "".toList v = t := by
  rw [setField]
  simp only [String.toList_inj]
  simp only [String.reduceEq, reduceIte]

/-! ### The text -/

theorem sorted_names : ∀ serial, (SortedMap.insertAll (∅ : SortedMap QString Nat) (fieldNames serial).zipIdx).entries =
    ((setters serial).map (·.1)).zip (places serial) := by
  unfold fieldNames setters
  repeat rw [String.toList_ofList]
  decide

theorem names_unbroken : ∀ serial, ∀ n ∈ (setters serial).map (·.1), '|' ∉ n ∧ '=' ∉ n ∧ '\n' ∉ n := by
  unfold setters
  repeat rw [String.toList_ofList]
  decide

/-- The fields of the text, each with what it does. -/
def pairs (t : SnaplockTicket) (serial : Bool) : List ((QString × (SnaplockTicket → QString → SnaplockTicket)) × QString) :=
  (setters serial).zip ((places serial).map fun i => (t.fieldValues serial).getD i [])

theorem fields_eq (t : SnaplockTicket) : t.fields = SortedMap.insertAll ∅ ((fieldNames (decide (t.serial ≠ -1))).zipIdx.map
    (Prod.map id fun i => (t.fieldValues (decide (t.serial ≠ -1))).getD i [])) := by
  unfold fields
  by_cases h : t.serial ≠ -1
  · rw [if_pos h, decide_eq_true h]
    rfl
  · rw [if_neg h, decide_eq_false h]
    rfl

theorem entries_fields (t : SnaplockTicket) :
    t.fields.entries = (t.pairs (decide (t.serial ≠ -1))).map fun p => (p.1.1, p.2) := by
  have hempty : (∅ : SortedMap QString QString).entries = (∅ : SortedMap QString Nat).entries.map
      (Prod.map id fun i => (t.fieldValues (decide (t.serial ≠ -1))).getD i []) := rfl
  rw [fields_eq, SortedMap.entries_insertAll_map _ _ hempty, sorted_names, pairs, ← List.zip_map, List.map_id, List.zip_map_left]
  rfl

section Text
variable {t x : SnaplockTicket} {serial : Bool}

theorem replaceMany_bar : ∀ {s : QString}, '|' ∉ s → replaceMany s [("|".toList, "%7C".toList)] = s
  | [], _ => rfl
  | c :: s, h => by
    rw [List.mem_cons, not_or] at h
    have hnone : ([("|".toList, "%7C".toList)] : List (QString × QString)).find? (fun p => p.1.isPrefixOf (c :: s)) = none := by
      simpa using h.1
    have hcons : replaceMany (c :: s) [("|".toList, "%7C".toList)] = c :: replaceMany s [("|".toList, "%7C".toList)] := by
      rw [replaceMany, replaceManyFrom, hnone]
      rfl
    rw [hcons, replaceMany_bar h.2]

theorem splitOn_ended {c : Char} : ∀ {parts : List QString}, (∀ s ∈ parts, c ∉ s) →
    ((parts.map (· ++ [c])).flatten).splitOn c = parts ++ [[]]
  | [], _ => rfl
  | s :: parts, h => by
    obtain ⟨hs, hparts⟩ := List.forall_mem_cons.mp h
    rw [List.map_cons, List.flatten_cons, List.append_assoc, List.singleton_append, List.splitOn_append_cons_self_of_not_mem hs,
      splitOn_ended hparts, List.cons_append]

theorem nameValue_field {name : QString} (h : '=' ∉ name) (value : QString) : nameValue (name ++ '=' :: value) = (name, value) := by
  rw [nameValue, if_pos (by simp), takeWhile_ne_append h, dropWhile_ne_append h, takeWhile_ne_cons, dropWhile_ne_cons, List.append_nil]
  rfl

theorem unbroken_number (n : Int) : Unbroken (QString.number n) :=
  ⟨fun h => (mem_number h).elim (by decide) (by decide), fun h => (mem_number h).elim (by decide) (by decide)⟩

theorem unbroken_boolText (b : Bool) : Unbroken (boolText b) := by
  cases b
  · exact ⟨by decide, by decide⟩
  · exact ⟨by decide, by decide⟩

theorem Written.values (h : t.Written) (serial : Bool) : ∀ v ∈ t.fieldValues serial, Unbroken v := by
  have hserial : ∀ v ∈ (if serial then [QString.number t.serial] else []), Unbroken v := fun v hv => by
    split at hv
    · rw [List.mem_singleton.mp hv]
      exact unbroken_number _
    · cases hv
  unfold fieldValues
  refine List.forall_mem_append.mpr ⟨List.forall_mem_append.mpr ⟨?_, hserial⟩, ?_⟩
  · simp only [List.forall_mem_cons]
    exact ⟨h.objectName, unbroken_number _, unbroken_number _, unbroken_number _, h.serverName, h.serviceName, h.owner, nofun⟩
  · simp only [List.forall_mem_cons]
    exact ⟨h.enteringKey, unbroken_boolText _, unbroken_number _, unbroken_boolText _, h.ticketKey, unbroken_boolText _,
      unbroken_boolText _, unbroken_boolText _, unbroken_number _, unbroken_boolText _, nofun⟩

theorem Written.pairs (h : t.Written) {p : (QString × (SnaplockTicket → QString → SnaplockTicket)) × QString} (hp : p ∈ t.pairs serial) :
    p.1 ∈ setters serial ∧ Unbroken p.2 := by
  obtain ⟨hname, hvalue⟩ := List.of_mem_zip hp
  refine ⟨hname, ?_⟩
  obtain ⟨i, -, hi⟩ := List.mem_map.mp hvalue
  rw [← hi, List.getD_eq_getElem?_getD]
  cases hget : (t.fieldValues serial)[i]? with
  | none => exact ⟨List.not_mem_nil, List.not_mem_nil⟩
  | some v => exact h.values serial v (List.mem_of_getElem? hget)

/-- A field of the text. -/
def fieldText (e : QString × QString) : QString := e.1 ++ '=' :: e.2

/-- Neither the name nor the value of a field breaks the text. -/
theorem Written.entries (h : t.Written) {e : QString × QString} (he : e ∈ t.fields.entries) :
    '=' ∉ e.1 ∧ Unbroken (fieldText e) := by
  rw [entries_fields] at he
  obtain ⟨p, hp, rfl⟩ := List.mem_map.mp he
  obtain ⟨hname, hvalue⟩ := h.pairs hp
  obtain ⟨hbar, hequal, hnewline⟩ := names_unbroken _ p.1.1 (List.mem_map_of_mem hname)
  exact ⟨hequal, by simp [fieldText, hbar, hvalue.bar], by simp [fieldText, hnewline, hvalue.newline]⟩

theorem serialize_eq (h : t.Written) : t.serialize = ((t.fields.entries.map fieldText).map (· ++ ['|'])).flatten := by
  rw [serialize, List.map_map]
  congr 1
  refine List.map_congr_left fun e he => ?_
  have hbar : '|' ∉ e.2 := fun hmem => (h.entries he).2.bar (List.mem_append_right _ (List.mem_cons_of_mem _ hmem))
  show e.1 ++ '=' :: (replaceMany e.2 [("|".toList, "%7C".toList)] ++ ['|']) = (e.1 ++ '=' :: e.2) ++ ['|']
  rw [replaceMany_bar hbar, List.append_assoc, List.cons_append]

theorem splitOn_serialize (h : t.Written) : t.serialize.splitOn '|' = t.fields.entries.map fieldText ++ [[]] := by
  rw [serialize_eq h]
  refine splitOn_ended fun d hd => ?_
  obtain ⟨e, he, rfl⟩ := List.mem_map.mp hd
  exact (h.entries he).2.bar

theorem newline_notMem_serialize (h : t.Written) : '\n' ∉ t.serialize := by
  rw [serialize_eq h, List.map_map, List.mem_flatten]
  rintro ⟨d, hd, hmem⟩
  obtain ⟨e, he, rfl⟩ := List.mem_map.mp hd
  rcases List.mem_append.mp hmem with hmem | hmem
  · exact (h.entries he).2.newline hmem
  · exact absurd hmem (by decide)

/-- What is read is what was written. -/
theorem unserialize_serialize (h : t.Written) (x : SnaplockTicket) :
    x.unserialize t.serialize = (t.pairs (decide (t.serial ≠ -1))).foldl (fun x p => p.1.2 x p.2) x := by
  have hlast : nameValue [] = ("".toList, []) := by decide
  rw [unserialize, splitOn_serialize h, List.foldl_append, List.foldl_cons, List.foldl_nil, hlast, setField_empty, entries_fields,
    List.map_map, List.foldl_map]
  refine List.foldl_ext _ _ _ fun y p hp => ?_
  obtain ⟨hname, -⟩ := h.pairs hp
  have hfield : nameValue ((fieldText ∘ fun p : (QString × (SnaplockTicket → QString → SnaplockTicket)) × QString => (p.1.1, p.2)) p) =
      (p.1.1, p.2) := nameValue_field (names_unbroken _ p.1.1 (List.mem_map_of_mem hname)).2.1 p.2
  rw [hfield]
  exact setField_setter _ _ hname y p.2

theorem toLong_number {n : Int} (h : -0x8000000000000000 ≤ n ∧ n < 0x8000000000000000) : toLong (QString.number n) = n := by
  rw [toLong, toLongLong_of_number h.1 h.2, Option.getD_some]

theorem int32_toLong {n : Int} (h : -0x80000000 ≤ n ∧ n < 0x80000000) : int32 (toLong (QString.number n)) = n := by
  rw [toLong_number (by omega), int32, Int.bmod_def]
  omega

theorem ofInt_toLong (n : UInt32) : UInt32.ofInt (toLong (QString.number n.toNat)) = n := by
  have hn := n.toNat_lt
  have hmod : ((n.toNat : Int) % 2 ^ 32).toNat = n.toNat := by omega
  rw [toLong_number (by omega), UInt32.ofInt, hmod, UInt32.ofNat_toNat]

theorem isTrue_boolText (b : Bool) : decide (boolText b = "true".toList) = b := by
  cases b <;> decide

/-- What all the fields make of a ticket. -/
theorem foldl_pairs (t x : SnaplockTicket) (serial : Bool) : (t.pairs serial).foldl (fun x p => p.1.2 x p.2) x =
    { x with
      objectName := t.objectName
      obtentionTimeout := toLong (QString.number t.obtentionTimeout)
      lockDuration := int32 (toLong (QString.number t.lockDuration))
      unlockDuration := int32 (toLong (QString.number t.unlockDuration))
      serverName := t.serverName
      serviceName := t.serviceName
      owner := t.owner
      serial := if serial then int32 (toLong (QString.number t.serial)) else x.serial
      enteringKey := t.enteringKey
      getMaxTicket := x.getMaxTicket || decide (boolText t.getMaxTicket = "true".toList)
      ourTicket := UInt32.ofInt (toLong (QString.number t.ourTicket.toNat))
      addedTicket := x.addedTicket || decide (boolText t.addedTicket = "true".toList)
      ticketKey := t.ticketKey
      addedTicketQuorum := x.addedTicketQuorum || decide (boolText t.addedTicketQuorum = "true".toList)
      ticketReady := x.ticketReady || decide (boolText t.ticketReady = "true".toList)
      locked := x.locked || decide (boolText t.locked = "true".toList)
      lockTimeout := max x.lockTimeout (toLong (QString.number t.lockTimeout))
      lockFailed := x.lockFailed || decide (boolText t.lockFailed = "true".toList) } := by
  cases serial
  · rfl
  · rfl

/-- A new ticket becomes the one that was written. -/
theorem unserialize_make (h : t.Written) (obtentionTimeout lockDuration : Int) (serverName serviceName owner : QString) :
    (make t.objectName t.enteringKey obtentionTimeout lockDuration serverName serviceName owner 0).unserialize t.serialize =
      t.handedOver := by
  have hserial : (if decide (t.serial ≠ -1) = true then int32 (toLong (QString.number t.serial)) else -1) = t.serial := by
    rw [int32_toLong h.serial]
    by_cases hne : t.serial = -1
    · simp [hne]
    · simp [hne]
  rw [unserialize_serialize h, foldl_pairs]
  simp only [make, handedOver, toLong_number h.obtentionTimeout, toLong_number h.lockTimeout, int32_toLong h.lockDuration,
    int32_toLong h.unlockDuration, ofInt_toLong, isTrue_boolText, hserial, Bool.false_or]

end Text

end SnaplockTicket

namespace Snaplock

/-! ### The other leader -/

section HandOver
variable {now : Int} {s : Snaplock} {t : SnaplockTicket}

/-- The daemon has no ticket with the object name and the entering key. -/
structure Lacks (s : Snaplock) (objectName key : QString) : Prop where
  entering : (s.enteringOf objectName).find? key = none
  tickets : s.findEnteringKey (s.ticketsOf objectName) key = none

/-- One of the leaders has the name. -/
def leaderNamed (s : Snaplock) (name : QString) : Bool := s.leaders.any fun l => decide ((s.computer l).name = name)

/-- What `std::find_if()` finds for the name of a field. -/
theorem find?_field {m : SortedMap QString QString} {name value : QString} (hnames : ∀ e ∈ m.entries, '=' ∉ e.1)
    (h : (name, value) ∈ m.entries) :
    (m.entries.map SnaplockTicket.fieldText ++ [[]]).find? ((name ++ ['=']).isPrefixOf ·) = some (name ++ '=' :: value) := by
  have hprefix : (name ++ ['=']).isPrefixOf (name ++ '=' :: value) = true :=
    List.isPrefixOf_iff_prefix.mpr ⟨value, by rw [List.append_assoc, List.singleton_append]⟩
  cases hfind : (m.entries.map SnaplockTicket.fieldText ++ [[]]).find? ((name ++ ['=']).isPrefixOf ·) with
  | none =>
    refine absurd hprefix (List.find?_eq_none.mp hfind _ (List.mem_append_left _ ?_))
    exact List.mem_map_of_mem (f := SnaplockTicket.fieldText) h
  | some d =>
    obtain ⟨rest, hrest⟩ := List.isPrefixOf_iff_prefix.mp (List.find?_some hfind)
    rw [List.append_assoc, List.singleton_append] at hrest
    rcases List.mem_append.mp (List.mem_of_find?_eq_some hfind) with hd | hd
    · obtain ⟨e, he, rfl⟩ := List.mem_map.mp hd
      obtain ⟨hkey, -⟩ := append_cons_inj hrest (hnames _ h) (hnames e he)
      have hsame := SortedMap.find?_eq_some.mpr he
      rw [← hkey, SortedMap.find?_eq_some.mpr h] at hsame
      rw [SnaplockTicket.fieldText, ← hkey, Option.some.inj hsame]
    · rw [List.mem_singleton.mp hd] at hrest
      simp at hrest

theorem objectName_mem (t : SnaplockTicket) : ("object_name".toList, t.objectName) ∈ t.fields.entries := by
  rw [SnaplockTicket.entries_fields]
  refine List.mem_of_getElem? (i := 8) ?_
  cases decide (t.serial ≠ -1) <;> rfl

theorem enteringKey_mem (t : SnaplockTicket) : ("entering_key".toList, t.enteringKey) ∈ t.fields.entries := by
  rw [SnaplockTicket.entries_fields]
  refine List.mem_of_getElem? (i := 2) ?_
  cases decide (t.serial ≠ -1) <;> rfl

/-- A line of a ticket that the daemon lacks makes a new ticket, which is kept when it is locked and its owner is a leader. -/
theorem unserializeLine_serialize (h : t.Written) (hlacks : s.Lacks t.objectName t.enteringKey) :
    s.unserializeLine now t.serialize =
      if t.locked && s.leaderNamed t.owner then
        { s.setTicket s.nextTicket t.handedOver with nextTicket := s.nextTicket + 1 }.setTicketIn t.objectName t.ticketKey s.nextTicket
      else { s.setTicket s.nextTicket t.handedOver with nextTicket := s.nextTicket + 1 } := by
  have hobject := find?_field (fun e he => (h.entries he).1) (objectName_mem t)
  have hkey := find?_field (fun e he => (h.entries he).1) (enteringKey_mem t)
  rw [← SnaplockTicket.splitOn_serialize h] at hobject hkey
  have hobject' : (t.serialize.splitOn '|').find? ("object_name=".toList.isPrefixOf ·) = some ("object_name=".toList ++ t.objectName) :=
    hobject
  have hkey' : (t.serialize.splitOn '|').find? ("entering_key=".toList.isPrefixOf ·) = some ("entering_key=".toList ++ t.enteringKey) :=
    hkey
  have hdrop : ("object_name=".toList ++ t.objectName).drop 12 = t.objectName := rfl
  have hdrop' : ("entering_key=".toList ++ t.enteringKey).drop 13 = t.enteringKey := rfl
  unfold unserializeLine
  dsimp only
  rw [hobject', hkey']
  dsimp only
  rw [hdrop, hdrop', hlacks.entering, hlacks.tickets, SnaplockTicket.unserialize_make h]
  rfl

/-- A ticket that is handed over is the same one, and it is kept under its name and key just when it is locked and its owner is a
leader. -/
theorem msgLockTickets_serialize (h : t.Written) (hlacks : s.Lacks t.objectName t.enteringKey) :
    (s.msgLockTickets now t.serialize).ticket s.nextTicket = t.handedOver ∧
      ∀ key, ((s.msgLockTickets now t.serialize).ticketsOf t.objectName).find? key =
        if key = t.ticketKey ∧ t.locked = true ∧ s.leaderNamed t.owner = true then some s.nextTicket
        else (s.ticketsOf t.objectName).find? key := by
  have hlines : t.serialize.splitOn '\n' = [t.serialize] := List.splitOn_eq_singleton (SnaplockTicket.newline_notMem_serialize h)
  rw [msgLockTickets, hlines, List.foldl_cons, List.foldl_nil, unserializeLine_serialize h hlacks]
  by_cases hkept : (t.locked && s.leaderNamed t.owner) = true
  · rw [if_pos hkept]
    rw [Bool.and_eq_true] at hkept
    refine ⟨Function.update_self .., fun key => ?_⟩
    have htable : ({ s.setTicket s.nextTicket t.handedOver with nextTicket := s.nextTicket + 1 }.setTicketIn t.objectName t.ticketKey
        s.nextTicket).ticketsOf t.objectName = (s.ticketsOf t.objectName).insert t.ticketKey s.nextTicket := by
      simp [ticketsOf, setTicketIn, setTicket]
    rw [htable, SortedMap.find?_insert]
    simp [hkept]
  · rw [if_neg hkept]
    rw [Bool.and_eq_true] at hkept
    refine ⟨Function.update_self .., fun key => ?_⟩
    rw [if_neg fun hall => hkept hall.2]
    rfl

end HandOver

/-! ### One ticket -/

def aTicket (locked : Bool) : SnaplockTicket :=
  { objectName := "o".toList, obtentionTimeout := 100, lockDuration := 60, unlockDuration := 60, serverName := "alpha".toList
    serviceName := "client".toList, owner := "beta".toList, serial := 1, enteringKey := "alpha/5".toList, getMaxTicket := true
    ourTicket := 1, addedTicket := true, ticketKey := "00000001/alpha/5".toList, addedTicketQuorum := true, ticketReady := true
    locked, lockTimeout := 160 }

theorem written_aTicket : (aTicket true).Written := by
  constructor <;> exact ⟨by decide, by decide⟩

theorem msgLockTickets_serialize_aTicket :
    (firstLeader.msgLockTickets 0 (aTicket true).serialize).ticket firstLeader.nextTicket = (aTicket true).handedOver ∧
      ∀ key, ((firstLeader.msgLockTickets 0 (aTicket true).serialize).ticketsOf (aTicket true).objectName).find? key =
        if key = (aTicket true).ticketKey ∧ (aTicket true).locked = true ∧ firstLeader.leaderNamed (aTicket true).owner = true
        then some firstLeader.nextTicket else (firstLeader.ticketsOf (aTicket true).objectName).find? key :=
  msgLockTickets_serialize written_aTicket ⟨rfl, rfl⟩

/-- A ticket that is not locked is not kept. -/
theorem not_handedOver : ¬ ∀ (now : Int) (s : Snaplock) (t : SnaplockTicket), s.Lacks t.objectName t.enteringKey →
    ((s.msgLockTickets now t.serialize).ticketsOf t.objectName).find? t.ticketKey = some s.nextTicket := by
  intro h
  have hkept := h 0 firstLeader (aTicket false) ⟨rfl, rfl⟩
  have hnone : ((firstLeader.msgLockTickets 0 (aTicket false).serialize).ticketsOf (aTicket false).objectName).find?
      (aTicket false).ticketKey = none := by decide +kernel
  rw [hnone] at hkept
  cases hkept

end Snaplock
end Snapwebsites
