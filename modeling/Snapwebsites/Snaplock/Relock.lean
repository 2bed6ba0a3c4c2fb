import Snapwebsites.HttpStrings.Markers
import Snapwebsites.Snaplock.Serials

/-! # The answer to ALIVE

The serial text of an ALIVE has the object name and the entering key in it, and is split at its slashes when it comes back. The
ticket is found again just when the object name has no slash and no place marker up to 2, and the entering key is the one that its
two parts make. -/

namespace Snapwebsites
open QString

namespace Snaplock

/-! ### What is shown -/

/-- The text of an ALIVE. -/
def relockSerial (objectName serverName : QString) (pid : Int) : QString :=
  arg (arg "relock/%1/%2".toList objectName) (enteringKey serverName pid)

/-- The answer with the text finds the ticket that waits for it, clears its timeout and lets it enter. -/
def Confirmed (objectName serverName : QString) (pid : Int) : Prop :=
  ∀ (now : Int) (s : Snaplock) (message : LockMessage QString) (p : Nat), message.payload = relockSerial objectName serverName pid →
    (s.enteringOf objectName).find? (enteringKey serverName pid) = some p →
      s.msgAbsolutely now message = (s.setTicket p ((s.ticket p).setAliveTimeout 0)).entering now p

/-- The two parts of the entering key make the same key again. -/
def Rebuilt (key : QString) : Prop :=
  ∃ serverName pid, key = serverName ++ '/' :: pid ∧ '/' ∉ serverName ∧ '/' ∉ pid ∧ arg (arg "%1/%2".toList serverName) pid = key

structure Relockable (objectName key : QString) : Prop where
  slash : '/' ∉ objectName
  markers : ∀ n, lowestMarker objectName = some n → 2 < n
  key : Rebuilt key

/-! ### Place markers -/

/-- Qt, as far as place markers go. -/
def plainQt : HttpStrings.Qt Unit where
  toFloat := fun _ => none
  nonNegative := fun _ => true
  one := ()
  digitValue := digitValue
  digitValue_digit := by decide
  digitValue_ascii := fun c hc hdigit => by
    have hrows : ∀ r ∈ digitRows, r = (0x30, 0, 10) ∨ 0x80 ≤ r.1 := by decide
    unfold digitValue
    rw [Option.map_eq_none_iff, List.find?_eq_none]
    intro r hr
    rcases hrows r hr with rfl | hrow
    · simp only [decide_eq_true_eq, not_and]
      simp only [Char.isDigit, Bool.and_eq_false_iff, decide_eq_false_iff_not, UInt32.not_le] at hdigit
      have hcode : c.toNat = c.val.toNat := rfl
      rcases hdigit with h | h <;> simp [UInt32.lt_iff_toNat_lt] at h <;> omega
    · simp only [decide_eq_true_eq, not_and]
      omega

theorem plainQt_digitValue (c : Char) : plainQt.digitValue c = digitValue c := rfl

theorem markerNumber_eq (start : Nat) : ∀ s : QString,
    HttpStrings.markerNumber plainQt start s = (marker.digitPair s).map fun p => (p.1, p.2 + start)
  | [] => rfl
  | [c] => by
    rw [HttpStrings.markerNumber, marker.digitPair, plainQt_digitValue]
    cases digitValue c <;> simp [Nat.add_comm]
  | c :: d :: s => by
    rw [HttpStrings.markerNumber, marker.digitPair, plainQt_digitValue]
    cases digitValue c <;> cases hd : digitValue d <;> simp [plainQt_digitValue, hd, Nat.add_comm, Nat.mul_comm]

theorem marker_eq (s : QString) : HttpStrings.marker plainQt ('%' :: s) = (marker s).map fun p => (p.1, p.2 + 1) := by
  rw [HttpStrings.marker, if_pos rfl]
  cases s with
  | nil => rfl
  | cons c s =>
    by_cases hc : c = 'L'
    · subst hc
      rw [if_pos List.head?_cons, markerNumber_eq]
      simp [marker, Function.comp_def]
    · rw [if_neg (by simpa using hc), markerNumber_eq]
      unfold marker
      split
      · rename_i heq
        exact absurd (List.cons.inj heq).1 hc
      · rfl

theorem lowestMarker_eq : ∀ s : QString, lowestMarker s = HttpStrings.lowestMarker plainQt s
  | [] => rfl
  | c :: s => by
    rw [HttpStrings.lowestMarker, ← lowestMarker_eq s]
    by_cases hc : c = '%'
    · subst hc
      rw [marker_eq, lowestMarker]
      cases marker s <;> cases lowestMarker s <;> rfl
    · rw [HttpStrings.marker, if_neg hc]
      simp [lowestMarker]

theorem argFrom_eq (n : Nat) (a : QString) : ∀ (k : Nat) (s : QString), argFrom n a k s = HttpStrings.replaceMarker plainQt n a k s
  | _, [] => by rw [argFrom, HttpStrings.replaceMarker]
  | k + 1, _ :: s => by rw [argFrom, HttpStrings.replaceMarker, argFrom_eq n a k s]
  | 0, c :: s => by
    rw [argFrom, HttpStrings.replaceMarker]
    by_cases hc : c = '%'
    · subst hc
      rw [marker_eq]
      cases marker s <;> simp [argFrom_eq n a _ s]
    · rw [HttpStrings.marker, if_neg hc, decide_eq_false hc]
      simp [argFrom_eq n a _ s]

theorem arg_eq (s a : QString) : arg s a = HttpStrings.arg plainQt s a := by
  rw [arg, HttpStrings.arg, lowestMarker_eq]
  cases HttpStrings.lowestMarker plainQt s with
  | none => rfl
  | some n => exact argFrom_eq n a 0 s

section Serial
open HttpStrings (Above Breaks breaks_ascii digitValue_one digitValue_two above_iff above_of_notMem replaceMarker_lowest mem_replaceMarker)
variable {s a objectName serverName key : QString} {n : Nat} {pid : Int}

theorem breaks_slash {L : Type} {qt : HttpStrings.Qt L} : Breaks qt '/' :=
  breaks_ascii (by decide) (by decide) (by decide) (by decide)

theorem above_marker : Above plainQt 2 s ↔ ∀ n, lowestMarker s = some n → 2 < n := by
  rw [above_iff, lowestMarker_eq]

theorem lowestMarker_two : HttpStrings.lowestMarker plainQt ['%', '2'] = some 2 := by decide

theorem arg_first (s : QString) : arg "%1/%2".toList s = s ++ '/' :: ['%', '2'] := by
  simp [arg_eq, HttpStrings.arg, HttpStrings.lowestMarker, HttpStrings.marker, HttpStrings.markerNumber, HttpStrings.replaceMarker,
    digitValue_one, digitValue_two, breaks_slash.digit]

theorem arg_relock (s : QString) : arg "relock/%1/%2".toList s = ("relock".toList ++ '/' :: s) ++ '/' :: ['%', '2'] := by
  simp [arg_eq, HttpStrings.arg, HttpStrings.lowestMarker, HttpStrings.marker, HttpStrings.markerNumber, HttpStrings.replaceMarker,
    digitValue_one, digitValue_two, breaks_slash.digit]

/-- Behind a text without low markers the second one is filled in. -/
theorem arg_above (h : Above plainQt 2 s) (a : QString) : arg (s ++ '/' :: ['%', '2']) a = s ++ '/' :: a := by
  have hlowest : HttpStrings.lowestMarker plainQt ('/' :: ['%', '2']) = some 2 := by decide
  have hreplace : HttpStrings.replaceMarker plainQt 2 a 0 ('/' :: ['%', '2']) = '/' :: a := by
    simp [HttpStrings.replaceMarker, HttpStrings.marker, HttpStrings.markerNumber, digitValue_two]
  rw [arg_eq, HttpStrings.arg_append breaks_slash h hlowest, hreplace]

/-- A low marker in front is filled in itself. -/
theorem arg_low (h : HttpStrings.lowestMarker plainQt s = some n) (hn : n ≤ 2) (a : QString) :
    arg (s ++ '/' :: ['%', '2']) a = HttpStrings.replaceMarker plainQt n a 0 s ++ '/' :: (if n = 2 then a else ['%', '2']) := by
  have hlowest : HttpStrings.lowestMarker plainQt (s ++ '/' :: ['%', '2']) = some n := by
    rw [HttpStrings.lowestMarker_break breaks_slash, h, lowestMarker_two, Option.elim_some, Option.elim_some, min_eq_left hn]
  have hreplace : HttpStrings.replaceMarker plainQt n a 0 ['%', '2'] = if n = 2 then a else ['%', '2'] := by
    by_cases hn : n = 2 <;>
      simp [HttpStrings.replaceMarker, HttpStrings.marker, HttpStrings.markerNumber, digitValue_two, hn, eq_comm]
  rw [arg_eq, HttpStrings.arg, hlowest]
  simp only
  rw [HttpStrings.replaceMarker_break breaks_slash 0 s (Nat.zero_le _), hreplace]

/-- An entering key has two parts. -/
theorem enteringKey_parts (pid : Int) (h : '/' ∉ serverName) : ∃ ks kp, enteringKey serverName pid = ks ++ '/' :: kp ∧ '/' ∉ ks ∧ '/' ∉ kp := by
  have hpid : '/' ∉ number pid := fun hmem => by
    rcases mem_number hmem with h | h <;> exact absurd h (by decide)
  rw [enteringKey, arg_first]
  cases hlow : HttpStrings.lowestMarker plainQt serverName with
  | none =>
    rw [arg_above (above_iff.mpr fun n hn => by rw [hlow] at hn; cases hn)]
    exact ⟨_, _, rfl, h, hpid⟩
  | some n =>
    by_cases hn : n ≤ 2
    · rw [arg_low hlow hn]
      refine ⟨_, _, rfl, fun hmem => (mem_replaceMarker hmem).elim hpid h, ?_⟩
      split
      · exact hpid
      · decide
    · rw [arg_above (above_iff.mpr fun m hm => by rw [hlow] at hm; cases hm; omega)]
      exact ⟨_, _, rfl, h, hpid⟩

theorem above_relock (h : Above plainQt 2 objectName) : Above plainQt 2 ("relock".toList ++ '/' :: objectName) :=
  (above_of_notMem (by decide)).append breaks_slash h

/-- The text of an object name without low markers. -/
theorem relockSerial_above (h : Above plainQt 2 objectName) :
    relockSerial objectName serverName pid = "relock".toList ++ '/' :: (objectName ++ '/' :: enteringKey serverName pid) := by
  rw [relockSerial, arg_relock, arg_above (above_relock h), List.append_assoc, List.cons_append]

/-- With a low marker the key is filled in there. -/
theorem relockSerial_low (h : HttpStrings.lowestMarker plainQt objectName = some n) (hn : n ≤ 2) :
    relockSerial objectName serverName pid = "relock".toList ++ '/' ::
      (HttpStrings.replaceMarker plainQt n (enteringKey serverName pid) 0 objectName ++
        '/' :: (if n = 2 then enteringKey serverName pid else ['%', '2'])) := by
  have hrelock : HttpStrings.lowestMarker plainQt "relock".toList = none := by decide
  have hlow : HttpStrings.lowestMarker plainQt ("relock".toList ++ '/' :: objectName) = some n := by
    rw [HttpStrings.lowestMarker_break breaks_slash, hrelock, h, Option.elim_none]
  have hfront : ∀ a, HttpStrings.replaceMarker plainQt n a 0 "relock".toList = "relock".toList := fun a => by
    simp [HttpStrings.replaceMarker, HttpStrings.marker]
  rw [relockSerial, arg_relock, arg_low hlow hn, HttpStrings.replaceMarker_break breaks_slash 0 _ (Nat.zero_le _), hfront,
    List.append_assoc, List.cons_append]

/-! ### The answer -/

theorem Relockable.confirmed (h : Relockable objectName (enteringKey serverName pid)) : Confirmed objectName serverName pid := by
  intro now s message p hpayload hfind
  obtain ⟨ks, kp, hkey, hks, hkp, hrebuilt⟩ := h.key
  have hsplit : message.payload.splitOn '/' = ["relock".toList, objectName, ks, kp] := by
    rw [hpayload, relockSerial_above (above_marker.mpr h.markers), hkey, List.splitOn_append_cons_self_of_not_mem (by decide),
      List.splitOn_append_cons_self_of_not_mem h.slash, List.splitOn_append_cons_self_of_not_mem hks, List.splitOn_eq_singleton hkp]
  unfold msgAbsolutely
  rw [hsplit]
  simp only [↓reduceIte, hrebuilt, hfind]

/-- An answer that makes the daemon send something to other leaders has found a ticket. -/
theorem msgAbsolutely_found {now : Int} {s s' : Snaplock} {message : LockMessage QString} (h : s.msgAbsolutely now message = some s')
    (hsent : s'.sent ≠ s.sent) (hreply : ∀ m ∈ s'.sent, m.payload.isReply = false) :
    ∃ o sn cp p, message.payload = "relock".toList ++ '/' :: (o ++ '/' :: (sn ++ '/' :: cp)) ∧ '/' ∉ o ∧ '/' ∉ sn ∧ '/' ∉ cp ∧
      (s.enteringOf o).find? (arg (arg "%1/%2".toList sn) cp) = some p := by
  unfold msgAbsolutely at h
  split at h
  · rename_i relock o sn cp hsplit
    have hparts : ∀ t ∈ message.payload.splitOn '/', '/' ∉ t := fun t => notMem_of_mem_splitOn
    have hjoin : ['/'].intercalate (message.payload.splitOn '/') = message.payload := List.intercalate_splitOn '/'
    rw [hsplit] at hparts hjoin
    split at h
    · rename_i hrelock
      subst hrelock
      split at h
      · rename_i p hfind
        refine ⟨o, sn, cp, p, ?_, hparts o (by simp), hparts sn (by simp), hparts cp (by simp), hfind⟩
        rw [← hjoin]
        simp [List.intercalate]
      · cases h
        exact absurd rfl hsent
    · cases h
      exact absurd rfl hsent
  · split at h
    · cases h
      have := hreply _ (List.mem_append_right _ (List.mem_singleton_self _))
      cases this
    · cases h
      exact absurd rfl hsent
  · cases h
    exact absurd rfl hsent

/-- One of two leaders waits for the answer of one client. -/
def waitingFor (objectName key : QString) : Snaplock :=
  { firstLeader with enteringTickets := SortedMap.insert ∅ objectName (SortedMap.insert ∅ key 0) }

theorem enteringOf_waitingFor (objectName key o : QString) :
    (waitingFor objectName key).enteringOf o = if o = objectName then SortedMap.insert ∅ key 0 else ∅ := by
  unfold enteringOf waitingFor
  dsimp only
  rw [SortedMap.find?_insert]
  split <;> rfl

/-- What can be read from the text when the ticket is found. -/
theorem Confirmed.reads (h : Confirmed objectName serverName pid) : ∃ sn cp,
    relockSerial objectName serverName pid = "relock".toList ++ '/' :: (objectName ++ '/' :: (sn ++ '/' :: cp)) ∧
      '/' ∉ objectName ∧ '/' ∉ sn ∧ '/' ∉ cp ∧ arg (arg "%1/%2".toList sn) cp = enteringKey serverName pid := by
  have hfind : ((waitingFor objectName (enteringKey serverName pid)).enteringOf objectName).find? (enteringKey serverName pid) = some 0 := by
    rw [enteringOf_waitingFor, if_pos rfl, SortedMap.find?_insert_self]
  have hanswer := h 0 (waitingFor objectName (enteringKey serverName pid)) { payload := relockSerial objectName serverName pid } 0 rfl hfind
  obtain ⟨o, sn, cp, p, hpayload, ho, hsn, hcp, hfound⟩ := msgAbsolutely_found hanswer (List.cons_ne_nil _ _) (fun m hm => by
    rw [List.mem_singleton.mp hm]
    rfl)
  rw [enteringOf_waitingFor] at hfound
  split at hfound
  · rename_i hobject
    subst hobject
    rw [SortedMap.find?_insert] at hfound
    split at hfound
    · rename_i hkey
      exact ⟨sn, cp, hpayload, ho, hsn, hcp, hkey⟩
    · cases hfound
  · cases hfound

/-! ### What is needed -/

/-- A key that is filled in where `%2` stands begins with it or keeps it. -/
theorem replaceMarker_two (n : Nat) (t : QString) :
    ∃ u, HttpStrings.replaceMarker plainQt n ['%', '2'] 0 ('%' :: '2' :: t) = '%' :: '2' :: u := by
  have hkept : HttpStrings.replaceMarker plainQt n ['%', '2'] 0 ('2' :: t) = '2' :: HttpStrings.replaceMarker plainQt n ['%', '2'] 0 t := by
    rw [HttpStrings.replaceMarker, HttpStrings.marker, if_neg (by decide)]
  rw [HttpStrings.replaceMarker]
  split
  · rw [hkept]
    exact ⟨_, rfl⟩
  · split
    · exact ⟨_, rfl⟩
    · rw [hkept]
      exact ⟨_, rfl⟩

theorem two_le_of_marker {t : QString} {k : Nat} (h : HttpStrings.marker plainQt ('%' :: '2' :: t) = some (n, k)) : 2 ≤ n := by
  rw [HttpStrings.marker, if_pos rfl, if_neg (by simp), HttpStrings.markerNumber, digitValue_two] at h
  simp only at h
  split at h
  · cases h
    exact Nat.le_refl 2
  · split at h
    · cases h
      exact Nat.le_refl 2
    · cases h
      omega

/-- What two parts make, with `%2` as the second one, ends with it, and begins with it where the first part does. -/
theorem rebuilt_two (h : '/' ∉ s) : ∃ front, arg (arg "%1/%2".toList s) ['%', '2'] = front ++ '/' :: ['%', '2'] ∧ '/' ∉ front ∧
    ∀ t, s = '%' :: '2' :: t → ∃ u, front = '%' :: '2' :: u := by
  rw [arg_first]
  by_cases hlow : Above plainQt 2 s
  · rw [arg_above hlow]
    exact ⟨s, rfl, h, fun t ht => ⟨t, ht⟩⟩
  · rw [above_iff, not_forall] at hlow
    obtain ⟨n, hn⟩ := hlow
    rw [Classical.not_imp, not_lt] at hn
    rw [arg_low hn.1 hn.2, ite_self]
    refine ⟨_, rfl, fun hmem => (mem_replaceMarker hmem).elim (by decide) h, ?_⟩
    rintro t rfl
    exact replaceMarker_two n t

/-- Where the key is filled in within the object name, and the text still has the object name in front: the key begins with the
place marker, and the text ends with `%2`. -/
theorem parts_of_low {front rest t ks kp sn cp : QString} (hobject : '/' ∉ front ++ '%' :: t) (hks : '/' ∉ ks) (hsn : '/' ∉ sn)
    (hcp : '/' ∉ cp) (h : front ++ (ks ++ '/' :: kp ++ rest) ++ '/' :: (if n = 2 then ks ++ '/' :: kp else ['%', '2']) =
      (front ++ '%' :: t) ++ '/' :: (sn ++ '/' :: cp)) : ks = '%' :: t ∧ kp ++ rest = sn ∧ cp = ['%', '2'] ∧ n ≠ 2 := by
  have hfirst : (front ++ ks) ++ '/' :: ((kp ++ rest) ++ '/' :: (if n = 2 then ks ++ '/' :: kp else ['%', '2'])) =
      (front ++ '%' :: t) ++ '/' :: (sn ++ '/' :: cp) := by
    rw [← h]
    simp
  have hfront : '/' ∉ front ++ ks := by
    rw [List.mem_append, not_or]
    exact ⟨fun hmem => hobject (List.mem_append_left _ hmem), hks⟩
  obtain ⟨hname, hrest⟩ := append_cons_inj hfirst hfront hobject
  -- one slash is left on the right
  have hcount := congrArg (List.count '/') hrest
  simp only [List.count_append, List.count_cons_self, List.count_eq_zero_of_not_mem hsn, List.count_eq_zero_of_not_mem hcp] at hcount
  have htwo : n ≠ 2 := by
    rintro rfl
    rw [if_pos rfl, List.count_append, List.count_cons_self] at hcount
    omega
  have hnone : '/' ∉ kp ++ rest := by
    rw [← List.count_eq_zero, List.count_append]
    omega
  rw [if_neg htwo] at hrest
  obtain ⟨hsn', hcp'⟩ := append_cons_inj hrest hnone hsn
  exact ⟨List.append_cancel_left hname, hsn', hcp'.symm, htwo⟩

/-- A text that is read back has no low marker. -/
theorem Confirmed.above (hserver : '/' ∉ serverName) (h : Confirmed objectName serverName pid) : Above plainQt 2 objectName := by
  obtain ⟨sn, cp, hreads, hobject, hsn, hcp, hrebuilt⟩ := h.reads
  obtain ⟨ks, kp, hkey, hks, hkp⟩ := enteringKey_parts pid hserver
  refine above_iff.mpr fun n hlow => ?_
  by_contra hn
  obtain ⟨front, k, t, rfl, hmarker, hreplace⟩ := replaceMarker_lowest (enteringKey serverName pid) hlow
  rw [relockSerial_low hlow (not_lt.mp hn), List.append_cancel_left_eq, List.cons_inj_right, hreplace, hkey] at hreads
  obtain ⟨rfl, hfirst, rfl, htwo⟩ := parts_of_low hobject hks hsn hcp hreads
  -- the key that the two parts make ends with `%2`, so the first part begins with it, and then so does the key
  obtain ⟨made, hmade, hslash, hbegins⟩ := rebuilt_two hsn
  rw [hmade, hkey] at hrebuilt
  obtain ⟨rfl, rfl⟩ := append_cons_inj hrebuilt hslash hks
  obtain ⟨u, hu⟩ := hbegins _ hfirst.symm
  obtain rfl := (List.cons.inj hu).2
  exact hn (lt_of_le_of_ne (two_le_of_marker hmarker) htwo.symm)

theorem Confirmed.relockable (hserver : '/' ∉ serverName) (h : Confirmed objectName serverName pid) :
    Relockable objectName (enteringKey serverName pid) := by
  obtain ⟨sn, cp, hreads, hobject, hsn, hcp, hrebuilt⟩ := h.reads
  have habove := h.above hserver
  rw [relockSerial_above habove, List.append_cancel_left_eq, List.cons_inj_right, List.append_cancel_left_eq, List.cons_inj_right] at hreads
  exact ⟨hobject, above_marker.mp habove, sn, cp, hreads, hsn, hcp, hrebuilt⟩

/-- The answer finds its ticket just when the object name and the key can be read from the text. -/
theorem confirmed_iff (hserver : '/' ∉ serverName) : Confirmed objectName serverName pid ↔
    Relockable objectName (enteringKey serverName pid) := ⟨fun h => h.relockable hserver, fun h => h.confirmed⟩

theorem confirmed_iff_name : Confirmed "name".toList "alpha".toList 5 ↔ Relockable "name".toList (enteringKey "alpha".toList 5) :=
  confirmed_iff (by decide)

/-- The object names of the documentation have slashes. -/
theorem not_confirmed : ¬ ∀ (objectName serverName : QString) (pid : Int), '/' ∉ serverName → Confirmed objectName serverName pid := by
  intro h
  have huri := (h "http://www.example.com/user#number".toList "alpha".toList 5 (by decide)).relockable (by decide)
  exact huri.slash (by decide)

end Serial

end Snaplock
end Snapwebsites
