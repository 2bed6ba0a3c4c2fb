import Snapwebsites.HttpStrings.Print

/-! # Place markers of any text

What `arg()` does to a text that may have markers of its own: each marker it replaces takes a percent sign with
it (`count_replaceMarker_lt`), and a character that is in no marker parts the text in two that are filled in one
by one (`replaceMarker_break`). -/

namespace Snapwebsites
namespace HttpStrings
open QString

variable {L : Type} {qt : Qt L} {s t a : QString} {c : Char} {n : Nat}

theorem percent_of_marker {r : Nat × Nat} (h : marker qt (c :: s) = some r) : c = '%' := by
  by_contra hc
  rw [marker, if_neg hc] at h
  cases h

theorem markerNumber_length {start : Nat} {r : Nat × Nat} (h : markerNumber qt start s = some r) : r.2 ≤ start + s.length := by
  unfold markerNumber at h
  split at h
  · cases h
  · split at h
    · cases h
    · split at h
      · cases h
        exact Nat.le_refl _
      · split at h
        · cases h
          simp
        · cases h
          simp

/-- A marker is part of its text. -/
theorem marker_length {r : Nat × Nat} (h : marker qt (c :: s) = some r) : r.2 - 1 ≤ s.length := by
  rw [percent_of_marker h, marker, if_pos rfl] at h
  split at h
  · rename_i hl
    obtain ⟨s, rfl⟩ := List.head?_eq_some_iff.mp hl
    have := markerNumber_length h
    simp only [List.tail_cons, List.length_cons] at this ⊢
    omega
  · have := markerNumber_length h
    omega

theorem mem_replaceMarker {x : Char} : ∀ {k : Nat} {s : QString}, x ∈ replaceMarker qt n a k s → x ∈ a ∨ x ∈ s
  | _, [], h => by
    rw [replaceMarker] at h
    exact Or.inr h
  | k + 1, _ :: s, h => (mem_replaceMarker (k := k) h).imp_right (List.mem_cons_of_mem _)
  | 0, d :: s, h => by
    have hcons : x ∈ d :: replaceMarker qt n a 0 s → x ∈ a ∨ x ∈ d :: s := fun h => by
      rcases List.mem_cons.mp h with rfl | h
      · exact Or.inr List.mem_cons_self
      · exact (mem_replaceMarker h).imp_right (List.mem_cons_of_mem _)
    rw [replaceMarker] at h
    split at h
    · exact hcons h
    · split at h
      · rcases List.mem_append.mp h with h | h
        · exact Or.inl h
        · exact (mem_replaceMarker h).imp_right (List.mem_cons_of_mem _)
      · exact hcons h

/-- A character that the argument does not have is not there more often. -/
theorem count_replaceMarker_le {x : Char} (ha : x ∉ a) : ∀ (k : Nat) (s : QString),
    (replaceMarker qt n a k s).count x ≤ s.count x
  | _, [] => by rw [replaceMarker]
  | k + 1, _ :: s => (count_replaceMarker_le ha k s).trans List.count_le_count_cons
  | 0, d :: s => by
    have hcons : (d :: replaceMarker qt n a 0 s).count x ≤ (d :: s).count x := by
      rw [List.count_cons, List.count_cons]
      exact Nat.add_le_add_right (count_replaceMarker_le ha 0 s) _
    rw [replaceMarker]
    split
    · exact hcons
    · split
      · rw [List.count_append, List.count_eq_zero_of_not_mem ha, Nat.zero_add]
        exact (count_replaceMarker_le ha _ s).trans List.count_le_count_cons
      · exact hcons

/-- A text in two parts is filled in part by part. -/
theorem replaceMarker_break (hc : Breaks qt c) : ∀ (k : Nat) (s : QString), k ≤ s.length →
    replaceMarker qt n a k (s ++ c :: t) = replaceMarker qt n a k s ++ c :: replaceMarker qt n a 0 t
  | k, [], hk => by
    obtain rfl := Nat.le_zero.mp hk
    simp [replaceMarker, marker_break hc]
  | k + 1, _ :: s, hk => replaceMarker_break hc k s (Nat.le_of_succ_le_succ hk)
  | 0, d :: s, _ => by
    have hmarker := marker_append hc d s t
    rw [List.cons_append] at hmarker ⊢
    rw [replaceMarker, hmarker, replaceMarker]
    cases h : marker qt (d :: s) with
    | none => simp only [replaceMarker_break hc 0 s (Nat.zero_le _), List.cons_append]
    | some r =>
      simp only
      split
      · rw [replaceMarker_break hc _ s (marker_length h), List.append_assoc]
      · rw [replaceMarker_break hc 0 s (Nat.zero_le _), List.cons_append]

/-- The lowest marker of a text in two parts. -/
theorem lowestMarker_break (hc : Breaks qt c) : ∀ s : QString, lowestMarker qt (s ++ c :: t) =
    (lowestMarker qt s).elim (lowestMarker qt t) fun m => some ((lowestMarker qt t).elim m (min m))
  | [] => by simp [lowestMarker, marker_break hc]
  | d :: s => by
    have hmarker := marker_append hc d s t
    rw [List.cons_append] at hmarker ⊢
    rw [lowestMarker, hmarker, lowestMarker, lowestMarker_break hc s]
    cases h : marker qt (d :: s) with
    | none => rfl
    | some r =>
      cases hs : lowestMarker qt s <;> cases ht : lowestMarker qt t <;> simp [min_assoc]

/-- What stands in front of the first of the lowest markers stays as it is. -/
theorem replaceMarker_lowest (a : QString) : ∀ {s : QString}, lowestMarker qt s = some n → ∃ front k t, s = front ++ '%' :: t ∧
    marker qt ('%' :: t) = some (n, k) ∧ replaceMarker qt n a 0 s = front ++ (a ++ replaceMarker qt n a (k - 1) t)
  | [], h => by cases h
  | d :: s, h => by
    have hcons : lowestMarker qt s = some n → (∀ r, marker qt (d :: s) = some r → r.1 ≠ n) →
        ∃ front k t, d :: s = front ++ '%' :: t ∧ marker qt ('%' :: t) = some (n, k) ∧
          replaceMarker qt n a 0 (d :: s) = front ++ (a ++ replaceMarker qt n a (k - 1) t) := fun h hother => by
      obtain ⟨front, k, t, hs, hmarker, hreplace⟩ := replaceMarker_lowest a h
      refine ⟨d :: front, k, t, by rw [hs, List.cons_append], hmarker, ?_⟩
      have hkept : replaceMarker qt n a 0 (d :: s) = d :: replaceMarker qt n a 0 s := by
        rw [replaceMarker]
        split
        · rfl
        · rename_i m length hm
          rw [if_neg (hother _ hm)]
      rw [hkept, hreplace, List.cons_append]
    rw [lowestMarker] at h
    cases hmarker : marker qt (d :: s) with
    | none =>
      rw [hmarker] at h
      exact hcons h fun r hr => by rw [hmarker] at hr; cases hr
    | some r =>
      obtain ⟨m, length⟩ := r
      rw [hmarker] at h
      simp only [Option.some.injEq] at h
      by_cases hm : m = n
      · subst hm
        obtain rfl := percent_of_marker hmarker
        refine ⟨[], length, s, rfl, hmarker, ?_⟩
        rw [replaceMarker, hmarker]
        exact if_pos rfl
      · cases hlow : lowestMarker qt s with
        | none =>
          rw [hlow] at h
          exact absurd h hm
        | some m' =>
          rw [hlow, Option.elim_some] at h
          have hm' : m' = n := (min_choice m m').elim (fun hmin => absurd (hmin.symm.trans h) hm) fun hmin => hmin.symm.trans h
          rw [hm'] at hlow
          refine hcons hlow fun r hr => ?_
          rw [hmarker] at hr
          cases hr
          exact hm

/-- The lowest marker takes a percent sign with it. -/
theorem count_replaceMarker_lt (ha : '%' ∉ a) (h : lowestMarker qt s = some n) :
    (replaceMarker qt n a 0 s).count '%' < s.count '%' := by
  obtain ⟨front, k, t, rfl, -, hreplace⟩ := replaceMarker_lowest a h
  have hrest : (replaceMarker qt n a (k - 1) t).count '%' ≤ t.count '%' := count_replaceMarker_le ha (k - 1) t
  rw [hreplace, List.count_append, List.count_append, List.count_append, List.count_eq_zero_of_not_mem ha, List.count_cons_self]
  omega

theorem above_iff : ∀ {s : QString}, Above qt n s ↔ ∀ m, lowestMarker qt s = some m → n < m
  | [] => by simp [Above, lowestMarker]
  | d :: s => by
    rw [Above, above_iff, lowestMarker]
    cases h : marker qt (d :: s) with
    | none => simp
    | some r =>
      obtain ⟨m, length⟩ := r
      cases hs : lowestMarker qt s with
      | none => simp
      | some m' => simp

theorem above_of_notMem (h : '%' ∉ s) : Above qt n s := by
  induction s with
  | nil => trivial
  | cons d s ih =>
    rw [List.mem_cons, not_or] at h
    refine ⟨fun m length hmarker => ?_, ih h.2⟩
    exact absurd (percent_of_marker hmarker).symm h.1

theorem Above.mono {m : Nat} (h : Above qt n s) (hm : m ≤ n) : Above qt m s :=
  above_iff.mpr fun k hk => lt_of_le_of_lt hm (above_iff.mp h k hk)

/-- Nothing is replaced where the markers are all greater. -/
theorem replaceMarker_above (h : Above qt n s) : replaceMarker qt n a 0 s = s := by
  induction s with
  | nil => rfl
  | cons d s ih =>
    rw [replaceMarker]
    cases hmarker : marker qt (d :: s) with
    | none => simp only [ih h.2]
    | some r =>
      simp only
      rw [if_neg (h.1 r.1 r.2 hmarker).ne', ih h.2]

/-! ### A field of a line -/

/-- A marker of one digit at the end of its line. -/
theorem marker_field {d : Char} (hd : qt.digitValue d = some n) (ht : ∀ c ∈ t.head?, Breaks qt c) :
    marker qt ('%' :: d :: t) = some (n, 2) := by
  have hlocalized : ¬some d = some 'L' := fun h => by
    rw [Option.some.inj h, qt.digitValue_ascii 'L' (by decide) (by decide)] at hd
    cases hd
  cases t with
  | nil => simp [marker, hlocalized, markerNumber, hd]
  | cons c t => simp [marker, hlocalized, markerNumber, hd, (ht c rfl).digit]

theorem not_percent_of_digit {d : Char} (hd : qt.digitValue d = some n) : d ≠ '%' := by
  rintro rfl
  rw [qt.digitValue_ascii '%' (by decide) (by decide)] at hd
  cases hd

theorem lowestMarker_field {d : Char} (hd : qt.digitValue d = some n) (ht : Above qt n t) (hend : ∀ c ∈ t.head?, Breaks qt c) :
    lowestMarker qt ('=' :: '%' :: d :: t) = some n := by
  have hdigit : marker qt (d :: t) = none := by rw [marker, if_neg (not_percent_of_digit hd)]
  rw [lowestMarker, marker_break breaks_equal]
  simp only
  rw [lowestMarker, marker_field hd hend]
  simp only
  rw [lowestMarker, hdigit]
  simp only
  cases hlow : lowestMarker qt t with
  | none => rfl
  | some m => exact congrArg some (min_eq_left (above_iff.mp ht m hlow).le)

/-- A field whose number is below all other markers of the text is filled in. -/
theorem arg_field {d : Char} (hs : Above qt n s) (hd : qt.digitValue d = some n) (ht : Above qt n t)
    (hend : ∀ c ∈ t.head?, Breaks qt c) (a : QString) :
    arg qt (s ++ '=' :: '%' :: d :: t) a = s ++ '=' :: (a ++ t) := by
  have hreplace : replaceMarker qt n a 0 ('=' :: '%' :: d :: t) = '=' :: (a ++ t) := by
    rw [replaceMarker, marker_break breaks_equal]
    simp only
    rw [replaceMarker, marker_field hd hend]
    simp only [if_pos, Nat.add_one_sub_one]
    rw [replaceMarker, replaceMarker_above ht]
  rw [arg_append breaks_equal hs (lowestMarker_field hd ht hend), hreplace]

end HttpStrings
end Snapwebsites
