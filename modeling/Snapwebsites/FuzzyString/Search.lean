import Snapwebsites.FuzzyString.Levenshtein

/-! # Searching with a distance

`strstr_with_levenshtein_distance` compares the needle with windows of the haystack. The second argument of
`substr()` is a count, and the function passes it the position behind the needle: the windows grow with
their start, and only those of `Reached` have the lengths asked for. What it finds is there
(`strstrWithLevenshteinDistance_iff`), what it misses starts too far in. -/

namespace Snapwebsites
namespace FuzzyString
open EditDistance

/-- `std::wstring::substr()`. -/
def substr (s : WString) (pos count : Nat) : WString := (s.drop pos).take count

def strstrWithLevenshteinDistance (haystack needle : WString) (distance : Int) : Except String Bool :=
  if distance ≤ 0 then .error "Levenshtein distance in strstr_with_levenshtein_distance() needs to be > 0"
  else if needle.length ≥ haystack.length then .ok (decide ((levenshteinDistance haystack needle : Int) ≤ distance))
  else
    .ok ((List.range' needle.length (haystack.length - needle.length)).any fun i =>
      (List.range (min (i + distance.toNat) haystack.length - i + 1)).any fun j =>
        decide ((levenshteinDistance (substr haystack (i - needle.length) (i + j)) needle : Int) ≤ distance))

/-! ### Windows -/

/-- The haystack is `u`, the window `w`, then `v`, and the window is within the distance of the needle. -/
structure Window (haystack needle : WString) (distance : Int) (u w v : WString) : Prop where
  place : haystack = u ++ (w ++ v)
  least : needle.length ≤ w.length
  most : (w.length : Int) ≤ needle.length + distance
  close : (EditDistance.distance w needle : Int) ≤ distance

/-- The windows that the loops come by: the start is no more than what the window has over the needle, or
the window is longer than the needle and ends the haystack. -/
def Reached (needle u w v : WString) : Prop :=
  u.length + needle.length ≤ w.length ∨ needle.length < w.length ∧ v = []

/-- A substring of the haystack, of the length of the needle up to the distance more, within the distance. -/
def Occurs (haystack needle : WString) (distance : Int) : Prop :=
  ∃ w, w <:+: haystack ∧ needle.length ≤ w.length ∧ (w.length : Int) ≤ needle.length + distance ∧
    (EditDistance.distance w needle : Int) ≤ distance

theorem occurs_iff {haystack needle : WString} {distance : Int} :
    Occurs haystack needle distance ↔ ∃ u w v, Window haystack needle distance u w v := by
  constructor
  · rintro ⟨w, ⟨u, v, hplace⟩, hleast, hmost, hclose⟩
    exact ⟨u, w, v, by rw [← hplace, List.append_assoc], hleast, hmost, hclose⟩
  · rintro ⟨u, w, v, hplace, hleast, hmost, hclose⟩
    exact ⟨w, ⟨u, v, by rw [hplace, List.append_assoc]⟩, hleast, hmost, hclose⟩

/-! ### The loops -/

section
variable {haystack needle : WString} {distance : Int}

/-- Some pass of the two loops returns. -/
theorem strstr_eq_ok_true (hlong : needle.length < haystack.length) (hdistance : 1 ≤ distance) :
    strstrWithLevenshteinDistance haystack needle distance = .ok true ↔
      ∃ p j, p + needle.length < haystack.length ∧ j ≤ distance.toNat ∧ p + needle.length + j ≤ haystack.length ∧
        (EditDistance.distance (substr haystack p (p + needle.length + j)) needle : Int) ≤ distance := by
  have hpositive : ¬distance ≤ 0 := by omega
  simp only [strstrWithLevenshteinDistance, if_neg hpositive, if_neg (Nat.not_le.mpr hlong), levenshteinDistance_eq,
    Except.ok.injEq, List.any_eq_true, List.mem_range'_1, List.mem_range, decide_eq_true_eq]
  constructor
  · rintro ⟨i, ⟨hn, hi⟩, j, hj, hclose⟩
    obtain ⟨p, rfl⟩ := Nat.exists_eq_add_of_le' hn
    rw [Nat.add_sub_cancel] at hclose
    exact ⟨p, j, by omega, by omega, by omega, hclose⟩
  · rintro ⟨p, j, hp, hj, hend, hclose⟩
    refine ⟨p + needle.length, ⟨by omega, by omega⟩, j, by omega, ?_⟩
    rwa [Nat.add_sub_cancel]

/-- A pass that returns has a window of the lengths asked for: another one is too far from the needle. -/
theorem window_of_close {p j : Nat} (hp : p + needle.length < haystack.length)
    (hclose : (EditDistance.distance (substr haystack p (p + needle.length + j)) needle : Int) ≤ distance) :
    ∃ u w v, Window haystack needle distance u w v ∧ Reached needle u w v := by
  have hlength : (substr haystack p (p + needle.length + j)).length = min (p + needle.length + j) (haystack.length - p) := by
    rw [substr, List.length_take, List.length_drop]
  have hfar := length_le_distance (substr haystack p (p + needle.length + j)) needle
  refine ⟨haystack.take p, substr haystack p (p + needle.length + j), (haystack.drop p).drop (p + needle.length + j),
    ⟨?_, by omega, by omega, hclose⟩, ?_⟩
  · rw [substr, List.take_append_drop, List.take_append_drop]
  · rw [Reached, List.length_take, List.drop_eq_nil_iff, List.length_drop, hlength]
    omega

/-- A window that is reached is the substring of a pass. -/
theorem close_of_window (hlong : needle.length < haystack.length) {u w v : WString}
    (hw : Window haystack needle distance u w v) (hreached : Reached needle u w v) :
    ∃ p j, p + needle.length < haystack.length ∧ j ≤ distance.toNat ∧ p + needle.length + j ≤ haystack.length ∧
      (EditDistance.distance (substr haystack p (p + needle.length + j)) needle : Int) ≤ distance := by
  have hlength := congrArg List.length hw.place
  rw [List.length_append, List.length_append] at hlength
  have hleast := hw.least
  have hmost := hw.most
  have hsubstr : substr haystack u.length (u.length + needle.length + (w.length - (u.length + needle.length))) = w := by
    rw [substr, hw.place, List.drop_left]
    rcases hreached with hfront | ⟨-, rfl⟩
    · rw [Nat.add_sub_cancel' hfront, List.take_left]
    · rw [List.append_nil, List.take_of_length_le (by omega)]
  refine ⟨u.length, w.length - (u.length + needle.length), ?_, by omega, ?_, by rw [hsubstr]; exact hw.close⟩
  · rcases hreached with hfront | ⟨hend, rfl⟩ <;> omega
  · rcases hreached with hfront | ⟨hend, rfl⟩ <;> omega

/-- The search finds the windows that are reached. -/
theorem strstrWithLevenshteinDistance_iff (hlong : needle.length < haystack.length) (hdistance : 1 ≤ distance) :
    strstrWithLevenshteinDistance haystack needle distance = .ok true ↔
      ∃ u w v, Window haystack needle distance u w v ∧ Reached needle u w v := by
  rw [strstr_eq_ok_true hlong hdistance]
  constructor
  · rintro ⟨p, j, hp, -, -, hclose⟩
    exact window_of_close hp hclose
  · rintro ⟨u, w, v, hw, hreached⟩
    exact close_of_window hlong hw hreached

end

/-! ### When the search is exact -/

/-- The search is exact unless the windows within the distance are all out of reach. -/
theorem strstr_exact_iff (haystack needle : WString) (distance : Int) (hlong : needle.length < haystack.length)
    (hdistance : 1 ≤ distance) :
    (strstrWithLevenshteinDistance haystack needle distance = .ok true ↔ Occurs haystack needle distance) ↔
      ((∃ u w v, Window haystack needle distance u w v) →
        ∃ u w v, Window haystack needle distance u w v ∧ Reached needle u w v) := by
  rw [strstrWithLevenshteinDistance_iff hlong hdistance, occurs_iff]
  constructor
  · exact fun h => h.mpr
  · intro h
    refine ⟨?_, h⟩
    rintro ⟨u, w, v, hw, -⟩
    exact ⟨u, w, v, hw⟩

/-- `ab` in front of a longer text. -/
theorem strstr_exact_front :
    strstrWithLevenshteinDistance [97, 98, 99, 99] [97, 98] 1 = .ok true ↔ Occurs [97, 98, 99, 99] [97, 98] 1 :=
  (strstr_exact_iff [97, 98, 99, 99] [97, 98] 1 (by decide) (by decide)).mpr fun _ =>
    ⟨[], [97, 98], [99, 99], ⟨rfl, by decide, by decide, by rw [distance_self]; decide⟩, Or.inl (by decide)⟩

/-- `ab` in the middle of `cccabcc` is not found. -/
theorem strstr_middle_missed : ¬(strstrWithLevenshteinDistance [99, 99, 99, 97, 98, 99, 99] [97, 98] 1 = .ok true ↔
    Occurs [99, 99, 99, 97, 98, 99, 99] [97, 98] 1) := by
  intro h
  have hfalse : strstrWithLevenshteinDistance [99, 99, 99, 97, 98, 99, 99] [97, 98] 1 = .ok false := by decide +kernel
  have hoccurs : Occurs [99, 99, 99, 97, 98, 99, 99] [97, 98] 1 :=
    ⟨[97, 98], ⟨[99, 99, 99], [99, 99], rfl⟩, by decide, by decide, by rw [distance_self]; decide⟩
  rw [h.mpr hoccurs] at hfalse
  cases hfalse

end FuzzyString
end Snapwebsites
