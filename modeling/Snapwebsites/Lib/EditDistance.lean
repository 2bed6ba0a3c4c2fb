import Mathlib.Order.Bounds.Basic
import Mathlib.Order.MinMax
import Mathlib.Tactic.Common

/-! # Edit distance

The least number of insertions, deletions and substitutions of one item that turn a list into another
(`IsLeast` over the lengths of scripts, `isLeast_distance`), computed by recursion over the first items.
Both ends serve: reversing the lists keeps the distance (`distance_reverse`), hence the recursion over the
last items (`distance_concat`). -/

namespace EditDistance
variable {α : Type}

/-- One edit of a list: an item is inserted, deleted or replaced. -/
inductive Edit : List α → List α → Prop
  | insert (u v : List α) (a : α) : Edit (u ++ v) (u ++ a :: v)
  | delete (u v : List α) (a : α) : Edit (u ++ a :: v) (u ++ v)
  | substitute (u v : List α) (a b : α) : Edit (u ++ a :: v) (u ++ b :: v)

/-- `Script n s t`: a sequence of `n` edits turns `s` into `t`. -/
inductive Script : Nat → List α → List α → Prop
  | nil (s : List α) : Script 0 s s
  | cons {n : Nat} {s t u : List α} : Edit s t → Script n t u → Script (n + 1) s u

/-! ### Edits -/

theorem Edit.symm {s t : List α} : Edit s t → Edit t s
  | insert u v a => delete u v a
  | delete u v a => insert u v a
  | substitute u v a b => substitute u v b a

theorem Edit.cons {s t : List α} (c : α) : Edit s t → Edit (c :: s) (c :: t)
  | insert u v a => insert (c :: u) v a
  | delete u v a => delete (c :: u) v a
  | substitute u v a b => substitute (c :: u) v a b

theorem Edit.reverse {s t : List α} (h : Edit s t) : Edit s.reverse t.reverse := by
  cases h with
  | insert u v a => simpa using insert v.reverse u.reverse a
  | delete u v a => simpa using delete v.reverse u.reverse a
  | substitute u v a b => simpa using substitute v.reverse u.reverse a b

/-! ### Scripts -/

namespace Script
variable {m n : Nat} {s t u : List α}

theorem one (h : Edit s t) : Script 1 s t := .cons h (.nil t)

theorem trans (h : Script m s t) (h' : Script n t u) : Script (m + n) s u := by
  induction h with
  | nil => rwa [Nat.zero_add]
  | cons he _ ih =>
    rw [Nat.add_right_comm]
    exact .cons he (ih h')

theorem symm (h : Script n s t) : Script n t s := by
  induction h with
  | nil s => exact .nil s
  | cons he _ ih => exact ih.trans (one he.symm)

theorem map {f : List α → List α} (hf : ∀ {s t}, Edit s t → Edit (f s) (f t)) (h : Script n s t) : Script n (f s) (f t) := by
  induction h with
  | nil s => exact .nil (f s)
  | cons he _ ih => exact .cons (hf he) ih

theorem insertAll : ∀ t : List α, Script t.length [] t
  | [] => .nil []
  | a :: t => .cons (.insert [] [] a) ((insertAll t).map (f := (a :: ·)) (Edit.cons a))

theorem deleteAll (s : List α) : Script s.length s [] := (insertAll s).symm

/-- Each edit changes the length by one at most. -/
theorem length_le (h : Script n s t) : s.length ≤ t.length + n := by
  induction h with
  | nil => exact Nat.le_refl _
  | cons he _ ih => cases he <;> simp only [List.length_append, List.length_cons] at ih ⊢ <;> omega

end Script

/-! ### The distance -/

variable [DecidableEq α]

def cost (a b : α) : Nat := if a = b then 0 else 1

/-- The distance, by the last edit at the head of the lists. -/
def distance : List α → List α → Nat
  | [], t => t.length
  | s, [] => s.length
  | a :: s, b :: t => min (distance (a :: s) t + 1) (min (distance s (b :: t) + 1) (distance s t + cost a b))

theorem cost_le (a b : α) : cost a b ≤ 1 := by
  unfold cost
  split <;> omega

@[simp] theorem cost_self (a : α) : cost a a = 0 := if_pos rfl

@[simp] theorem distance_nil_left (t : List α) : distance [] t = t.length := by rw [distance]

@[simp] theorem distance_nil_right (s : List α) : distance s [] = s.length := by cases s <;> simp [distance]

theorem distance_cons (a b : α) (s t : List α) : distance (a :: s) (b :: t) =
    min (distance (a :: s) t + 1) (min (distance s (b :: t) + 1) (distance s t + cost a b)) := by rw [distance]

theorem distance_self : ∀ s : List α, distance s s = 0
  | [] => distance_nil_left []
  | a :: s => by simp [distance_cons, distance_self s]

/-! ### A script of that length -/

theorem script_distance : ∀ s t : List α, Script (distance s t) s t
  | [], t => by
    rw [distance_nil_left]
    exact .insertAll t
  | a :: s, [] => by
    rw [distance_nil_right]
    exact .deleteAll (a :: s)
  | a :: s, b :: t => by
    have hins : Script (distance (a :: s) t + 1) (a :: s) (b :: t) := (script_distance (a :: s) t).trans (.one (.insert [] t b))
    have hdel : Script (distance s (b :: t) + 1) (a :: s) (b :: t) := .cons (.delete [] s a) (script_distance s (b :: t))
    have hsub : Script (distance s t + cost a b) (a :: s) (b :: t) := by
      have htail := (script_distance s t).map (Edit.cons b)
      unfold cost
      split
      · subst b
        exact htail
      · exact .cons (.substitute [] s a b) htail
    rw [distance_cons]
    rcases min_choice (distance (a :: s) t + 1) (min (distance s (b :: t) + 1) (distance s t + cost a b)) with h | h
    · rwa [h]
    · rw [h]
      rcases min_choice (distance s (b :: t) + 1) (distance s t + cost a b) with h | h <;> rwa [h]

/-! ### No shorter script

An edit of the left list changes the distance by one at most: first at its head, then behind a common head. -/

theorem distance_le_insert (a b : α) (s t : List α) : distance (a :: s) (b :: t) ≤ distance (a :: s) t + 1 := by
  rw [distance_cons]
  exact min_le_left _ _

theorem distance_le_delete (a : α) (s t : List α) : distance (a :: s) t ≤ distance s t + 1 := by
  cases t with
  | nil => simp
  | cons b t =>
    rw [distance_cons]
    exact (min_le_right _ _).trans (min_le_left _ _)

theorem distance_le_cons (a b : α) (s t : List α) : distance (a :: s) (b :: t) ≤ distance s t + cost a b := by
  rw [distance_cons]
  exact (min_le_right _ _).trans (min_le_right _ _)

theorem distance_le_append (b : α) (s t : List α) : distance s (b :: t) ≤ distance s t + 1 := by
  cases s with
  | nil => simp
  | cons a s => exact distance_le_insert a b s t

/-- What is below each of the three ways to a cell is below the cell. -/
theorem le_distance_cons {n : Nat} {a b : α} {s t : List α} (hins : n ≤ distance (a :: s) t + 1)
    (hdel : n ≤ distance s (b :: t) + 1) (hsub : n ≤ distance s t + cost a b) : n ≤ distance (a :: s) (b :: t) := by
  rw [distance_cons]
  exact le_min hins (le_min hdel hsub)

theorem distance_le_inserted (a : α) (s : List α) : ∀ t, distance s t ≤ distance (a :: s) t + 1
  | [] => by
    rw [distance_nil_right, distance_nil_right, List.length_cons]
    omega
  | b :: t => by
    have ih := distance_le_inserted a s t
    have hb := distance_le_append b s t
    have h : distance s (b :: t) - 1 ≤ distance (a :: s) (b :: t) := le_distance_cons (by omega) (by omega) (by omega)
    omega

theorem distance_le_substituted (a a' : α) (s : List α) : ∀ t, distance (a :: s) t ≤ distance (a' :: s) t + 1
  | [] => by
    rw [distance_nil_right, distance_nil_right, List.length_cons, List.length_cons]
    omega
  | b :: t => by
    have ih := distance_le_substituted a a' s t
    have hins := distance_le_insert a b s t
    have hdel := distance_le_delete a s (b :: t)
    have hsub := distance_le_cons a b s t
    have hcost := cost_le a b
    have h : distance (a :: s) (b :: t) - 1 ≤ distance (a' :: s) (b :: t) := le_distance_cons (by omega) (by omega) (by omega)
    omega

theorem distance_le_behind {s s' : List α} (h : ∀ t, distance s t ≤ distance s' t + 1) (a : α) :
    ∀ t, distance (a :: s) t ≤ distance (a :: s') t + 1
  | [] => by
    have h := h []
    rw [distance_nil_right, distance_nil_right] at h ⊢
    rw [List.length_cons, List.length_cons]
    omega
  | b :: t => by
    have ih := distance_le_behind h a t
    have hins := distance_le_insert a b s t
    have hdel := distance_le_delete a s (b :: t)
    have hsub := distance_le_cons a b s t
    have hb := h (b :: t)
    have ht := h t
    have h : distance (a :: s) (b :: t) - 1 ≤ distance (a :: s') (b :: t) := le_distance_cons (by omega) (by omega) (by omega)
    omega

theorem distance_le_append_left {v v' : List α} (h : ∀ t, distance v t ≤ distance v' t + 1) :
    ∀ u t, distance (u ++ v) t ≤ distance (u ++ v') t + 1
  | [] => h
  | a :: u => distance_le_behind (distance_le_append_left h u) a

theorem Edit.distance_le {s s' : List α} (h : Edit s s') (t : List α) : distance s t ≤ distance s' t + 1 := by
  cases h with
  | insert u v a => exact distance_le_append_left (distance_le_inserted a v) u t
  | delete u v a => exact distance_le_append_left (distance_le_delete a v) u t
  | substitute u v a b => exact distance_le_append_left (distance_le_substituted a b v) u t

theorem Script.distance_le {n : Nat} {s t : List α} (h : Script n s t) : distance s t ≤ n := by
  induction h with
  | nil s => exact Nat.le_of_eq (distance_self s)
  | cons he _ ih => exact (he.distance_le _).trans (Nat.succ_le_succ ih)

/-- The distance is the least number of edits. -/
theorem isLeast_distance (s t : List α) : IsLeast {n | Script n s t} (distance s t) :=
  ⟨script_distance s t, fun _ h => h.distance_le⟩

/-! ### A metric -/

theorem distance_comm (s t : List α) : distance s t = distance t s :=
  Nat.le_antisymm (script_distance t s).symm.distance_le (script_distance s t).symm.distance_le

theorem distance_triangle (s t u : List α) : distance s u ≤ distance s t + distance t u :=
  ((script_distance s t).trans (script_distance t u)).distance_le

theorem distance_eq_zero_iff {s t : List α} : distance s t = 0 ↔ s = t := by
  constructor
  · intro h
    have hs := script_distance s t
    rw [h] at hs
    cases hs
    rfl
  · rintro rfl
    exact distance_self s

theorem distance_reverse (s t : List α) : distance s.reverse t.reverse = distance s t := by
  have hle : ∀ s t : List α, distance s.reverse t.reverse ≤ distance s t := fun s t =>
    ((script_distance s t).map Edit.reverse).distance_le
  refine Nat.le_antisymm (hle s t) ?_
  have h := hle s.reverse t.reverse
  rwa [List.reverse_reverse, List.reverse_reverse] at h

/-- The recursion over the last items. -/
theorem distance_concat (s t : List α) (a b : α) : distance (s ++ [a]) (t ++ [b]) =
    min (distance (s ++ [a]) t + 1) (min (distance s (t ++ [b]) + 1) (distance s t + cost a b)) := by
  rw [← distance_reverse (s ++ [a]) (t ++ [b]), ← distance_reverse (s ++ [a]) t, ← distance_reverse s (t ++ [b]),
    ← distance_reverse s t, List.reverse_concat, List.reverse_concat, distance_cons]

theorem length_le_distance (s t : List α) : s.length ≤ t.length + distance s t := (script_distance s t).length_le

theorem distance_le_max (s t : List α) : distance s t ≤ max s.length t.length := by
  induction s generalizing t with
  | nil => simp
  | cons a s ih =>
    cases t with
    | nil => simp
    | cons b t =>
      have h := ih t
      have hsub := distance_le_cons a b s t
      have hcost := cost_le a b
      rw [List.length_cons, List.length_cons]
      omega

end EditDistance
