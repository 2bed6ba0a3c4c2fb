import Mathlib.Algebra.Order.Ring.Nat
import Mathlib.Algebra.Order.Group.Nat
import Mathlib.Data.Nat.Basic
import Mathlib.Tactic.Ring

/-! # Numbers in words

A number as a list of words of the same width, the low one first, with the loops that carry from one word to the next: addition,
subtraction, and the shifts by less than a word. The loops that start at the high word are on the list the other way around. Each is
the operation of the numbers, without what does not fit in as many words. -/

namespace Words

/-- The number that the words stand for. -/
def toNat {w : Nat} : List (BitVec w) → Nat
  | [] => 0
  | x :: l => x.toNat + 2 ^ w * toNat l

/-- The sum of each two words, with the carry of the ones before. -/
def add {w : Nat} : Bool → List (BitVec w) → List (BitVec w) → List (BitVec w)
  | c, x :: l, y :: r =>
    BitVec.ofNat w (x.toNat + y.toNat + c.toNat) :: add (decide (2 ^ w ≤ x.toNat + y.toNat + c.toNat)) l r
  | _, _, _ => []

/-- The difference of each two words, with the borrow of the ones before. -/
def sub {w : Nat} : Bool → List (BitVec w) → List (BitVec w) → List (BitVec w)
  | b, x :: l, y :: r =>
    BitVec.ofNat w (2 ^ w + x.toNat - (y.toNat + b.toNat)) :: sub (decide (x.toNat < y.toNat + b.toNat)) l r
  | _, _, _ => []

/-- A shift to the left by less than a word, where `extra` comes in. -/
def shiftLeft {w : Nat} (k : Nat) : BitVec w → List (BitVec w) → List (BitVec w)
  | _, [] => []
  | extra, x :: l => (x <<< k ||| extra) :: shiftLeft k (x >>> (w - k)) l

/-- A shift to the right by less than a word, from the high word on. -/
def shiftRight {w : Nat} (k : Nat) : BitVec w → List (BitVec w) → List (BitVec w)
  | _, [] => []
  | extra, x :: l => (x >>> k ||| extra) :: shiftRight k (x <<< (w - k)) l

/-- The first difference decides, from the high word on. -/
def compare {w : Nat} : List (BitVec w) → List (BitVec w) → Ordering
  | x :: l, y :: r => if x ≠ y then (if y.toNat < x.toNat then .gt else .lt) else compare l r
  | _, _ => .eq

/-- The place of the highest bit, from the high word on. -/
def log2 {w : Nat} : List (BitVec w) → Nat
  | [] => 0
  | x :: l => if x ≠ 0#w then x.toNat.log2 + w * l.length else log2 l

section
variable {w : Nat} {l r : List (BitVec w)} {x y e : BitVec w} {c b : Bool} {k n : Nat}

/-! ### The number -/

theorem toNat_lt : ∀ l : List (BitVec w), toNat l < 2 ^ (w * l.length)
  | [] => Nat.one_pos
  | x :: l => by
    have hx := x.isLt
    have hl : 2 ^ w * (toNat l + 1) ≤ 2 ^ w * 2 ^ (w * l.length) := Nat.mul_le_mul_left _ (toNat_lt l)
    rw [List.length_cons, Nat.mul_succ, Nat.add_comm, Nat.pow_add, toNat]
    rw [Nat.mul_succ] at hl
    omega

theorem toNat_append (l r : List (BitVec w)) : toNat (l ++ r) = toNat l + 2 ^ (w * l.length) * toNat r := by
  induction l with
  | nil => simp [toNat]
  | cons x l ih =>
    rw [List.cons_append, toNat, ih, toNat, List.length_cons, Nat.mul_succ, Nat.pow_add]
    ring

theorem toNat_replicate (n : Nat) : toNat (List.replicate n 0#w) = 0 := by
  induction n with
  | zero => rfl
  | succ n ih => rw [List.replicate_succ, toNat, ih, BitVec.toNat_zero, Nat.mul_zero]

theorem toNat_eq_zero : toNat l = 0 ↔ ∀ x ∈ l, x = 0#w := by
  induction l with
  | nil => simp [toNat]
  | cons x l ih =>
    have hx : x.toNat = 0 ↔ x = 0#w := ⟨fun heq => BitVec.eq_of_toNat_eq heq, fun heq => by rw [heq]; rfl⟩
    rw [toNat, Nat.add_eq_zero_iff, Nat.mul_eq_zero, hx, ih, List.forall_mem_cons]
    simp

/-- A digit below its base, in front of the other ones. -/
theorem digit_mod {d m base : Nat} (hd : d < base) : (d + base * n) % (base * m) = d + base * (n % m) := by
  rw [Nat.mod_mul, Nat.add_mul_mod_self_left, Nat.mod_eq_of_lt hd, Nat.add_mul_div_left _ _ (Nat.zero_lt_of_lt hd),
    Nat.div_eq_of_lt hd, Nat.zero_add]

theorem toNat_take (l : List (BitVec w)) (k : Nat) : toNat (l.take k) = toNat l % 2 ^ (w * k) := by
  induction k generalizing l with
  | zero => simp [toNat, Nat.mod_one]
  | succ k ih =>
    cases l with
    | nil => simp [toNat]
    | cons x l =>
      rw [List.take_succ_cons, toNat, ih, toNat, Nat.mul_succ, Nat.add_comm (w * k), Nat.pow_add, digit_mod x.isLt]

theorem toNat_inj (hlength : l.length = r.length) (h : toNat l = toNat r) : l = r := by
  induction l generalizing r with
  | nil => exact (List.length_eq_zero_iff.mp hlength.symm).symm
  | cons x l ih =>
    cases r with
    | nil => cases hlength
    | cons y r =>
      have hmod := congrArg (· % 2 ^ w) h
      have hdiv := congrArg (· / 2 ^ w) h
      simp only [toNat, Nat.add_mul_mod_self_left, Nat.mod_eq_of_lt x.isLt, Nat.mod_eq_of_lt y.isLt] at hmod
      simp only [toNat, Nat.add_mul_div_left _ _ (Nat.two_pow_pos w), Nat.div_eq_of_lt x.isLt, Nat.div_eq_of_lt y.isLt, Nat.zero_add] at hdiv
      rw [BitVec.eq_of_toNat_eq hmod, ih (Nat.succ.inj hlength) hdiv]

/-! ### Sums and differences -/

theorem length_add (hlength : l.length = r.length) : (add c l r).length = l.length := by
  induction l generalizing r c with
  | nil => rfl
  | cons x l ih =>
    cases r with
    | nil => cases hlength
    | cons y r => rw [add, List.length_cons, ih (Nat.succ.inj hlength), List.length_cons]

theorem toNat_add (hlength : l.length = r.length) : toNat (add c l r) = (toNat l + toNat r + c.toNat) % 2 ^ (w * l.length) := by
  induction l generalizing r c with
  | nil => rw [List.length_nil, Nat.mul_zero, Nat.pow_zero, Nat.mod_one, add.eq_def, toNat]
  | cons x l ih =>
    cases r with
    | nil => cases hlength
    | cons y r =>
      obtain ⟨s, hs⟩ : ∃ s, x.toNat + y.toNat + c.toNat = s := ⟨_, rfl⟩
      have hc : c.toNat ≤ 1 := Bool.toNat_le c
      have hx := x.isLt
      have hy := y.isLt
      have hcarry : s / 2 ^ w = (decide (2 ^ w ≤ s)).toNat := by
        by_cases hle : 2 ^ w ≤ s
        · rw [decide_eq_true hle, Nat.div_eq_of_lt_le] <;> simp <;> omega
        · rw [decide_eq_false hle, Nat.div_eq_of_lt (Nat.lt_of_not_le hle)]
          rfl
      have hsum : x.toNat + 2 ^ w * toNat l + (y.toNat + 2 ^ w * toNat r) + c.toNat =
          s % 2 ^ w + 2 ^ w * (toNat l + toNat r + (decide (2 ^ w ≤ s)).toNat) := by
        rw [← hcarry]
        have := Nat.mod_add_div s (2 ^ w)
        rw [Nat.mul_add, Nat.mul_add]
        omega
      rw [add, hs, toNat, ih (Nat.succ.inj hlength), BitVec.toNat_ofNat, toNat, toNat, hsum, List.length_cons, Nat.mul_succ,
        Nat.add_comm (w * l.length), Nat.pow_add, digit_mod (Nat.mod_lt _ (Nat.two_pow_pos w))]

theorem length_sub (hlength : l.length = r.length) : (sub b l r).length = l.length := by
  induction l generalizing r b with
  | nil => rfl
  | cons x l ih =>
    cases r with
    | nil => cases hlength
    | cons y r => rw [sub, List.length_cons, ih (Nat.succ.inj hlength), List.length_cons]

/-- The difference is what the sum undoes. -/
theorem toNat_sub (hlength : l.length = r.length) : (toNat (sub b l r) + toNat r + b.toNat) % 2 ^ (w * l.length) = toNat l := by
  induction l generalizing r b with
  | nil => rw [List.length_nil, Nat.mul_zero, Nat.pow_zero, Nat.mod_one, toNat]
  | cons x l ih =>
    cases r with
    | nil => cases hlength
    | cons y r =>
      have hb : b.toNat ≤ 1 := Bool.toNat_le b
      have hx := x.isLt
      have hy := y.isLt
      have hword : (2 ^ w + x.toNat - (y.toNat + b.toNat)) % 2 ^ w + (y.toNat + b.toNat) =
          x.toNat + 2 ^ w * (decide (x.toNat < y.toNat + b.toNat)).toNat := by
        by_cases hlt : x.toNat < y.toNat + b.toNat
        · rw [decide_eq_true hlt, Nat.mod_eq_of_lt (by omega), Bool.toNat_true, Nat.mul_one]
          omega
        · have hsub : 2 ^ w + x.toNat - (y.toNat + b.toNat) = x.toNat - (y.toNat + b.toNat) + 2 ^ w := by omega
          rw [decide_eq_false hlt, hsub, Nat.add_mod_right, Nat.mod_eq_of_lt (by omega), Bool.toNat_false, Nat.mul_zero]
          omega
      have hrest := ih (b := decide (x.toNat < y.toNat + b.toNat)) (Nat.succ.inj hlength)
      rw [sub, toNat, toNat, toNat, BitVec.toNat_ofNat, List.length_cons, Nat.mul_succ, Nat.add_comm (w * l.length), Nat.pow_add]
      generalize hborrow : (decide (x.toNat < y.toNat + b.toNat)).toNat = c at hword hrest
      have hsum : (2 ^ w + x.toNat - (y.toNat + b.toNat)) % 2 ^ w +
          2 ^ w * toNat (sub (decide (x.toNat < y.toNat + b.toNat)) l r) + (y.toNat + 2 ^ w * toNat r) + b.toNat =
            x.toNat + 2 ^ w * (toNat (sub (decide (x.toNat < y.toNat + b.toNat)) l r) + toNat r + c) := by
        rw [Nat.mul_add, Nat.mul_add]
        omega
      rw [hsum, digit_mod hx, hrest]

/-! ### Shifts -/

theorem length_shiftLeft (k : Nat) (e : BitVec w) (l : List (BitVec w)) : (shiftLeft k e l).length = l.length := by
  induction l generalizing e with
  | nil => rfl
  | cons x l ih => rw [shiftLeft, List.length_cons, ih, List.length_cons]

/-- A word that is shifted to the left, with the bits that come in. -/
theorem toNat_shiftLeft_or (hk : k ≤ w) (he : e.toNat < 2 ^ k) : (x <<< k ||| e).toNat = x.toNat % 2 ^ (w - k) * 2 ^ k + e.toNat := by
  have hpow : 2 ^ w = 2 ^ (w - k) * 2 ^ k := by rw [← Nat.pow_add, Nat.sub_add_cancel hk]
  rw [BitVec.toNat_or, BitVec.toNat_shiftLeft, Nat.shiftLeft_eq, hpow, Nat.mul_mod_mul_right, ← Nat.shiftLeft_eq,
    ← Nat.shiftLeft_add_eq_or_of_lt he]

theorem toNat_shiftLeft (hk : k ≤ w) (he : e.toNat < 2 ^ k) (l : List (BitVec w)) :
    toNat (shiftLeft k e l) = (toNat l * 2 ^ k + e.toNat) % 2 ^ (w * l.length) := by
  induction l generalizing e with
  | nil => rw [List.length_nil, Nat.mul_zero, Nat.pow_zero, Nat.mod_one, shiftLeft, toNat]
  | cons x l ih =>
    have hpow : 2 ^ w = 2 ^ (w - k) * 2 ^ k := by rw [← Nat.pow_add, Nat.sub_add_cancel hk]
    have hextra : (x >>> (w - k)).toNat = x.toNat / 2 ^ (w - k) := by rw [BitVec.toNat_ushiftRight, Nat.shiftRight_eq_div_pow]
    have hlt : (x >>> (w - k)).toNat < 2 ^ k := by
      rw [hextra]
      exact Nat.div_lt_of_lt_mul (hpow ▸ x.isLt)
    have hlow : x.toNat % 2 ^ (w - k) * 2 ^ k + e.toNat < 2 ^ w := by
      have hle := Nat.mul_le_mul_right (2 ^ k) (Nat.succ_le_of_lt (Nat.mod_lt x.toNat (Nat.two_pow_pos (w - k))))
      rw [← hpow, Nat.succ_mul] at hle
      omega
    have hsum : (x.toNat + 2 ^ w * toNat l) * 2 ^ k + e.toNat =
        x.toNat % 2 ^ (w - k) * 2 ^ k + e.toNat + 2 ^ w * (toNat l * 2 ^ k + x.toNat / 2 ^ (w - k)) := by
      have hx := Nat.mod_add_div x.toNat (2 ^ (w - k))
      generalize x.toNat % 2 ^ (w - k) = d at hx
      generalize x.toNat / 2 ^ (w - k) = q at hx
      rw [← hx, hpow]
      ring
    rw [shiftLeft, toNat, toNat_shiftLeft_or hk he, ih hlt, hextra, toNat, hsum, List.length_cons, Nat.mul_succ,
      Nat.add_comm (w * l.length), Nat.pow_add, digit_mod hlow]

theorem length_shiftRight (k : Nat) (e : BitVec w) (l : List (BitVec w)) : (shiftRight k e l).length = l.length := by
  induction l generalizing e with
  | nil => rfl
  | cons x l ih => rw [shiftRight, List.length_cons, ih, List.length_cons]

/-- A word that is shifted to the right, with the bits of the one above that come in. -/
theorem toNat_shiftRight_or (hk : k ≤ w) : (x >>> k ||| y <<< (w - k)).toNat = y.toNat % 2 ^ k * 2 ^ (w - k) + x.toNat / 2 ^ k := by
  have hpow : 2 ^ w = 2 ^ k * 2 ^ (w - k) := by rw [← Nat.pow_add, Nat.add_sub_cancel' hk]
  have hlt : x.toNat / 2 ^ k < 2 ^ (w - k) := Nat.div_lt_of_lt_mul (hpow ▸ x.isLt)
  rw [BitVec.toNat_or, BitVec.toNat_ushiftRight, BitVec.toNat_shiftLeft, Nat.shiftLeft_eq, hpow, Nat.mul_mod_mul_right,
    Nat.shiftRight_eq_div_pow, Nat.or_comm, ← Nat.shiftLeft_eq, ← Nat.shiftLeft_add_eq_or_of_lt hlt]

theorem toNat_reverse_cons (x : BitVec w) (l : List (BitVec w)) : toNat (x :: l).reverse = toNat l.reverse + 2 ^ (w * l.length) * x.toNat := by
  rw [List.reverse_cons, toNat_append, List.length_reverse, toNat, toNat, Nat.mul_zero, Nat.add_zero]

theorem toNat_shiftRight (hk : k ≤ w) (y : BitVec w) (l : List (BitVec w)) : toNat (shiftRight k (y <<< (w - k)) l).reverse =
    (toNat l.reverse + 2 ^ (w * l.length) * (y.toNat % 2 ^ k)) / 2 ^ k := by
  induction l generalizing y with
  | nil => simp [shiftRight, toNat, Nat.div_eq_of_lt (Nat.mod_lt y.toNat (Nat.two_pow_pos k))]
  | cons x l ih =>
    have hpow : 2 ^ w = 2 ^ k * 2 ^ (w - k) := by rw [← Nat.pow_add, Nat.add_sub_cancel' hk]
    have hsum : toNat l.reverse + 2 ^ (w * l.length) * x.toNat + 2 ^ (w * (l.length + 1)) * (y.toNat % 2 ^ k) =
        toNat l.reverse + 2 ^ (w * l.length) * (x.toNat % 2 ^ k) +
          2 ^ k * (2 ^ (w * l.length) * (y.toNat % 2 ^ k * 2 ^ (w - k) + x.toNat / 2 ^ k)) := by
      have hx := Nat.mod_add_div x.toNat (2 ^ k)
      generalize x.toNat % 2 ^ k = d at hx
      generalize x.toNat / 2 ^ k = q at hx
      rw [← hx, Nat.mul_succ, Nat.pow_add, hpow]
      ring
    rw [shiftRight, toNat_reverse_cons, ih, length_shiftRight, toNat_shiftRight_or hk, toNat_reverse_cons, List.length_cons, hsum,
      Nat.add_mul_div_left _ _ (Nat.two_pow_pos k)]

/-! ### The order and the highest bit -/

/-- The first words decide where they differ. -/
theorem compare_high {m t p q : Nat} (ht : t < m) (hlt : p < q) (t' : Nat) : t + m * p < t' + m * q := by
  have hle := Nat.mul_le_mul_left m (Nat.succ_le_of_lt hlt)
  rw [Nat.mul_succ] at hle
  omega

theorem compare_eq (hlength : l.length = r.length) : compare l r = Ord.compare (toNat l.reverse) (toNat r.reverse) := by
  induction l generalizing r with
  | nil =>
    obtain rfl := List.length_eq_zero_iff.mp hlength.symm
    rfl
  | cons x l ih =>
    cases r with
    | nil => cases hlength
    | cons y r =>
      have hl := Nat.succ.inj hlength
      have hlt := toNat_lt l.reverse
      have hlt' := toNat_lt r.reverse
      rw [List.length_reverse] at hlt hlt'
      rw [compare, toNat_reverse_cons, toNat_reverse_cons]
      rw [← hl] at hlt' ⊢
      by_cases hxy : x = y
      · rw [if_neg (not_not.mpr hxy), ih hl, hxy]
        rcases Nat.lt_trichotomy (toNat l.reverse) (toNat r.reverse) with hlt | heq | hgt
        · rw [Nat.compare_eq_lt.mpr hlt, Nat.compare_eq_lt.mpr (by omega)]
        · rw [heq, Nat.compare_eq_eq.mpr rfl, Nat.compare_eq_eq.mpr rfl]
        · rw [Nat.compare_eq_gt.mpr hgt, Nat.compare_eq_gt.mpr (by omega)]
      · rw [if_pos hxy]
        have hne : x.toNat ≠ y.toNat := fun heq => hxy (BitVec.eq_of_toNat_eq heq)
        split
        · rename_i hgt
          exact (Nat.compare_eq_gt.mpr (compare_high hlt' hgt _)).symm
        · rename_i hle
          exact (Nat.compare_eq_lt.mpr (compare_high hlt (by omega) _)).symm

theorem log2_eq (l : List (BitVec w)) : log2 l = (toNat l.reverse).log2 := by
  induction l with
  | nil => rfl
  | cons x l ih =>
    rw [log2, toNat_reverse_cons]
    by_cases hx : x = 0#w
    · rw [if_neg (not_not.mpr hx), ih, hx, BitVec.toNat_zero, Nat.mul_zero, Nat.add_zero]
    · have hne : x.toNat ≠ 0 := fun heq => hx (BitVec.eq_of_toNat_eq heq)
      have hlt := toNat_lt l.reverse
      rw [List.length_reverse] at hlt
      have hsome : toNat l.reverse + 2 ^ (w * l.length) * x.toNat ≠ 0 := by
        have := Nat.mul_pos (Nat.two_pow_pos (w * l.length)) (Nat.pos_of_ne_zero hne)
        omega
      obtain ⟨hlow, hhigh⟩ := (Nat.log2_eq_iff hne).mp rfl
      rw [if_pos hx]
      refine ((Nat.log2_eq_iff hsome).mpr ⟨?_, ?_⟩).symm
      · rw [Nat.add_comm x.toNat.log2, Nat.pow_add]
        exact (Nat.mul_le_mul_left _ hlow).trans (Nat.le_add_left ..)
      · rw [Nat.add_comm x.toNat.log2, Nat.add_assoc, Nat.pow_add]
        have hle := Nat.mul_le_mul_left (2 ^ (w * l.length)) (Nat.succ_le_of_lt hhigh)
        rw [Nat.mul_succ] at hle
        omega

end

end Words
