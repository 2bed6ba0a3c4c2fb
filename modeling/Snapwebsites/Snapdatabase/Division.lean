import Mathlib.Data.Nat.ModEq
import Mathlib.Data.Nat.Prime.Basic
import Snapwebsites.Snapdatabase.Bigint

/-! # Multiplication and division

`div()` shifts the divisor below the dividend and then back, one bit at a time, and `operator *= ()` adds the multiples of one factor by
the powers of two that the other one has. -/

namespace Snapwebsites.Snapdatabase

namespace Uint512

theorem shiftRight_lt {x : Uint512} (h : ¬(x.shiftRight 1).isZero = true) : (x.shiftRight 1).toNat < x.toNat := by
  rw [isZero_iff, toNat_shiftRight x (by decide)] at h
  rw [toNat_shiftRight x (by decide)]
  omega

/-- The loop of `div()`, on the quotient, the remainder and the divisor. -/
def divLoop (q r divisor : Uint512) : Uint512 × Uint512 :=
  let q := q.shiftLeft 1
  let s := if r.compare divisor ≠ .lt then (q + 1, r - divisor) else (q, r)
  if _ : (divisor.shiftRight 1).isZero = true then s else divLoop s.1 s.2 (divisor.shiftRight 1)
termination_by divisor.toNat
decreasing_by exact shiftRight_lt (by assumption)

/-- `div()`: the quotient and the remainder. Where it throws, nothing was changed. -/
def div (lhs rhs : Uint512) : Except BigintError (Uint512 × Uint512) :=
  if lhs.isZero then .error .logicError
  else
    match lhs.compare rhs with
    | .lt => .ok (0, lhs)
    | .eq => .ok (1, 0)
    | .gt => do
      let divisor ← rhs.lsl (lhs.bitSize - rhs.bitSize)
      pure (divLoop 0 lhs divisor)

/-- The loop of `operator *= ()`, on the sum, the multiple of the one factor, and what is left of the other one. -/
def mulLoop (sum lhs factor : Uint512) : Uint512 :=
  if _ : (factor.shiftRight 1).isZero = true then sum
  else
    let lhs := lhs.shiftLeft 1
    mulLoop (if (factor.shiftRight 1).low &&& 1 ≠ 0 then sum + lhs else sum) lhs (factor.shiftRight 1)
termination_by factor.toNat
decreasing_by exact shiftRight_lt (by assumption)

/-- `operator *= ()`. -/
def mul (x rhs : Uint512) : Uint512 := mulLoop x (if rhs.low &&& 1 = 0 then 0 else x) rhs

instance : Mul Uint512 := ⟨mul⟩

/-! ### Multiplication -/

section
variable {x y sum lhs factor a b q r : Uint512}

theorem low_odd_iff (x : Uint512) : x.low &&& 1 ≠ 0 ↔ x.toNat % 2 = 1 := by
  have hlow : (x.low &&& 1).toNat = x.toNat % 2 := by
    have hmod : x.toNat % 2 ^ 64 % 2 = x.toNat % 2 := by omega
    rw [BitVec.toNat_and, toNat_low]
    exact (Nat.and_one_is_mod _).trans hmod
  have hzero : x.low &&& 1 = 0 ↔ (x.low &&& 1).toNat = 0 := ⟨fun h => by rw [h]; rfl, fun h => BitVec.eq_of_toNat_eq h⟩
  rw [Ne, hzero, hlow]
  omega

/-- The loop adds the multiple by what is left, without the bit that was looked at. -/
theorem toNat_mulLoop (sum lhs factor : Uint512) :
    (mulLoop sum lhs factor).toNat = (sum.toNat + lhs.toNat * (factor.toNat - factor.toNat % 2)) % 2 ^ 512 := by
  fun_induction mulLoop sum lhs factor with
  | case1 sum lhs factor hzero =>
    rw [isZero_iff, toNat_shiftRight _ (by decide)] at hzero
    have hnone : factor.toNat - factor.toNat % 2 = 0 := by omega
    rw [hnone, Nat.mul_zero, Nat.add_zero, Nat.mod_eq_of_lt sum.toNat_lt]
  | case2 sum lhs factor hsome lhs' ih =>
    obtain ⟨g, hg⟩ : ∃ g, factor.toNat / 2 = g := ⟨_, rfl⟩
    have hfactor : factor.toNat - factor.toNat % 2 = 2 * g := by omega
    have hshifted : (factor.shiftRight 1).toNat = g := (toNat_shiftRight factor (by decide)).trans hg
    have hlhs : lhs'.toNat ≡ lhs.toNat * 2 [MOD 2 ^ 512] := by
      rw [toNat_shiftLeft]
      exact Nat.mod_modEq _ _
    have hsum : (if (factor.shiftRight 1).low &&& 1 ≠ 0 then sum + lhs' else sum).toNat ≡ sum.toNat + lhs'.toNat * (g % 2) [MOD 2 ^ 512] := by
      have hodd := low_odd_iff (factor.shiftRight 1)
      rw [hshifted] at hodd
      split
      · rename_i h
        rw [toNat_add, hodd.mp h, Nat.mul_one]
        exact Nat.mod_modEq _ _
      · rename_i h
        have heven : g % 2 = 0 := by
          have := mt hodd.mpr h
          omega
        rw [heven, Nat.mul_zero, Nat.add_zero]
    have hmultiple : lhs'.toNat * (g % 2) + lhs'.toNat * (g - g % 2) = lhs'.toNat * g := by
      rw [← Nat.mul_add, Nat.add_sub_cancel' (Nat.mod_le ..)]
    simp only [dite_eq_ite] at ih
    rw [ih, hshifted, hfactor]
    calc (if (factor.shiftRight 1).low &&& 1 ≠ 0 then sum + lhs' else sum).toNat + lhs'.toNat * (g - g % 2)
        ≡ sum.toNat + lhs'.toNat * (g % 2) + lhs'.toNat * (g - g % 2) [MOD 2 ^ 512] := hsum.add_right _
      _ ≡ sum.toNat + lhs'.toNat * g [MOD 2 ^ 512] := by rw [Nat.add_assoc, hmultiple]
      _ ≡ sum.toNat + lhs.toNat * 2 * g [MOD 2 ^ 512] := (hlhs.mul_right g).add_left _
      _ ≡ sum.toNat + lhs.toNat * (2 * g) [MOD 2 ^ 512] := by rw [Nat.mul_assoc]

/-- A multiple by an odd number less one, or by an even one, is only zero for zero. -/
theorem eq_zero_of_mul_modEq {a b k : Nat} (ha : a < 2 ^ k) (hb : b % 2 = 0) (h : a ≡ a * b [MOD 2 ^ k]) : a = 0 := by
  rcases Nat.eq_zero_or_pos b with rfl | hpos
  · exact h.eq_of_lt_of_lt ha (Nat.two_pow_pos k)
  · have hdvd : 2 ^ k ∣ a * (b - 1) := by
      rw [Nat.mul_sub_one]
      exact (Nat.modEq_iff_dvd' (Nat.le_mul_of_pos_right a hpos)).mp h
    have hodd : Odd (b - 1) := Nat.odd_iff.mpr (by omega)
    have hcoprime : Nat.Coprime (2 ^ k) (b - 1) := Nat.Coprime.pow_left k (Nat.coprime_two_left.mpr hodd)
    exact Nat.eq_zero_of_dvd_of_lt (hcoprime.dvd_of_dvd_mul_right hdvd) ha

/-- The product is the one of the numbers exactly where the factor is odd, or there is nothing to multiply. -/
theorem mul_eq_iff (x y : Uint512) : (x * y).toNat = x.toNat * y.toNat % 2 ^ 512 ↔ y.toNat % 2 = 1 ∨ x.toNat = 0 := by
  have hodd := low_odd_iff y
  have hmul : (x * y).toNat = (mulLoop x (if y.low &&& 1 = 0 then 0 else x) y).toNat := rfl
  rw [hmul, toNat_mulLoop]
  by_cases h : y.low &&& 1 = 0
  · have heven : y.toNat % 2 = 0 := by
      have := mt hodd.mpr (not_not.mpr h)
      omega
    rw [if_pos h, toNat_zero, Nat.zero_mul, Nat.add_zero, heven]
    constructor
    · exact fun heq => .inr (eq_zero_of_mul_modEq x.toNat_lt heven heq)
    · rintro (hone | hzero)
      · cases hone
      · rw [hzero, Nat.zero_mul]
  · have hone := hodd.mp h
    have hproduct : x.toNat + x.toNat * (y.toNat - y.toNat % 2) = x.toNat * y.toNat := by
      rw [hone, Nat.mul_sub_one, Nat.add_sub_cancel' (Nat.le_mul_of_pos_right _ (by omega))]
    rw [if_neg h, hproduct]
    exact iff_of_true rfl (.inl hone)

/-- Twice one is one. -/
theorem not_mul_eq : ¬∀ x y : Uint512, (x * y).toNat = x.toNat * y.toNat % 2 ^ 512 := by
  intro hall
  have hmul : (1 * ofWord 2 : Uint512).toNat = (mulLoop 1 0 (ofWord 2)).toNat := rfl
  have heq := hmul.symm.trans (hall 1 (ofWord 2))
  have hone : (1 : Uint512).toNat % 2 ^ 512 = 1 := (Nat.mod_eq_of_lt (toNat_lt 1)).trans toNat_one
  have htwo : (ofWord 2).toNat % 2 ^ 512 = 2 := (Nat.mod_eq_of_lt (toNat_lt _)).trans (toNat_ofWord 2)
  rw [toNat_mulLoop, toNat_zero, Nat.zero_mul, Nat.add_zero, hone, toNat_one, Nat.one_mul, htwo] at heq
  cases heq

end

/-! ### Division of numbers -/

/-- The loop of the division, on numbers without a limit. -/
def divSteps (q r d : Nat) : Nat × Nat :=
  let s := if d ≤ r then (2 * q + 1, r - d) else (2 * q, r)
  if _ : d / 2 = 0 then s else divSteps s.1 s.2 (d / 2)
termination_by d

section
variable {q r d b s : Nat}

theorem le_divSteps (q r d : Nat) : 2 * q ≤ (divSteps q r d).1 := by
  have hstep : ∀ {q r d : Nat}, 2 * q ≤ (if d ≤ r then (2 * q + 1, r - d) else (2 * q, r)).1 := fun {q r d} => by
    split
    · exact Nat.le_succ _
    · exact Nat.le_refl _
  fun_induction divSteps q r d with
  | case1 => exact hstep
  | case2 q r d s _ ih =>
    have hs : 2 * q ≤ s.1 := hstep
    omega

/-- Down to the divisor, the loop makes the quotient and the remainder. -/
theorem divSteps_mul (hb : 0 < b) (hr : r < 2 * (b * 2 ^ s)) : divSteps q r (b * 2 ^ s) =
    if b / 2 = 0 then (q * 2 ^ (s + 1) + r / b, r % b) else divSteps (q * 2 ^ (s + 1) + r / b) (r % b) (b / 2) := by
  induction s generalizing q r with
  | zero =>
    rw [Nat.pow_zero, Nat.mul_one] at hr ⊢
    have hstep : (if b ≤ r then (2 * q + 1, r - b) else (2 * q, r)) = (q * 2 ^ (0 + 1) + r / b, r % b) := by
      rw [Nat.zero_add, Nat.pow_one, Nat.mul_comm 2]
      by_cases hle : b ≤ r
      · have hdiv : r / b = 1 := Nat.div_eq_of_lt_le (by omega) (by omega)
        rw [if_pos hle, hdiv, Nat.mod_eq_sub_mod hle, Nat.mod_eq_of_lt (by omega)]
      · rw [if_neg hle, Nat.div_eq_of_lt (Nat.lt_of_not_le hle), Nat.mod_eq_of_lt (Nat.lt_of_not_le hle), Nat.add_zero]
    rw [divSteps, hstep]
    rfl
  | succ s ih =>
    have hhalf : b * 2 ^ (s + 1) / 2 = b * 2 ^ s := by rw [Nat.pow_succ, ← Nat.mul_assoc, Nat.mul_div_cancel _ Nat.two_pos]
    have htwice : b * 2 ^ (s + 1) = 2 * (b * 2 ^ s) := by rw [Nat.pow_succ, ← Nat.mul_assoc, Nat.mul_comm 2]
    have hsome : b * 2 ^ s ≠ 0 := Nat.ne_of_gt (Nat.mul_pos hb (Nat.two_pow_pos s))
    rw [divSteps, dif_neg (by rwa [hhalf]), hhalf]
    by_cases hle : b * 2 ^ (s + 1) ≤ r
    · have hquotient : (2 * q + 1) * 2 ^ (s + 1) + (r - b * 2 ^ (s + 1)) / b = q * 2 ^ (s + 1 + 1) + r / b := by
        have hr' : r = r - b * 2 ^ (s + 1) + b * 2 ^ (s + 1) := (Nat.sub_add_cancel hle).symm
        have hdiv : r / b = (r - b * 2 ^ (s + 1)) / b + 2 ^ (s + 1) := by
          conv_lhs => rw [hr', Nat.add_mul_div_left _ _ hb]
        rw [hdiv, Nat.pow_succ 2 (s + 1)]
        ring
      have hremainder : (r - b * 2 ^ (s + 1)) % b = r % b := by
        conv_rhs => rw [← Nat.sub_add_cancel hle, Nat.add_mul_mod_self_left]
      rw [if_pos hle, ih (by omega), hquotient, hremainder]
    · have hquotient : 2 * q * 2 ^ (s + 1) = q * 2 ^ (s + 1 + 1) := by ring
      rw [if_neg hle, ih (by omega), hquotient]

end

/-! ### Division -/

section
variable {x y q r d : Uint512}

theorem compare_eq_lt : x.compare y = .lt ↔ x.toNat < y.toNat := by rw [compare_eq, Nat.compare_eq_lt]

theorem compare_eq_eq : x.compare y = .eq ↔ x.toNat = y.toNat := by rw [compare_eq, Nat.compare_eq_eq]

/-- One bit of the quotient, where there is room for it. -/
theorem divStep_toNat {s : Uint512 × Uint512} (hq : 2 * q.toNat + 1 < 2 ^ 512)
    (hs : s = if r.compare d ≠ .lt then (q.shiftLeft 1 + 1, r - d) else (q.shiftLeft 1, r)) :
    (s.1.toNat, s.2.toNat) = if d.toNat ≤ r.toNat then (2 * q.toNat + 1, r.toNat - d.toNat) else (2 * q.toNat, r.toNat) := by
  have htwice : (q.shiftLeft 1).toNat = 2 * q.toNat := by
    rw [toNat_shiftLeft, Nat.pow_one, Nat.mul_comm]
    exact Nat.mod_eq_of_lt (Nat.lt_of_succ_lt hq)
  have hcompare : r.compare d ≠ .lt ↔ d.toNat ≤ r.toNat := (not_congr compare_eq_lt).trans Nat.not_lt
  by_cases hle : d.toNat ≤ r.toNat
  · rw [hs, if_pos (hcompare.mpr hle), if_pos hle, toNat_add, htwice, toNat_one, Nat.mod_eq_of_lt hq, toNat_sub_of_le hle]
  · rw [hs, if_neg (mt hcompare.mp hle), if_neg hle, htwice]

theorem lt_of_room {n k m : Nat} (h : (n + 1) * 2 ^ (k + 1) ≤ m) : 2 * n + 1 < m := by
  have htwo : 2 ≤ 2 ^ (k + 1) := by
    have := Nat.two_pow_pos k
    rw [Nat.pow_succ]
    omega
  have hle := Nat.mul_le_mul_left (n + 1) htwo
  omega

/-- Where the quotient has room for a bit for each one of the divisor, the loop is the one of the numbers. -/
theorem divLoop_toNat (hd : d.toNat ≠ 0) (hq : (q.toNat + 1) * 2 ^ (d.toNat.log2 + 1) ≤ 2 ^ 512) :
    ((divLoop q r d).1.toNat, (divLoop q r d).2.toNat) = divSteps q.toNat r.toNat d.toNat := by
  fun_induction divLoop q r d with
  | case1 q r d q' s hzero =>
    have hs := divStep_toNat (r := r) (d := d) (s := s) (lt_of_room hq) (by simp only [s, q', dite_eq_ite])
    rw [isZero_iff, toNat_shiftRight _ (by decide), Nat.pow_one] at hzero
    rw [divSteps, dif_pos hzero, hs]
  | case2 q r d q' s hmore ih =>
    have hs := divStep_toNat (r := r) (d := d) (s := s) (lt_of_room hq) (by simp only [s, q', dite_eq_ite])
    have hhalf : (d.shiftRight 1).toNat = d.toNat / 2 := by rw [toNat_shiftRight _ (by decide), Nat.pow_one]
    rw [isZero_iff, hhalf] at hmore
    have hlog : d.toNat.log2 = (d.toNat / 2).log2 + 1 := by rw [Nat.log2_def d.toNat, if_pos (by omega)]
    have hfirst : s.1.toNat + 1 ≤ 2 * (q.toNat + 1) := by
      have hle := congrArg Prod.fst hs
      split at hle
      · have heq : s.1.toNat = 2 * q.toNat + 1 := hle
        omega
      · have heq : s.1.toNat = 2 * q.toNat := hle
        omega
    have hroom : (s.1.toNat + 1) * 2 ^ ((d.toNat / 2).log2 + 1) ≤ 2 ^ 512 := by
      refine (Nat.mul_le_mul_right _ hfirst).trans (Nat.le_trans (Nat.le_of_eq ?_) hq)
      rw [hlog, Nat.pow_succ 2 ((d.toNat / 2).log2 + 1)]
      ring
    rw [divSteps, dif_neg hmore, ← hs]
    rw [hhalf] at ih
    exact ih hmore hroom

theorem div_zero (hx : x.toNat = 0) : x.div y = .error .logicError := if_pos (isZero_iff.mpr hx)

theorem div_of_lt (hx : x.toNat ≠ 0) (h : x.toNat < y.toNat) : x.div y = .ok (0, x) := by
  rw [div, if_neg (mt isZero_iff.mp hx), compare_eq_lt.mpr h]

theorem div_of_eq (hx : x.toNat ≠ 0) (h : x.toNat = y.toNat) : x.div y = .ok (1, 0) := by
  rw [div, if_neg (mt isZero_iff.mp hx), compare_eq_eq.mpr h]

theorem log2_mono {m n : Nat} (hm : m ≠ 0) (h : m ≤ n) : m.log2 ≤ n.log2 :=
  (Nat.le_log2 (by omega)).mpr ((Nat.log2_self_le hm).trans h)

theorem two_pow_log2_le {n k : Nat} (hn : n ≠ 0) (h : n < 2 ^ k) : 2 ^ (n.log2 + 1) ≤ 2 ^ k :=
  Nat.pow_le_pow_right Nat.two_pos ((Nat.log2_lt hn).mpr h)

theorem div_of_gt (h : y.toNat < x.toNat) :
    x.div y = .ok (divLoop 0 x (y.shiftLeft (x.toNat.log2 - y.toNat.log2))) := by
  have hx : x.toNat ≠ 0 := by omega
  have hgt : x.compare y = .gt := by rw [compare_eq, Nat.compare_eq_gt.mpr h]
  have hle : y.toNat.log2 ≤ x.toNat.log2 := by
    rcases Nat.eq_zero_or_pos y.toNat with hzero | hpos
    · rw [hzero, Nat.log2_zero]
      exact Nat.zero_le _
    · exact log2_mono (by omega) h.le
  have hlsl : y.lsl (x.bitSize - y.bitSize) = .ok (y.shiftLeft (x.toNat.log2 - y.toNat.log2)) := by
    have hcount : ((x.toNat.log2 : Int) - y.toNat.log2).toNat = x.toNat.log2 - y.toNat.log2 := by omega
    rw [lsl, bitSize_eq, bitSize_eq, if_neg (by omega), hcount]
  rw [div, if_neg (mt isZero_iff.mp hx), hgt]
  dsimp only
  rw [hlsl]
  rfl

/-- The shifted divisor has as many bits as the dividend. -/
theorem shifted_divisor (hy : y.toNat ≠ 0) (h : y.toNat < x.toNat) :
    (y.shiftLeft (x.toNat.log2 - y.toNat.log2)).toNat = y.toNat * 2 ^ (x.toNat.log2 - y.toNat.log2) ∧
      (y.toNat * 2 ^ (x.toNat.log2 - y.toNat.log2)).log2 = x.toNat.log2 ∧ x.toNat < 2 * (y.toNat * 2 ^ (x.toNat.log2 - y.toNat.log2)) := by
  have hx : x.toNat ≠ 0 := by omega
  have hle := log2_mono hy h.le
  obtain ⟨s, hs⟩ : ∃ s, x.toNat.log2 - y.toNat.log2 = s := ⟨_, rfl⟩
  have hlog : x.toNat.log2 = y.toNat.log2 + s := by omega
  have hlow : 2 ^ x.toNat.log2 ≤ y.toNat * 2 ^ s := by
    rw [hlog, Nat.pow_add]
    exact Nat.mul_le_mul_right _ (Nat.log2_self_le hy)
  have hhigh : y.toNat * 2 ^ s < 2 ^ (x.toNat.log2 + 1) := by
    rw [hlog, Nat.add_right_comm, Nat.pow_add]
    exact Nat.mul_lt_mul_of_pos_right Nat.lt_log2_self (Nat.two_pow_pos s)
  have hroom : 2 ^ (x.toNat.log2 + 1) ≤ 2 ^ 512 := two_pow_log2_le hx x.toNat_lt
  have htop : x.toNat < 2 ^ (x.toNat.log2 + 1) := Nat.lt_log2_self
  rw [Nat.pow_succ] at htop
  rw [hs, toNat_shiftLeft, Nat.mod_eq_of_lt (hhigh.trans_le hroom)]
  exact ⟨rfl, (Nat.log2_eq_iff (by omega)).mpr ⟨hlow, hhigh⟩, by omega⟩

/-- What the loop makes of a dividend that is larger than the divisor. -/
theorem div_divSteps (hy : y.toNat ≠ 0) (h : y.toNat < x.toNat) : ∃ q r, x.div y = .ok (q, r) ∧ (q.toNat, r.toNat) =
    if y.toNat / 2 = 0 then (x.toNat / y.toNat, x.toNat % y.toNat)
    else divSteps (x.toNat / y.toNat) (x.toNat % y.toNat) (y.toNat / 2) := by
  obtain ⟨hdivisor, hlog, htop⟩ := shifted_divisor hy h
  have hx : x.toNat ≠ 0 := by omega
  have hroom : 2 ^ (x.toNat.log2 + 1) ≤ 2 ^ 512 := two_pow_log2_le hx x.toNat_lt
  have hloop := divLoop_toNat (q := 0) (r := x) (d := y.shiftLeft (x.toNat.log2 - y.toNat.log2))
    (by rw [hdivisor]; omega) (by rwa [hdivisor, hlog, toNat_zero, Nat.zero_add, Nat.one_mul])
  rw [hdivisor, toNat_zero, divSteps_mul (Nat.pos_of_ne_zero hy) htop, Nat.zero_mul, Nat.zero_add] at hloop
  exact ⟨_, _, div_of_gt h, hloop⟩

/-- What the quotient and the remainder have to be. -/
def Divides (x y : Uint512) : Prop :=
  if y.toNat = 0 then x.div y = .error .logicError
  else ∃ q r, x.div y = .ok (q, r) ∧ x.toNat = q.toNat * y.toNat + r.toNat ∧ r.toNat < y.toNat

theorem quotient_unique {a b q r : Nat} (h : a = q * b + r) (hr : r < b) : q = a / b := by
  rw [h, Nat.mul_comm, Nat.mul_add_div (Nat.zero_lt_of_lt hr), Nat.div_eq_of_lt hr, Nat.add_zero]

/-- `div()` divides exactly where a dividend that is not zero is not larger than the divisor, or the divisor is one; it refuses the
divisor zero where the dividend is zero too. -/
theorem divides_iff (x y : Uint512) : x.Divides y ↔
    if y.toNat = 0 then x.toNat = 0 else x.toNat ≠ 0 ∧ (x.toNat ≤ y.toNat ∨ y.toNat = 1) := by
  unfold Divides
  by_cases hy : y.toNat = 0
  · rw [if_pos hy, if_pos hy]
    refine ⟨fun h => Classical.by_contradiction fun hx => ?_, div_zero⟩
    rw [div_of_gt (by omega)] at h
    cases h
  · rw [if_neg hy, if_neg hy]
    by_cases hx : x.toNat = 0
    · refine iff_of_false ?_ fun h => h.1 hx
      rintro ⟨q, r, hdiv, -⟩
      rw [div_zero hx] at hdiv
      cases hdiv
    · rcases Nat.lt_trichotomy x.toNat y.toNat with hlt | heq | hgt
      · refine iff_of_true ⟨0, x, div_of_lt hx hlt, ?_, hlt⟩ ⟨hx, .inl hlt.le⟩
        rw [toNat_zero, Nat.zero_mul, Nat.zero_add]
      · refine iff_of_true ⟨1, 0, div_of_eq hx heq, ?_, ?_⟩ ⟨hx, .inl heq.le⟩
        · rw [toNat_one, toNat_zero, Nat.one_mul, heq, Nat.add_zero]
        · rw [toNat_zero]
          omega
      · obtain ⟨q, r, hdiv, hsteps⟩ := div_divSteps hy hgt
        have hpos : 0 < x.toNat / y.toNat := Nat.div_pos hgt.le (Nat.pos_of_ne_zero hy)
        by_cases hone : y.toNat = 1
        · rw [hone, if_pos (by decide)] at hsteps
          obtain ⟨hq, hr⟩ := Prod.mk.inj hsteps
          refine iff_of_true ⟨q, r, hdiv, ?_, ?_⟩ ⟨hx, .inr hone⟩
          · rw [hq, hr, hone]
            omega
          · rw [hr, hone]
            omega
        · refine iff_of_false ?_ fun h => h.2.elim (fun hle => by omega) hone
          rintro ⟨q', r', hdiv', hsum, hlt⟩
          obtain ⟨rfl, rfl⟩ := Prod.mk.inj (Except.ok.inj (hdiv.symm.trans hdiv'))
          -- The steps below the divisor double the quotient.
          have hmore := le_divSteps (x.toNat / y.toNat) (x.toNat % y.toNat) (y.toNat / 2)
          rw [if_neg (by omega)] at hsteps
          rw [← hsteps, ← quotient_unique hsum hlt] at hmore
          rw [← quotient_unique hsum hlt] at hpos
          have hdouble : 2 * q.toNat ≤ q.toNat := hmore
          omega

/-- Zero is not divided. -/
theorem not_divides : ¬∀ x y : Uint512, x.Divides y := by
  intro hall
  have hone := hall 0 1
  rw [Divides, toNat_one, if_neg (by decide), div_zero toNat_zero] at hone
  obtain ⟨q, r, hdiv, -⟩ := hone
  cases hdiv

end

end Uint512

end Snapwebsites.Snapdatabase
