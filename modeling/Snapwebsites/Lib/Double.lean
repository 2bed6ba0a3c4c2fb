import Mathlib.Algebra.Order.Floor.Ring
import Mathlib.Data.Int.Log
import Mathlib.Data.Rat.Floor
import Mathlib.Tactic.FieldSimp
import Mathlib.Tactic.Linarith
import Mathlib.Tactic.NormNum
import Mathlib.Tactic.Positivity
import Mathlib.Tactic.Ring

/-! # Double precision

A rational number rounded to the nearest one of 53 significant bits, of two the even one: what an operation on doubles gives
while its exponent stays in range. Conversion to an integer cuts the fraction off, so a double that should be an integer
but is rounded to the number below it loses one (`truncate_round_iff`). -/

namespace Double

/-- The nearest integer, the even one of two. -/
def roundEven (q : ℚ) : ℤ :=
  if q - ⌊q⌋ < 1 / 2 then ⌊q⌋ else if 1 / 2 < q - ⌊q⌋ then ⌊q⌋ + 1 else if ⌊q⌋ % 2 = 0 then ⌊q⌋ else ⌊q⌋ + 1

/-- The distance between neighbours around a number. -/
def ulp (q : ℚ) : ℚ := 2 ^ (Int.log 2 |q| - 52)

def round (q : ℚ) : ℚ := roundEven (q / ulp q) * ulp q

def truncate (q : ℚ) : ℤ := if 0 ≤ q then ⌊q⌋ else ⌈q⌉

/-! ### Integers -/

section
variable {q : ℚ} {z : ℤ}

theorem le_roundEven (h : z ≤ q) : z ≤ roundEven q := by
  have hz : z ≤ ⌊q⌋ := Int.le_floor.mpr h
  unfold roundEven
  split_ifs <;> omega

theorem roundEven_le (h : q ≤ z) : roundEven q ≤ z := by
  have hz : ⌊q⌋ ≤ z := Int.cast_le.mp ((Int.floor_le q).trans h)
  rcases hz.lt_or_eq with hlt | heq
  · unfold roundEven
    split_ifs <;> omega
  · have hfloor := Int.floor_le q
    have hfract : q - ⌊q⌋ < 1 / 2 := by
      rw [heq] at hfloor ⊢
      linarith
    rw [roundEven, if_pos hfract, heq]

theorem roundEven_intCast (z : ℤ) : roundEven z = z := le_antisymm (roundEven_le le_rfl) (le_roundEven le_rfl)

/-- Half a unit below an even number still gives that number. -/
theorem roundEven_even (hz : z % 2 = 0) (hlow : z - 1 / 2 ≤ q) (hhigh : q ≤ z) : roundEven q = z := by
  refine le_antisymm (roundEven_le hhigh) ?_
  rcases hhigh.lt_or_eq with hlt | heq
  · have hfloor : ⌊q⌋ = z - 1 := by
      refine Int.floor_eq_iff.mpr ⟨?_, ?_⟩ <;> push_cast <;> linarith
    have hcast : ((z - 1 : ℤ) : ℚ) = z - 1 := by push_cast; ring
    unfold roundEven
    rw [hfloor, hcast, if_neg (by linarith)]
    split_ifs <;> omega
  · exact le_roundEven heq.ge

theorem roundEven_lt (h : q < z - 1 / 2) : roundEven q < z := by
  have hfloor : ⌊q⌋ < z := Int.floor_lt.mpr (by linarith)
  rcases (Int.le_sub_one_iff.mpr hfloor).lt_or_eq with hlt | heq
  · unfold roundEven
    split_ifs <;> omega
  · have hcast : ((z - 1 : ℤ) : ℚ) = z - 1 := by push_cast; ring
    unfold roundEven
    rw [heq, hcast, if_pos (by linarith)]
    omega

theorem roundEven_div {n d : ℕ} (hd : 0 < d) (h : 2 * (n % d) ≠ d) :
    roundEven ((n : ℚ) / d) = if 2 * (n % d) < d then ((n / d : ℕ) : ℤ) else ((n / d : ℕ) : ℤ) + 1 := by
  have hd' : (0 : ℚ) < d := by exact_mod_cast hd
  have hfloor : ⌊(n : ℚ) / d⌋ = ((n / d : ℕ) : ℤ) := by rw [Rat.floor_natCast_div_natCast]; rfl
  have hfract : (n : ℚ) / d - ((n / d : ℕ) : ℤ) = ((n % d : ℕ) : ℚ) / d := by
    rw [eq_div_iff hd'.ne', sub_mul, div_mul_cancel₀ _ hd'.ne', Int.cast_natCast]
    have : ((n / d : ℕ) : ℚ) * d + (n % d : ℕ) = n := by exact_mod_cast Nat.div_add_mod' n d
    linarith
  have hbelow : ((n % d : ℕ) : ℚ) / d < 1 / 2 ↔ 2 * (n % d) < d := by
    rw [div_lt_div_iff₀ hd' (by norm_num)]
    norm_cast
    omega
  have habove : 1 / 2 < ((n % d : ℕ) : ℚ) / d ↔ d < 2 * (n % d) := by
    rw [div_lt_div_iff₀ (by norm_num) hd']
    norm_cast
    omega
  unfold roundEven
  simp only [hfloor, hfract, hbelow, habove]
  split_ifs <;> omega

end

/-! ### Exponents -/

section
variable {q : ℚ} {k : ℤ}

theorem log_eq (hlow : 2 ^ k ≤ q) (hhigh : q < 2 ^ (k + 1)) : Int.log 2 q = k := by
  have hpos : 0 < q := (zpow_pos (by norm_num) k).trans_le hlow
  refine le_antisymm ?_ ?_
  · exact Int.lt_add_one_iff.mp ((Int.lt_zpow_iff_log_lt (by decide) hpos).mp (by exact_mod_cast hhigh))
  · exact (Int.zpow_le_iff_le_log (by decide) hpos).mp (by exact_mod_cast hlow)

theorem round_eq (hlow : 2 ^ k ≤ q) (hhigh : q < 2 ^ (k + 1)) : round q = roundEven (q * 2 ^ (52 - k)) * 2 ^ (k - 52) := by
  have hpos : 0 < q := (zpow_pos (by norm_num) k).trans_le hlow
  have hulp : ulp q = 2 ^ (k - 52) := by rw [ulp, abs_of_pos hpos, log_eq hlow hhigh]
  have hinv : q / 2 ^ (k - 52) = q * 2 ^ (52 - k) := by
    rw [div_eq_mul_inv, ← zpow_neg, neg_sub]
  rw [round, hulp, hinv]

/-- Rounding stays within the next power of two. -/
theorem round_bounds (h : 0 ≤ q) : 0 ≤ round q ∧ round q ≤ 2 * q := by
  rcases h.eq_or_lt with rfl | hpos
  · simp [round, roundEven]
  have hlog : (2 : ℚ) ^ Int.log 2 |q| ≤ q := by
    rw [abs_of_pos hpos]
    exact_mod_cast Int.zpow_log_le_self (b := 2) (by decide) hpos
  have hulp : 0 < ulp q := zpow_pos (by norm_num) _
  have hle : ulp q ≤ q := (zpow_le_zpow_right₀ (by norm_num) (by omega)).trans hlog
  have hone : 1 ≤ q / ulp q := (one_le_div hulp).mpr hle
  have hnonneg : 0 ≤ roundEven (q / ulp q) := le_roundEven (by push_cast; linarith)
  have hceil : roundEven (q / ulp q) ≤ ⌈q / ulp q⌉ := roundEven_le (Int.le_ceil _)
  have hup : (roundEven (q / ulp q) : ℚ) ≤ 2 * (q / ulp q) := by
    have hcast : (roundEven (q / ulp q) : ℚ) ≤ ⌈q / ulp q⌉ := by exact_mod_cast hceil
    linarith [Int.ceil_lt_add_one (q / ulp q)]
  refine ⟨mul_nonneg (by exact_mod_cast hnonneg) hulp.le, ?_⟩
  have hmul := mul_le_mul_of_nonneg_right hup hulp.le
  rwa [mul_assoc, div_mul_cancel₀ _ hulp.ne'] at hmul

theorem truncate_bounds (h : 0 ≤ q) : 0 ≤ truncate q ∧ truncate q ≤ q := by
  rw [truncate, if_pos h]
  exact ⟨Int.floor_nonneg.mpr h, Int.floor_le q⟩

/-- A rounded number is not rounded any further. -/
theorem round_round (h : 0 ≤ q) : round (round q) = round q := by
  rcases h.eq_or_lt with rfl | hpos
  · have hzero : round 0 = 0 := by simp [round, roundEven]
    rw [hzero, hzero]
  have hlow : 2 ^ Int.log 2 q ≤ q := by exact_mod_cast Int.zpow_log_le_self (b := 2) (by decide) hpos
  have hhigh : q < 2 ^ (Int.log 2 q + 1) := by exact_mod_cast Int.lt_zpow_succ_log_self (b := 2) (by decide) q
  generalize Int.log 2 q = k at hlow hhigh
  have hunit : (0 : ℚ) < 2 ^ (52 - k) := zpow_pos (by norm_num) _
  have hsplit : ∀ m : ℤ, (2 : ℚ) ^ m * 2 ^ (52 - k) = 2 ^ (m + 52 - k) := fun m => by
    rw [← zpow_add₀ (by norm_num)]
    congr 1
    ring
  have hm₁ : 2 ^ 52 ≤ roundEven (q * 2 ^ (52 - k)) := by
    refine le_roundEven ?_
    have := mul_le_mul_of_nonneg_right hlow hunit.le
    rw [hsplit, show k + 52 - k = ((52 : ℕ) : ℤ) by push_cast; ring, zpow_natCast] at this
    exact_mod_cast this
  have hm₂ : roundEven (q * 2 ^ (52 - k)) ≤ 2 ^ 53 := by
    refine roundEven_le ?_
    have := mul_le_mul_of_nonneg_right hhigh.le hunit.le
    rw [hsplit, show k + 1 + 52 - k = ((53 : ℕ) : ℤ) by push_cast; ring, zpow_natCast] at this
    exact_mod_cast this
  rw [round_eq hlow hhigh]
  generalize roundEven (q * 2 ^ (52 - k)) = m at hm₁ hm₂
  have hinv : (2 : ℚ) ^ (k - 52) * 2 ^ (52 - k) = 1 := by
    rw [← zpow_add₀ (by norm_num), show k - 52 + (52 - k) = 0 by ring, zpow_zero]
  have hbelow : (2 : ℚ) ^ k = 2 ^ 52 * 2 ^ (k - 52) := by
    rw [← zpow_natCast, ← zpow_add₀ (by norm_num)]
    congr 1
    push_cast
    ring
  have hscale : (0 : ℚ) < 2 ^ (k - 52) := zpow_pos (by norm_num) _
  rcases hm₂.lt_or_eq with hlt | rfl
  · have hq₁ : (2 : ℚ) ^ k ≤ m * 2 ^ (k - 52) := by
      rw [hbelow]
      exact mul_le_mul_of_nonneg_right (by exact_mod_cast hm₁) hscale.le
    have hq₂ : (m : ℚ) * 2 ^ (k - 52) < 2 ^ (k + 1) := by
      rw [zpow_add_one₀ (by norm_num), hbelow, mul_right_comm]
      exact mul_lt_mul_of_pos_right (by exact_mod_cast (by omega : m < 2 ^ 52 * 2)) hscale
    rw [round_eq hq₁ hq₂, mul_assoc, hinv, mul_one, roundEven_intCast]
  · -- the number above the exponent's range is the first one of the next exponent
    have hnext : (((2 ^ 53 : ℤ)) : ℚ) * 2 ^ (k - 52) = 2 ^ (k + 1) := by
      rw [zpow_add_one₀ (by norm_num), hbelow]
      push_cast
      ring
    have hone : (2 : ℚ) ^ (k + 1) * 2 ^ (52 - (k + 1)) = ((2 ^ 52 : ℤ) : ℚ) := by
      rw [← zpow_add₀ (by norm_num), show k + 1 + (52 - (k + 1)) = ((52 : ℕ) : ℤ) by push_cast; ring, zpow_natCast]
      push_cast
      rfl
    have hback : ((2 ^ 52 : ℤ) : ℚ) * 2 ^ (k + 1 - 52) = 2 ^ (k + 1) := by
      rw [← hone, mul_assoc, ← zpow_add₀ (by norm_num), show 52 - (k + 1) + (k + 1 - 52) = 0 by ring, zpow_zero, mul_one]
    rw [hnext, round_eq (k := k + 1) le_rfl (zpow_lt_zpow_right₀ (by norm_num) (by omega)), hone, roundEven_intCast, hback]

end

/-! ### Numbers next to an integer -/

section
variable {n e : ℕ} {q : ℚ}

theorem truncate_eq_iff (h : 0 ≤ q) : truncate q = n ↔ (n : ℚ) ≤ q ∧ q < n + 1 := by
  rw [truncate, if_pos h, Int.floor_eq_iff]
  push_cast
  rfl

/-- Below 2^52 the neighbours of a number are the multiples of `1 / 2 ^ (52 - e)`. -/
theorem round_of_mem (hlow : 2 ^ e ≤ q) (hhigh : q < 2 ^ (e + 1)) (he : e < 52) :
    round q = roundEven (q * (2 ^ (52 - e) : ℕ)) / (2 ^ (52 - e) : ℕ) := by
  have hexp : (2 : ℚ) ^ (52 - (e : ℤ)) = (2 ^ (52 - e) : ℕ) := by
    rw [show 52 - (e : ℤ) = ((52 - e : ℕ) : ℤ) by omega, zpow_natCast]
    push_cast
    rfl
  have hinv : (2 : ℚ) ^ ((e : ℤ) - 52) = (((2 ^ (52 - e) : ℕ) : ℚ))⁻¹ := by rw [← hexp, ← zpow_neg, neg_sub]
  rw [round_eq (k := e) (by exact_mod_cast hlow) (by exact_mod_cast hhigh), hexp, hinv, div_eq_mul_inv]

/-- From the integer on. -/
theorem truncate_round_of_le (hlow : 2 ^ e ≤ n) (hhigh : n < 2 ^ (e + 1)) (he : e < 52) (hq : n ≤ q) (hq' : q ≤ n + 1 / 2) :
    truncate (round q) = n := by
  have hpow : (2 : ℚ) ^ e ≤ n := by exact_mod_cast hlow
  have hpow' : (n : ℚ) + 1 ≤ 2 ^ (e + 1) := by exact_mod_cast hhigh
  have hround := round_of_mem (hpow.trans hq) (by linarith) he
  obtain ⟨w, hw⟩ : ∃ w, 2 ^ (52 - e) = 2 * w := ⟨2 ^ (51 - e), by rw [← pow_succ', show 51 - e + 1 = 52 - e by omega]⟩
  have hw₀ : 0 < w := by
    have := Nat.two_pow_pos (52 - e)
    omega
  have hw₁ : (1 : ℚ) ≤ w := by exact_mod_cast hw₀
  rw [hw] at hround
  push_cast at hround
  have hle : ((n * (2 * w) : ℤ) : ℚ) ≤ q * (2 * w) := by
    push_cast
    exact mul_le_mul_of_nonneg_right hq (by linarith)
  have hge : q * (2 * w) ≤ ((n * (2 * w) + w : ℤ) : ℚ) := by
    push_cast
    nlinarith
  have hz₁ : ((n * (2 * w) : ℤ) : ℚ) ≤ roundEven (q * (2 * w)) := by exact_mod_cast le_roundEven hle
  have hz₂ : (roundEven (q * (2 * w)) : ℚ) ≤ ((n * (2 * w) + w : ℤ) : ℚ) := by exact_mod_cast roundEven_le hge
  push_cast at hz₁ hz₂
  have hlow' : (n : ℚ) ≤ round q := by rw [hround, le_div_iff₀ (by linarith)]; exact hz₁
  have hhigh' : round q < n + 1 := by rw [hround, div_lt_iff₀ (by linarith)]; nlinarith
  exact (truncate_eq_iff (le_trans (by positivity) hlow')).mpr ⟨hlow', hhigh'⟩

/-- Below it: no more than half the distance to the neighbour below. -/
theorem truncate_round_iff (hlow : 2 ^ e < n) (hhigh : n < 2 ^ (e + 1)) (he : e < 52) (hq : n - 1 ≤ q) (hq' : q ≤ n) :
    truncate (round q) = n ↔ (n - q) * 2 ^ (53 - e) ≤ 1 := by
  have hpow : (2 : ℚ) ^ e + 1 ≤ n := by exact_mod_cast hlow
  have hpow' : (n : ℚ) < 2 ^ (e + 1) := by exact_mod_cast hhigh
  have hround := round_of_mem (by linarith) (hq'.trans_lt hpow') he
  obtain ⟨w, hw⟩ : ∃ w, 2 ^ (52 - e) = 2 * w := ⟨2 ^ (51 - e), by rw [← pow_succ', show 51 - e + 1 = 52 - e by omega]⟩
  have hw₀ : 0 < w := by
    have := Nat.two_pow_pos (52 - e)
    omega
  have hw₁ : (1 : ℚ) ≤ w := by exact_mod_cast hw₀
  have hunit : (2 : ℚ) ^ (53 - e) = 2 * (2 * w) := by
    rw [show 53 - e = 52 - e + 1 by omega, pow_succ']
    exact_mod_cast congrArg (2 * ·) hw
  rw [hw] at hround
  push_cast at hround
  rw [hunit]
  constructor
  · intro h
    by_contra hfar
    have hlt : q * (2 * w) < ((n * (2 * w) : ℤ) : ℚ) - 1 / 2 := by
      push_cast
      linarith
    have hz : (roundEven (q * (2 * w)) : ℚ) ≤ ((n * (2 * w) - 1 : ℤ) : ℚ) := by
      exact_mod_cast Int.le_sub_one_of_lt (roundEven_lt hlt)
    push_cast at hz
    have hbelow : round q < n := by
      rw [hround, div_lt_iff₀ (by linarith)]
      linarith
    have hnonneg : 0 ≤ round q := by
      have hpos : ((0 : ℤ) : ℚ) ≤ q * (2 * w) := by
        have : (0 : ℚ) < 2 ^ e := by positivity
        push_cast
        exact mul_nonneg (by linarith) (by linarith)
      have hz₀ : (0 : ℚ) ≤ roundEven (q * (2 * w)) := by exact_mod_cast le_roundEven hpos
      rw [hround]
      exact div_nonneg hz₀ (by linarith)
    exact absurd ((truncate_eq_iff hnonneg).mp h).1 (not_le.mpr hbelow)
  · intro h
    have heven : ((n * (2 * w) : ℤ)) % 2 = 0 := by
      rw [show (n * (2 * w) : ℤ) = 2 * (n * w) by ring]
      exact Int.mul_emod_right 2 _
    have hz := roundEven_even (q := q * (2 * w)) (z := n * (2 * w)) heven (by push_cast; linarith)
      (by push_cast; exact mul_le_mul_of_nonneg_right hq' (by linarith))
    have hexact : round q = n := by
      rw [hround, hz]
      push_cast
      exact mul_div_cancel_right₀ _ (by positivity)
    rw [hexact]
    exact (truncate_eq_iff (by positivity)).mpr ⟨le_rfl, by linarith⟩

/-- Below a power of two the neighbours are closer. -/
theorem truncate_round_two_pow (he : 0 < e) (he' : e < 52) (hq : (2 ^ e - q) * 2 ^ (54 - e) ≤ 1) (hq' : q < 2 ^ e) :
    truncate (round q) = (2 ^ e : ℕ) := by
  obtain ⟨d, rfl⟩ : ∃ d, e = d + 1 := ⟨e - 1, by omega⟩
  have hunit : (2 : ℚ) ^ (54 - (d + 1)) = 2 * (2 ^ (52 - d) : ℕ) := by
    rw [show 54 - (d + 1) = 52 - d + 1 by omega, pow_succ']
    push_cast
    rfl
  have hw₁ : (1 : ℚ) ≤ (2 ^ (52 - d) : ℕ) := by exact_mod_cast Nat.two_pow_pos (52 - d)
  have hsplit : (2 : ℚ) ^ (d + 1) * (2 ^ (52 - d) : ℕ) = 2 ^ 53 := by
    push_cast
    rw [← pow_add]
    congr 1
    omega
  have hd : (1 : ℚ) ≤ 2 ^ d := one_le_pow₀ (by norm_num)
  rw [hunit] at hq
  have hlow : (2 : ℚ) ^ d ≤ q := by
    rw [pow_succ] at hq
    nlinarith
  have hz : roundEven (q * (2 ^ (52 - d) : ℕ)) = 2 ^ 53 := by
    refine roundEven_even (by norm_num) ?_ ?_
    · push_cast at hsplit hq ⊢
      linarith
    · have := mul_le_mul_of_nonneg_right hq'.le (zero_le_one.trans hw₁)
      rw [hsplit] at this
      push_cast at this ⊢
      exact this
  have hexact : round q = 2 ^ (d + 1) := by
    rw [round_of_mem hlow hq' (by omega), hz, div_eq_iff (by positivity), hsplit]
    norm_num
  have hnat : ((2 ^ (d + 1) : ℕ) : ℚ) = 2 ^ (d + 1) := by push_cast; rfl
  rw [hexact, ← hnat]
  exact (truncate_eq_iff (by positivity)).mpr ⟨le_rfl, by linarith⟩

end

end Double
