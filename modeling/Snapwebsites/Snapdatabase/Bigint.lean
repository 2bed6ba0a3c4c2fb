import Snapwebsites.Lib.Words

/-! # Numbers of 512 bits

`uint512_t` and `int512_t`: eight words of 64 bits, the low one first; the high word of an `int512_t` has the sign, and one is made
from the other word by word. The sizes of the words are those of the machine that runs `add512()` and `sub512()`. -/

namespace Snapwebsites.Snapdatabase

inductive BigintError
  | outOfRange | logicError
  deriving DecidableEq

structure Uint512 where
  words : List (BitVec 64)
  length_words : words.length = 8
  deriving DecidableEq

abbrev Int512 := Uint512

/-- `__builtin_clzll()` of a word that is not zero. -/
def clzll (x : BitVec 64) : Nat := 63 - x.toNat.log2

/-- The loop of `bit_size()`, from the high word on; `extra` is what is added to the place of the bit. -/
def bitSizeFrom (extra : Nat) : List (BitVec 64) → Nat
  | [] => 0
  | x :: l => if x ≠ 0#64 then (clzll x ^^^ 0x3F) + (64 * l.length + extra) else bitSizeFrom extra l

/-- What `lsl()` makes of the words: whole words are moved first, then bits. -/
def lslWords (l : List (BitVec 64)) (count : Nat) : List (BitVec 64) :=
  let move := count / 64
  let shift := count % 64
  let moved := List.replicate move 0#64 ++ l.take (8 - move)
  if shift ≠ 0 then moved.take move ++ Words.shiftLeft shift 0#64 (moved.drop move) else moved

/-- The last loop of `lsr()`, on the words below `pos`. -/
def lsrBits (l : List (BitVec 64)) (pos shift : Nat) : List (BitVec 64) :=
  if shift ≠ 0 then (Words.shiftRight shift 0#64 (l.take pos).reverse).reverse ++ l.drop pos else l

section
variable {l : List (BitVec 64)} {count : Nat}

theorem length_lslWords (hl : l.length = 8) (hcount : count ≤ 512) : (lslWords l count).length = 8 := by
  have hmoved : (List.replicate (count / 64) 0#64 ++ l.take (8 - count / 64)).length = 8 := by
    rw [List.length_append, List.length_replicate, List.length_take]
    omega
  unfold lslWords
  dsimp only
  split
  · rw [List.length_append, Words.length_shiftLeft, ← List.length_append, List.take_append_drop, hmoved]
  · exact hmoved

theorem length_lsrBits (l : List (BitVec 64)) (pos shift : Nat) : (lsrBits l pos shift).length = l.length := by
  unfold lsrBits
  split
  · rw [List.length_append, List.length_reverse, Words.length_shiftRight, List.length_reverse, ← List.length_append, List.take_append_drop]
  · rfl

theorem length_cleared {place size : Nat} (hl : l.length = 8) (h : place + size ≤ 8) :
    (l.take place ++ List.replicate size 0#64 ++ l.drop (place + size)).length = 8 := by
  rw [List.length_append, List.length_append, List.length_take, List.length_replicate, List.length_drop, hl]
  omega

theorem length_moved {move : Nat} (hl : l.length = 8) (h : move ≤ 8) : (l.drop move ++ l.drop (8 - move)).length = 8 := by
  rw [List.length_append, List.length_drop, List.length_drop, hl]
  omega

theorem move_le (count : Nat) : min count 512 / 64 ≤ 8 := by omega

/-- A number modulo a power, above zeros. -/
theorem mul_pow_mod (n a b : Nat) : 2 ^ a * (n % 2 ^ b) = n * 2 ^ a % 2 ^ (a + b) := by
  rw [Nat.pow_add, Nat.mul_comm n, Nat.mul_mod_mul_left]

theorem toNat_lslWords (hl : l.length = 8) (hcount : count ≤ 512) : Words.toNat (lslWords l count) = Words.toNat l * 2 ^ count % 2 ^ 512 := by
  have hmove : 64 * (count / 64) + 64 * (8 - count / 64) = 512 := by omega
  have hlength : (l.take (8 - count / 64)).length = 8 - count / 64 := by
    rw [List.length_take]
    omega
  unfold lslWords
  dsimp only
  by_cases hshift : count % 64 = 0
  · have hall : 64 * (count / 64) = count := by omega
    rw [if_neg (not_not.mpr hshift), Words.toNat_append, Words.toNat_replicate, List.length_replicate, Nat.zero_add, Words.toNat_take,
      mul_pow_mod, hmove, hall]
  · have hall : count % 64 + 64 * (count / 64) = count := by omega
    rw [if_pos hshift, List.take_left' List.length_replicate, List.drop_left' List.length_replicate, Words.toNat_append,
      Words.toNat_replicate, List.length_replicate, Nat.zero_add, Words.toNat_shiftLeft (by omega) (Nat.two_pow_pos _), hlength,
      Words.toNat_take, BitVec.toNat_zero, Nat.add_zero, Nat.mod_mul_mod, mul_pow_mod, hmove, Nat.mul_assoc, ← Nat.pow_add, hall]

theorem toNat_lsrBits {shift : Nat} (hl : l.length = 8) (hshift : shift ≤ 64) : Words.toNat (lsrBits l 8 shift) = Words.toNat l / 2 ^ shift := by
  unfold lsrBits
  by_cases hnone : shift = 0
  · rw [if_neg (not_not.mpr hnone), hnone, Nat.pow_zero, Nat.div_one]
  · have hzero : (0#64) = (0#64) <<< (64 - shift) := by rw [BitVec.zero_shiftLeft]
    rw [if_pos hnone, List.take_of_length_le hl.le, List.drop_of_length_le hl.le, List.append_nil, hzero, Words.toNat_shiftRight hshift,
      BitVec.toNat_zero, Nat.zero_mod, Nat.mul_zero, Nat.add_zero, List.reverse_reverse]

theorem clzll_xor (n : BitVec 64) : clzll n ^^^ 0x3F = n.toNat.log2 := by
  have hxor : ∀ k < 64, (63 - k) ^^^ 0x3F = k := by decide
  refine hxor _ ?_
  rcases Nat.eq_zero_or_pos n.toNat with hzero | hpos
  · rw [hzero]
    decide
  · exact (Nat.log2_lt (Nat.ne_of_gt hpos)).mpr n.isLt

theorem bitSizeFrom_eq (extra : Nat) (l : List (BitVec 64)) :
    bitSizeFrom extra l = if Words.toNat l.reverse = 0 then 0 else (Words.toNat l.reverse).log2 + extra := by
  induction l with
  | nil => rfl
  | cons x l ih =>
    by_cases hx : x = 0#64
    · rw [bitSizeFrom, if_neg (not_not.mpr hx), ih, Words.toNat_reverse_cons, hx, BitVec.toNat_ofNat, Nat.zero_mod, Nat.mul_zero, Nat.add_zero]
    · have hsome : Words.toNat (x :: l).reverse ≠ 0 := fun hzero =>
        hx (Words.toNat_eq_zero.mp hzero x (List.mem_reverse.mpr List.mem_cons_self))
      rw [if_neg hsome, ← Words.log2_eq, bitSizeFrom, if_pos hx, clzll_xor, Words.log2, if_pos hx, Nat.add_assoc]

end

namespace Uint512

/-- The number, without a sign. -/
def toNat (x : Uint512) : Nat := Words.toNat x.words

/-- `uint512_t` with only the low word. -/
def ofWord (n : BitVec 64) : Uint512 := ⟨n :: List.replicate 7 0#64, by rw [List.length_cons, List.length_replicate]⟩

instance : OfNat Uint512 0 := ⟨ofWord 0⟩
instance : OfNat Uint512 1 := ⟨ofWord 1⟩

/-- `f_value[0]`. -/
def low (x : Uint512) : BitVec 64 := x.words.headD 0#64

/-- `operator += ()`: `add512()`. -/
def add (x y : Uint512) : Uint512 := ⟨Words.add false x.words y.words, by
  rw [Words.length_add (x.length_words.trans y.length_words.symm), x.length_words]⟩

/-- `operator -= ()`: `sub512()`. -/
def sub (x y : Uint512) : Uint512 := ⟨Words.sub false x.words y.words, by
  rw [Words.length_sub (x.length_words.trans y.length_words.symm), x.length_words]⟩

instance : Add Uint512 := ⟨add⟩
instance : Sub Uint512 := ⟨sub⟩
instance : Neg Uint512 := ⟨fun x => 0 - x⟩

/-- `bit_size()` is the place of the highest bit. -/
def bitSize (x : Uint512) : Nat := bitSizeFrom 0 x.words.reverse

/-- `lsl()` by a count that is not negative. -/
def shiftLeft (x : Uint512) (count : Nat) : Uint512 := ⟨lslWords x.words (min count 512), by
  rw [length_lslWords x.length_words (Nat.min_le_right ..)]⟩

/-- `lsr()` by less than a word: the words stay where they are. -/
def shiftRight (x : Uint512) (count : Nat) : Uint512 := ⟨lsrBits x.words 8 count, (length_lsrBits ..).trans x.length_words⟩

/-- `memset()` of words to zero, from a place in words on; `none` where it goes past the last word. -/
def clear (x : Uint512) (place size : Nat) : Option Uint512 :=
  if h : place + size ≤ 8 then
    some ⟨x.words.take place ++ List.replicate size 0#64 ++ x.words.drop (place + size), length_cleared x.length_words h⟩
  else none

/-- `memmove()` of the words from `move` on to the low end. -/
def moveRight (x : Uint512) (move : Nat) (h : move ≤ 8) : Uint512 :=
  ⟨x.words.drop move ++ x.words.drop (8 - move), length_moved x.length_words h⟩

def lsl (x : Uint512) (count : Int) : Except BigintError Uint512 :=
  if count < 0 then .error .outOfRange else .ok (x.shiftLeft count.toNat)

/-- `memset(f_value + pos * 8, 0, move * 8)` counts the place in words, not in bytes. -/
def lsr (x : Uint512) (count : Int) : Option (Except BigintError Uint512) :=
  if count < 0 then some (.error .outOfRange)
  else
    let count := min count.toNat 512
    let move := count / 64
    let pos := 8 - move
    let moved := if move > 0 then (x.moveRight move (move_le _)).clear (pos * 8) move else some x
    moved.map fun y => .ok ⟨lsrBits y.words pos (count % 64), (length_lsrBits ..).trans y.length_words⟩

def isZero (x : Uint512) : Bool := x.words.all (· = 0#64)

def compare (x y : Uint512) : Ordering := Words.compare x.words.reverse y.words.reverse

end Uint512

namespace Int512

/-- `f_high_value < 0`. -/
def isNegative (x : Int512) : Bool := (x.words.getLastD 0#64).msb

/-- `bit_size()` is the number of bits without the sign. -/
def bitSize (x : Int512) : Nat :=
  let p : Int512 := if isNegative x then 0 - x else x
  if isNegative x && isNegative p then 512 else bitSizeFrom 1 p.words.reverse

end Int512

/-! ### The numbers -/

namespace Uint512
variable {x y : Uint512} {k n : Nat}

theorem bits_eq : 64 * 8 = 512 := rfl

theorem toNat_lt (x : Uint512) : x.toNat < 2 ^ 512 := by
  have hlt := Words.toNat_lt x.words
  rwa [x.length_words, bits_eq] at hlt

theorem toNat_inj (h : x.toNat = y.toNat) : x = y := by
  have hwords := Words.toNat_inj (x.length_words.trans y.length_words.symm) h
  cases x
  cases y
  congr

@[simp] theorem toNat_ofWord (n : BitVec 64) : (ofWord n).toNat = n.toNat := by
  rw [toNat, ofWord, Words.toNat, Words.toNat_replicate, Nat.mul_zero, Nat.add_zero]

@[simp] theorem toNat_zero : (0 : Uint512).toNat = 0 := toNat_ofWord 0

@[simp] theorem toNat_one : (1 : Uint512).toNat = 1 := toNat_ofWord 1

theorem toNat_low (x : Uint512) : x.low.toNat = x.toNat % 2 ^ 64 := by
  obtain ⟨words, hlength⟩ := x
  cases words with
  | nil => cases hlength
  | cons n words => rw [low, toNat, Words.toNat, List.headD_cons, Nat.add_mul_mod_self_left, Nat.mod_eq_of_lt n.isLt]

@[simp] theorem toNat_add (x y : Uint512) : (x + y).toNat = (x.toNat + y.toNat) % 2 ^ 512 := by
  have hadd := Words.toNat_add (c := false) (x.length_words.trans y.length_words.symm)
  rwa [x.length_words, bits_eq, Bool.toNat_false, Nat.add_zero] at hadd

theorem toNat_sub_add (x y : Uint512) : ((x - y).toNat + y.toNat) % 2 ^ 512 = x.toNat := by
  have hsub := Words.toNat_sub (b := false) (x.length_words.trans y.length_words.symm)
  rwa [x.length_words, bits_eq, Bool.toNat_false, Nat.add_zero] at hsub

theorem eq_of_add_mod {a b c m : Nat} (ha : a < m) (hb : b ≤ m) (h : (a + b) % m = c) : a = (c + (m - b)) % m := by
  have hsum : a + b + (m - b) = a + m := by omega
  rw [← h, Nat.mod_add_mod, hsum, Nat.add_mod_right, Nat.mod_eq_of_lt ha]

theorem toNat_sub (x y : Uint512) : (x - y).toNat = (x.toNat + (2 ^ 512 - y.toNat)) % 2 ^ 512 :=
  eq_of_add_mod (x - y).toNat_lt y.toNat_lt.le (toNat_sub_add x y)

theorem toNat_sub_of_le (h : y.toNat ≤ x.toNat) : (x - y).toNat = x.toNat - y.toNat := by
  have hsum : x.toNat + (2 ^ 512 - y.toNat) = x.toNat - y.toNat + 2 ^ 512 := by
    rw [← Nat.add_sub_assoc y.toNat_lt.le, Nat.sub_add_comm h]
  rw [toNat_sub, hsum, Nat.add_mod_right, Nat.mod_eq_of_lt ((Nat.sub_le ..).trans_lt x.toNat_lt)]

theorem toNat_neg (x : Uint512) : (-x).toNat = (2 ^ 512 - x.toNat) % 2 ^ 512 := by
  have hneg : (-x).toNat = (0 - x).toNat := rfl
  rw [hneg, toNat_sub, toNat_zero, Nat.zero_add]

theorem toNat_shiftLeft (x : Uint512) (k : Nat) : (x.shiftLeft k).toNat = x.toNat * 2 ^ k % 2 ^ 512 := by
  have hshifted : (x.shiftLeft k).toNat = x.toNat * 2 ^ min k 512 % 2 ^ 512 := toNat_lslWords x.length_words (Nat.min_le_right ..)
  rcases Nat.le_total k 512 with hk | hk
  · rw [hshifted, Nat.min_eq_left hk]
  · have hzero : ∀ j, 512 ≤ j → x.toNat * 2 ^ j % 2 ^ 512 = 0 := fun j hj => by
      rw [← Nat.sub_add_cancel hj, Nat.pow_add, ← Nat.mul_assoc, Nat.mul_mod_left]
    rw [hshifted, Nat.min_eq_right hk, hzero 512 (Nat.le_refl _), hzero k hk]

theorem lt_two_pow_of_le {a b : Nat} (hn : n < 2 ^ a) (h : a ≤ b) : n < 2 ^ b := hn.trans_le (Nat.pow_le_pow_right Nat.two_pos h)

theorem toNat_shiftRight (x : Uint512) (hk : k ≤ 64) : (x.shiftRight k).toNat = x.toNat / 2 ^ k := toNat_lsrBits x.length_words hk

/-- The low word as an `int`. -/
theorem toInt_low (x : Uint512) (h : x.toNat < 2 ^ 31) : (x.low.setWidth 32).toInt = x.toNat := by
  have hword : (x.low.setWidth 32).toNat = x.toNat := by
    have hmod : x.toNat % 2 ^ 64 % 2 ^ 32 = x.toNat := by omega
    rw [BitVec.toNat_setWidth, toNat_low, hmod]
  rw [BitVec.toInt_eq_toNat_of_lt (by omega), hword]

/-! ### The shifts by any count -/

theorem lsl_ofNat (x : Uint512) (k : Nat) : x.lsl k = .ok (x.shiftLeft k) := if_neg (by omega)

theorem lsr_lt (hk : k < 64) : x.lsr k = some (.ok (x.shiftRight k)) := by
  have hcount : min k 512 = k := by omega
  have hmove : ¬k / 64 > 0 := by omega
  have hshift : k % 64 = k := by omega
  have hpos : 8 - k / 64 = 8 := by omega
  unfold lsr
  simp only [Int.toNat_natCast, hcount, if_neg hmove, hshift, hpos]
  rw [if_neg (by omega)]
  rfl

theorem clear_all (x : Uint512) : x.clear 0 8 = some 0 := by
  refine congrArg some (toNat_inj ?_)
  show Words.toNat (x.words.take 0 ++ List.replicate 8 0#64 ++ x.words.drop 8) = _
  rw [List.take_zero, List.nil_append, List.drop_of_length_le x.length_words.le, List.append_nil, Words.toNat_replicate, toNat_zero]

/-- Where words are moved, all eight are cleared, or `memset()` starts behind them. -/
theorem lsr_ge (hk : 64 ≤ k) : x.lsr k = if 512 ≤ k then some (.ok 0) else none := by
  have hmove : min k 512 / 64 > 0 := by omega
  unfold lsr
  simp only [Int.toNat_natCast, if_pos hmove]
  rw [if_neg (by omega)]
  by_cases hall : 512 ≤ k
  · have hcount : min k 512 = 512 := by omega
    rw [if_pos hall]
    simp only [hcount, Nat.reduceDiv, Nat.sub_self, Nat.zero_mul, clear_all]
    rfl
  · have hout : ¬(8 - min k 512 / 64) * 8 + min k 512 / 64 ≤ 8 := by omega
    rw [if_neg hall, clear, dif_neg hout, Option.map_none]

/-- Both shifts give the numbers that they are documented to give. -/
def Shifts (x : Uint512) (k : Nat) : Prop :=
  (∃ y, x.lsl k = .ok y ∧ y.toNat = x.toNat * 2 ^ k % 2 ^ 512) ∧ ∃ y, x.lsr k = some (.ok y) ∧ y.toNat = x.toNat / 2 ^ k

/-- A shift to the right is right by less than a word, and by all words. -/
theorem shifts_iff (x : Uint512) (k : Nat) : Shifts x k ↔ k < 64 ∨ 512 ≤ k := by
  have hleft : ∃ y, x.lsl k = .ok y ∧ y.toNat = x.toNat * 2 ^ k % 2 ^ 512 := ⟨_, lsl_ofNat x k, toNat_shiftLeft x k⟩
  constructor
  · rintro ⟨-, y, hy, -⟩
    by_contra hk
    rw [lsr_ge (by omega), if_neg (by omega)] at hy
    cases hy
  · rintro (hk | hk)
    · exact ⟨hleft, _, lsr_lt hk, toNat_shiftRight x hk.le⟩
    · refine ⟨hleft, 0, ?_, ?_⟩
      · rw [lsr_ge (by omega), if_pos hk]
      · rw [toNat_zero, Nat.div_eq_of_lt (lt_two_pow_of_le x.toNat_lt hk)]

/-- By one word, `memset()` starts behind the number. -/
theorem not_shifts : ¬Shifts 1 64 := by
  rintro ⟨-, y, hy, -⟩
  rw [lsr_ge (by decide), if_neg (by decide)] at hy
  cases hy

/-! ### The order and the highest bit -/

theorem isZero_iff : x.isZero = true ↔ x.toNat = 0 := by
  rw [isZero, toNat, Words.toNat_eq_zero, List.all_eq_true]
  simp

theorem compare_eq (x y : Uint512) : x.compare y = Ord.compare x.toNat y.toNat := by
  rw [compare, Words.compare_eq (by rw [List.length_reverse, List.length_reverse, x.length_words, y.length_words]), List.reverse_reverse,
    List.reverse_reverse]
  rfl

theorem bitSize_eq (x : Uint512) : x.bitSize = x.toNat.log2 := by
  rw [bitSize, bitSizeFrom_eq, List.reverse_reverse]
  split
  · rename_i hzero
    rw [toNat, hzero]
    rfl
  · rfl

/-- The number as 512 bits. -/
def toBits (x : Uint512) : BitVec 512 := BitVec.ofNat 512 x.toNat

theorem toNat_toBits (x : Uint512) : x.toBits.toNat = x.toNat := by
  have hbits : ∀ {n w : Nat}, n < 2 ^ w → (BitVec.ofNat w n).toNat = n := fun h => by rw [BitVec.toNat_ofNat, Nat.mod_eq_of_lt h]
  exact hbits x.toNat_lt

/-- The words are the numbers of 512 bits, with their sums, differences and shifts to the left, and their order. -/
theorem toBits_refines (x y : Uint512) (k : Nat) :
    (x + y).toBits = x.toBits + y.toBits ∧ (x - y).toBits = x.toBits - y.toBits ∧ (-x).toBits = -x.toBits ∧
      (∃ z, x.lsl k = .ok z ∧ z.toBits = x.toBits <<< k) ∧ x.compare y = Ord.compare x.toBits.toNat y.toBits.toNat ∧
        (x.toBits = y.toBits ↔ x = y) := by
  have hbits {z : Uint512} {b : BitVec 512} (h : z.toNat = b.toNat) : z.toBits = b :=
    BitVec.eq_of_toNat_eq ((toNat_toBits z).trans h)
  refine ⟨hbits ?_, hbits ?_, hbits ?_, ⟨_, lsl_ofNat x k, hbits ?_⟩, ?_, ?_⟩
  · rw [toNat_add, BitVec.toNat_add, toNat_toBits, toNat_toBits]
  · rw [toNat_sub, BitVec.toNat_sub, toNat_toBits, toNat_toBits, Nat.add_comm]
  · rw [toNat_neg, BitVec.toNat_neg, toNat_toBits]
  · rw [toNat_shiftLeft, BitVec.toNat_shiftLeft, toNat_toBits, Nat.shiftLeft_eq]
  · rw [compare_eq, toNat_toBits, toNat_toBits]
  · exact ⟨fun h => toNat_inj (by rw [← toNat_toBits x, h, toNat_toBits]), congrArg toBits⟩

end Uint512

/-! ### Signed numbers -/

namespace Int512
variable {x : Int512} {w : Nat}

theorem le_high_iff {a b m n : Nat} (ha : a < 2 ^ m) : 2 ^ (m + n) ≤ a + 2 ^ m * b ↔ 2 ^ n ≤ b := by
  have hdiv : (a + 2 ^ m * b) / 2 ^ m = b := by rw [Nat.add_mul_div_left _ _ (Nat.two_pow_pos m), Nat.div_eq_of_lt ha, Nat.zero_add]
  rw [Nat.pow_add, Nat.mul_comm, ← Nat.le_div_iff_mul_le (Nat.two_pow_pos m), hdiv]

/-- The high bit of the high word is the highest of all. -/
theorem isNegative_iff (x : Int512) : isNegative x = true ↔ 2 ^ 511 ≤ x.toNat := by
  obtain ⟨words, hlength⟩ := x
  have hsome : words ≠ [] := fun h => by rw [h] at hlength; cases hlength
  have hlow := Words.toNat_lt words.dropLast
  have hvalue := Words.toNat_append words.dropLast [words.getLast hsome]
  rw [List.dropLast_concat_getLast hsome, Words.toNat, Words.toNat, Nat.mul_zero, Nat.add_zero] at hvalue
  have hnumber : Uint512.toNat ⟨words, hlength⟩ = Words.toNat words := rfl
  have hhigh : words.getLastD 0#64 = words.getLast hsome := by rw [List.getLastD_eq_getLast?, List.getLast?_eq_some_getLast hsome]; rfl
  have hplace : 64 * words.dropLast.length + 63 = 511 := by rw [List.length_dropLast, hlength]
  rw [isNegative, hhigh, BitVec.msb_eq_decide, decide_eq_true_iff, hnumber, hvalue, ← hplace, le_high_iff hlow]

theorem bitSizeFrom_one_le {l : List (BitVec 64)} {n : Nat} (hn : Words.toNat l = n) : bitSizeFrom 1 l.reverse ≤ w ↔ n < 2 ^ w := by
  rw [bitSizeFrom_eq, List.reverse_reverse, hn]
  split
  · rename_i hzero
    exact iff_of_true (Nat.zero_le w) (by rw [hzero]; exact Nat.two_pow_pos w)
  · rename_i hsome
    exact (Nat.lt_iff_add_one_le.symm.trans (Nat.log2_lt hsome))

theorem two_pow_succ_eq {k n : Nat} (h : n = k + 1) : 2 ^ n = 2 * 2 ^ k := by rw [h, Nat.pow_succ, Nat.mul_comm]

theorem two_pow_le {k n : Nat} (h : k ≤ n) : 2 ^ k ≤ 2 ^ n := Nat.pow_le_pow_right Nat.two_pos h

theorem toNat_zero_sub (x : Uint512) : (0 - x).toNat = (2 ^ 512 - x.toNat) % 2 ^ 512 := Uint512.toNat_neg x

/-- A number is as large as `w` bits hold without its sign. -/
theorem bitSize_le_iff (hw : w < 512) : bitSize x ≤ w ↔ x.toNat < 2 ^ w ∨ 2 ^ 512 - x.toNat < 2 ^ w := by
  have hlt := x.toNat_lt
  have hneg := toNat_zero_sub x
  have hnegative := isNegative_iff x
  have hpositive := isNegative_iff (0 - x)
  have htwice : 2 ^ 512 = 2 * 2 ^ 511 := two_pow_succ_eq rfl
  have hhalf : 2 ^ w ≤ 2 ^ 511 := two_pow_le (Nat.le_of_lt_succ hw)
  have hpos := Nat.two_pow_pos w
  obtain ⟨half, hhalf'⟩ : ∃ half, 2 ^ 511 = half := ⟨_, rfl⟩
  rw [hhalf'] at hnegative hpositive htwice hhalf
  rw [htwice] at hlt hneg ⊢
  unfold bitSize
  cases hx : isNegative x with
  | true =>
    have hle := hnegative.mp hx
    rw [Nat.mod_eq_of_lt (by omega)] at hneg
    simp only [if_true, Bool.true_and]
    by_cases hp : isNegative (0 - x) = true
    · have hp' := hpositive.mp hp
      rw [if_pos hp]
      omega
    · rw [if_neg hp, bitSizeFrom_one_le hneg]
      omega
  | false =>
    have hle : ¬half ≤ x.toNat := fun h => by rw [hnegative.mpr h] at hx; cases hx
    simp only [Bool.false_and, Bool.false_eq_true, if_false]
    rw [bitSizeFrom_one_le rfl]
    have hnumber : Words.toNat x.words = x.toNat := rfl
    omega

end Int512

end Snapwebsites.Snapdatabase
