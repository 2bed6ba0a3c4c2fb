import Mathlib.Order.Compare
import Snapwebsites.Snapdatabase.Cell
import Snapwebsites.Snapdatabase.ConvertRange
import Snapwebsites.Snapdatabase.Table

/-! # The order of values in binary

`value_to_binary()` writes the high byte first, so that bytes can be compared with `memcmp()`. The high bit of a negative number is set. -/

namespace Snapwebsites.Snapdatabase

/-- The integer, time and version types: whether they have a sign, and their width. -/
def StructType.number? (type : StructType) : Option (Bool × Nat) :=
  match type with
  | .version => some (false, 32)
  | .time | .mstime | .ustime => some (false, 64)
  | _ => type.integer?

/-- The number that a setter is given. -/
def CellSetter.number : CellSetter → Int
  | .oid value | .uint64 value | .time value | .timeMs value | .timeUs value => value.toNat
  | .uint8 value => value.toNat
  | .uint16 value => value.toNat
  | .uint32 value | .version value => value.toNat
  | .uint128 value | .uint256 value | .uint512 value => value.toNat
  | .int8 value => value.toInt
  | .int16 value => value.toInt
  | .int32 value => value.toInt
  | .int64 value => value.toInt
  | .int128 value | .int256 value | .int512 value => value.toInt
  | .void | .string _ => 0

namespace RowCell

/-- The cell has a number of `w` bits in its low bits. -/
def Holds (w : Nat) (c : RowCell) (n : Int) : Prop := (c.integer.toNat : Int) % 2 ^ w = n % 2 ^ w

end RowCell

/-! ### Bytes -/

section
variable {type : StructType} {signed : Bool} {w : Nat} {m n : Int} {c d : RowCell}

theorem compare_congr {a b : Nat} (hlt : a < b ↔ m < n) (heq : a = b ↔ m = n) : compare a b = compare m n := by
  rcases Nat.lt_trichotomy a b with h | h | h
  · rw [Nat.compare_eq_lt.mpr h, compare_lt_iff_lt.mpr (hlt.mp h)]
  · rw [Nat.compare_eq_eq.mpr h, compare_eq_iff_eq.mpr (heq.mp h)]
  · rw [Nat.compare_eq_gt.mpr h, compare_gt_iff_gt.mpr (by omega)]

/-- The first digits decide, and where they are the same what is behind them does. -/
theorem compare_then (a b p q : Nat) {k : Nat} (hp : p < k) (hq : q < k) :
    (compare a b).then (compare p q) = compare (k * a + p) (k * b + q) := by
  have hhigh : ∀ {a b p q : Nat}, p < k → a < b → k * a + p < k * b + q := fun {a b p q} hp hlt => by
    have hle := Nat.mul_le_mul_left k (Nat.succ_le_of_lt hlt)
    rw [Nat.mul_succ] at hle
    omega
  rcases Nat.lt_trichotomy a b with h | rfl | h
  · rw [Nat.compare_eq_lt.mpr h, Nat.compare_eq_lt.mpr (hhigh hp h)]
    rfl
  · rw [Nat.compare_eq_eq.mpr rfl, Ordering.eq_then]
    rcases Nat.lt_trichotomy p q with h | rfl | h
    · rw [Nat.compare_eq_lt.mpr h, Nat.compare_eq_lt.mpr (Nat.add_lt_add_left h _)]
    · rw [Nat.compare_eq_eq.mpr rfl, Nat.compare_eq_eq.mpr rfl]
    · rw [Nat.compare_eq_gt.mpr h, Nat.compare_eq_gt.mpr (Nat.add_lt_add_left h _)]
  · rw [Nat.compare_eq_gt.mpr h, Nat.compare_eq_gt.mpr (hhigh hq h)]
    rfl

theorem compare_uint8 (a b : UInt8) : compare a b = compare a.toNat b.toNat := by
  rcases Nat.lt_trichotomy a.toNat b.toNat with h | h | h
  · rw [Nat.compare_eq_lt.mpr h, Std.compare_eq_lt.mpr (UInt8.lt_iff_toNat_lt.mpr h)]
  · rw [UInt8.toNat_inj.mp h, Std.ReflOrd.compare_self, Std.ReflOrd.compare_self]
  · rw [Nat.compare_eq_gt.mpr h, Std.compare_eq_gt.mpr (UInt8.lt_iff_toNat_lt.mpr h)]

/-- High bytes first, the order of the bytes is the one of the numbers. -/
theorem compare_bigEndian (w m n : Nat) : compare (bigEndian w m) (bigEndian w n) = compare (m % 256 ^ w) (n % 256 ^ w) := by
  induction w with
  | zero => rw [Nat.pow_zero, Nat.mod_one, Nat.mod_one]; rfl
  | succ w ih =>
    have hdigit : ∀ n : Nat, n % 256 ^ (w + 1) = 256 ^ w * (UInt8.ofNat (n / 256 ^ w)).toNat + n % 256 ^ w := fun n => by
      rw [Nat.pow_succ, Nat.mod_mul, UInt8.toNat_ofNat', Nat.add_comm]
    have hlt : ∀ n : Nat, n % 256 ^ w < 256 ^ w := fun n => Nat.mod_lt n (Nat.pow_pos (by decide))
    rw [bigEndian, bigEndian, List.compare_cons_cons, compare_uint8, ih, compare_then _ _ _ _ (hlt m) (hlt n), ← hdigit, ← hdigit]

theorem memcmp_bigEndian (w m n : Nat) :
    memcmp (bigEndian w m) (bigEndian w n) (bigEndian w m).length = compare (m % 256 ^ w) (n % 256 ^ w) := by
  rw [memcmp, List.take_length, bigEndian_length, List.take_of_length_le (bigEndian_length n w).le, compare_bigEndian]

/-! ### What a cell holds -/

section
variable {setter : CellSetter} {k : Nat}

/-- A number and its sign are the same on as many bits. -/
theorem toInt_emod (x : BitVec k) : x.toInt % 2 ^ k = x.toNat := by
  have hlt : (x.toNat : Int) < 2 ^ k := by
    rw [← natCast_two_pow]
    exact Int.ofNat_lt.mpr x.isLt
  rw [BitVec.toInt_eq_toNat_cond]
  split
  · exact Int.emod_eq_of_lt (Int.natCast_nonneg _) hlt
  · rw [natCast_two_pow, Int.sub_emod_right, Int.emod_eq_of_lt (Int.natCast_nonneg _) hlt]

theorem holds_iff {c : RowCell} : c.Holds w n ↔ ((c.integer.setWidth w).toNat : Int) = n % 2 ^ w := by
  rw [RowCell.Holds, BitVec.toNat_setWidth, emod_two_pow]

theorem holds_unsigned (hk : k ≤ 64) (x : BitVec (8 * k)) (c : RowCell) : RowCell.Holds (8 * k) { c with integer := x.setWidth 512 } x.toNat := by
  rw [holds_iff, setWidth_extended hk, ← emod_two_pow, Nat.mod_eq_of_lt x.isLt]

theorem holds_signed (hk : k ≤ 64) (x : BitVec (8 * k)) (c : RowCell) : RowCell.Holds (8 * k) { c with integer := x.signExtend 512 } x.toInt := by
  rw [holds_iff, setWidth_signExtended hk, toInt_emod]

theorem holds_toInt (hw : w ≤ 512) (c : RowCell) : c.Holds w c.integer.toInt := by
  rw [RowCell.Holds, ← toInt_emod, Int.emod_emod_of_dvd _ (pow_dvd_pow 2 hw)]

theorem width_of_mem {expected : List StructType} (h : type.number? = some (signed, w)) (hmem : type ∈ expected)
    (hall : ∀ t ∈ expected, t.number?.map Prod.snd = some k) : w = k := by
  have hk := hall type hmem
  rw [h] at hk
  exact Option.some.inj hk

section
variable {expected : List StructType} {c c' : RowCell}

theorem holds_setUnsigned {value : BitVec (8 * k)} (hk : k ≤ 64) (h : RowCell.setUnsigned expected k type value c' = .ok c)
    (hnumber : type.number? = some (signed, w)) (hall : ∀ t ∈ expected, t.number?.map Prod.snd = some (8 * k)) : c.Holds w value.toNat := by
  obtain ⟨hmem, rfl⟩ := RowCell.verifyCellType_ok h
  rw [width_of_mem hnumber hmem hall]
  exact holds_unsigned hk value c'

theorem holds_setSigned {value : BitVec (8 * k)} (hk : k ≤ 64) (h : RowCell.setSigned expected k type value c' = .ok c)
    (hnumber : type.number? = some (signed, w)) (hall : ∀ t ∈ expected, t.number?.map Prod.snd = some (8 * k)) : c.Holds w value.toInt := by
  obtain ⟨hmem, rfl⟩ := RowCell.verifyCellType_ok h
  rw [width_of_mem hnumber hmem hall]
  exact holds_signed hk value c'

theorem holds_setWide {value : BitVec 512} (h : RowCell.setWide expected type value c' = .ok c) (hnumber : type.number? = some (signed, w))
    (hall : ∀ t ∈ expected, t.number?.map Prod.snd = some k) (hk : k ≤ 512) : c.Holds w value.toNat ∧ c.Holds w value.toInt := by
  obtain ⟨hmem, rfl⟩ := RowCell.verifyCellType_ok h
  rw [width_of_mem hnumber hmem hall]
  exact ⟨rfl, holds_toInt hk { c' with integer := value }⟩

end

/-- A setter leaves its number in the cell. -/
theorem holds_of_set {c c' : RowCell} (h : setter.run type c' = .ok c) (hnumber : type.number? = some (signed, w)) :
    c.Holds w setter.number := by
  cases setter with
  | void =>
    obtain ⟨hmem, rfl⟩ := RowCell.verifyCellType_ok h
    obtain rfl := List.mem_singleton.mp hmem
    cases hnumber
  | string value =>
    obtain ⟨hmem, rfl⟩ := RowCell.verifyCellType_ok h
    simp only [List.mem_cons, List.not_mem_nil, or_false] at hmem
    rcases hmem with rfl | rfl | rfl <;> cases hnumber
  | int8 value => exact holds_setSigned (k := 1) (by decide) h hnumber (by decide)
  | int16 value => exact holds_setSigned (k := 2) (by decide) h hnumber (by decide)
  | int32 value => exact holds_setSigned (k := 4) (by decide) h hnumber (by decide)
  | int64 value => exact holds_setSigned (k := 8) (by decide) h hnumber (by decide)
  | int128 value => exact (holds_setWide (k := 128) h hnumber (by decide) (by decide)).2
  | int256 value => exact (holds_setWide (k := 256) h hnumber (by decide) (by decide)).2
  | int512 value => exact (holds_setWide (k := 512) h hnumber (by decide) (by decide)).2
  | uint128 value => exact (holds_setWide (k := 128) h hnumber (by decide) (by decide)).1
  | uint256 value => exact (holds_setWide (k := 256) h hnumber (by decide) (by decide)).1
  | uint512 value => exact (holds_setWide (k := 512) h hnumber (by decide) (by decide)).1
  | uint8 value => exact holds_setUnsigned (k := 1) (by decide) h hnumber (by decide)
  | uint16 value => exact holds_setUnsigned (k := 2) (by decide) h hnumber (by decide)
  | uint32 value => exact holds_setUnsigned (k := 4) (by decide) h hnumber (by decide)
  | version value => exact holds_setUnsigned (k := 4) (by decide) h hnumber (by decide)
  | oid value => exact holds_setUnsigned (k := 8) (by decide) h hnumber (by decide)
  | uint64 value => exact holds_setUnsigned (k := 8) (by decide) h hnumber (by decide)
  | time value => exact holds_setUnsigned (k := 8) (by decide) h hnumber (by decide)
  | timeMs value => exact holds_setUnsigned (k := 8) (by decide) h hnumber (by decide)
  | timeUs value => exact holds_setUnsigned (k := 8) (by decide) h hnumber (by decide)

end

/-! ### Values -/

theorem number_width (h : type.number? = some (signed, w)) : 8 ≤ w ∧ 8 * (w / 8) = w := by
  have hall : type.integer? = some (signed, w) ∨ (signed, w) ∈ [(false, 32), (false, 64)] := by
    cases type <;> first | exact .inl h | (cases h; exact .inr (by decide))
  rcases hall with h | h
  · obtain ⟨hpos, -, hbytes⟩ := integer_width h
    exact ⟨hpos, hbytes⟩
  · simp only [List.mem_cons, Prod.mk.injEq, List.not_mem_nil, or_false] at h
    omega

theorem valueToBinary_number (h : type.number? = some (signed, w)) (c : RowCell) :
    c.valueToBinary type = some (bigEndian (w / 8) c.integer.toNat) := by
  cases type <;> first | cases h; done | (cases h; rfl)

/-- What is said of two cells with numbers of a type: their bytes have the order of the numbers. -/
def OrdersAs (type : StructType) (c d : RowCell) (m n : Int) : Prop :=
  ∀ b b', c.valueToBinary type = some b → d.valueToBinary type = some b' → memcmp b b' b.length = compare m n

/-- A negative number is above the others without its sign. -/
theorem lt_residue (hpos : 0 < w) (hm : InIntegerRange signed w m) (hn : InIntegerRange signed w n) (hneg : m < 0) :
    n < m + 2 ^ w := by
  cases signed with
  | true =>
    have hm' : -2 ^ (w - 1) ≤ m ∧ m < 2 ^ (w - 1) := hm
    have hn' : -2 ^ (w - 1) ≤ n ∧ n < 2 ^ (w - 1) := hn
    have htwice : (2 : Int) ^ w = 2 * 2 ^ (w - 1) := by rw [← pow_succ', Nat.sub_add_cancel hpos]
    omega
  | false => exact absurd hm.1 (Int.not_le.mpr hneg)

/-- The order is kept exactly where the type has no sign, or both numbers have the same one. -/
theorem ordersAs_iff (h : type.number? = some (signed, w)) (hc : c.Holds w m) (hd : d.Holds w n) (hm : InIntegerRange signed w m)
    (hn : InIntegerRange signed w n) : OrdersAs type c d m n ↔ signed = false ∨ (m < 0 ↔ n < 0) := by
  obtain ⟨hpos, hbytes⟩ := number_width h
  have hbase : 256 ^ (w / 8) = 2 ^ w := by
    have hbase : (256 : Nat) = 2 ^ 8 := rfl
    rw [hbase, ← Nat.pow_mul, hbytes]
  have horder : OrdersAs type c d m n ↔ compare (c.integer.toNat % 2 ^ w) (d.integer.toNat % 2 ^ w) = compare m n := by
    rw [OrdersAs, valueToBinary_number h, valueToBinary_number h]
    constructor
    · intro hall
      rw [← hall _ _ rfl rfl, memcmp_bigEndian, hbase]
    · rintro heq b b' hb hb'
      obtain rfl := Option.some.inj hb
      obtain rfl := Option.some.inj hb'
      rw [memcmp_bigEndian, hbase, heq]
  have hc' := (emod_two_pow c.integer.toNat w).trans hc
  have hd' := (emod_two_pow d.integer.toNat w).trans hd
  obtain ⟨x, hx⟩ : ∃ x, c.integer.toNat % 2 ^ w = x := ⟨_, rfl⟩
  obtain ⟨y, hy⟩ : ∃ y, d.integer.toNat % 2 ^ w = y := ⟨_, rfl⟩
  rw [horder]
  rw [hx] at hc' ⊢
  rw [hy] at hd' ⊢
  have hsame : (m < 0 ↔ n < 0) → compare x y = compare m n := fun hsign => by
    by_cases hneg : m < 0
    · rw [residue_neg (by omega) hm hneg] at hc'
      rw [residue_neg (by omega) hn (hsign.mp hneg)] at hd'
      exact compare_congr (by omega) (by omega)
    · rw [residue_nonneg (by omega) hm hneg] at hc'
      rw [residue_nonneg (by omega) hn (mt hsign.mpr hneg)] at hd'
      exact compare_congr (by omega) (by omega)
  constructor
  · intro heq
    by_cases hsign : m < 0 ↔ n < 0
    · exact .inr hsign
    · exfalso
      -- The bytes of the negative number are the higher ones.
      by_cases hneg : m < 0
      · have hnonneg : ¬n < 0 := fun h => hsign (iff_of_true hneg h)
        have hlt := lt_residue (by omega) hm hn hneg
        rw [residue_neg (by omega) hm hneg] at hc'
        rw [residue_nonneg (by omega) hn hnonneg] at hd'
        rw [Nat.compare_eq_gt.mpr (by omega), compare_lt_iff_lt.mpr (by omega)] at heq
        cases heq
      · have hneg' : n < 0 := Classical.byContradiction fun h => hsign (iff_of_false hneg h)
        have hlt := lt_residue (by omega) hn hm hneg'
        rw [residue_nonneg (by omega) hm hneg] at hc'
        rw [residue_neg (by omega) hn hneg'] at hd'
        rw [Nat.compare_eq_lt.mpr (by omega), compare_gt_iff_gt.mpr (by omega)] at heq
        cases heq
  · rintro (rfl | hsign)
    · have hm' : 0 ≤ m := hm.1
      have hn' : 0 ≤ n := hn.1
      exact hsame (by omega)
    · exact hsame hsign

/-- One and minus one on eight bits. -/
theorem ordersAs_iff_one : OrdersAs .int8 { integer := (1#8).signExtend 512 } { integer := (-1#8).signExtend 512 } 1 (-1) ↔
    true = false ∨ ((1 : Int) < 0 ↔ (-1 : Int) < 0) :=
  @ordersAs_iff .int8 _ _ _ _ _ _ rfl (@holds_of_set .int8 _ _ (.int8 1#8) _ {} rfl rfl)
    (@holds_of_set .int8 _ _ (.int8 (-1#8)) _ {} rfl rfl) (by decide) (by decide)

/-- The bytes of minus one are above those of zero. -/
theorem not_ordersAs : ¬∀ (type : StructType) (signed : Bool) (w : Nat) (c d : RowCell) (m n : Int), type.number? = some (signed, w) →
    c.Holds w m → d.Holds w n → InIntegerRange signed w m → InIntegerRange signed w n → OrdersAs type c d m n := by
  intro hall
  have horder := hall .int8 true 8 { integer := (-1#8).signExtend 512 } { integer := (0#8).signExtend 512 } (-1) 0 rfl
    (@holds_of_set .int8 _ _ (.int8 (-1#8)) _ {} rfl rfl)
    (@holds_of_set .int8 _ _ (.int8 0#8) _ {} rfl rfl) (by decide) (by decide)
  have hwritten : ∀ c : RowCell, c.valueToBinary .int8 = some (bigEndian 1 c.integer.toNat) := fun _ => rfl
  have hbytes := horder _ _ (hwritten _) (hwritten _)
  have hlow : ((-1#8).signExtend 512).toNat % 256 ^ 1 = 255 := by decide +kernel
  have hzero : ((0#8).signExtend 512).toNat % 256 ^ 1 = 0 := by decide +kernel
  dsimp only at hbytes
  rw [memcmp_bigEndian, hlow, hzero] at hbytes
  revert hbytes
  decide

end

end Snapwebsites.Snapdatabase
