import Mathlib.Tactic.Common
import Snapwebsites.Loadavg.LoadavgFile

/-! # Compiled scripts

`compile_script()` writes a magic and the size of the byte code in front of it, little-endian. `execute_script()` puts the size
together from characters that have a sign, so a byte from 128 on sets all the bits above it. The compiler of expressions is a
parameter. -/

namespace Snapwebsites.Snapdatabase

open Loadavg (littleEndian littleEndian_length)

/-- What is logged when a buffer is not run. -/
inductive ScriptWarning
  | tooShort
  | unsupportedType (magic : Bytes)
  | unexpectedSize (got expected : Int)
deriving DecidableEq

namespace Script

/-- The characters of `SSX1`. -/
def magic : Bytes := [0x53, 0x53, 0x58, 0x31]

/-- `compile_script()`; an empty buffer when the script is not valid. `compile` gives the byte code of an expression. -/
def compileScript (compile : Bytes → Option Bytes) (script : Bytes) : Bytes :=
  match compile script with
  | none => []
  | some code => magic ++ littleEndian 4 code.length ++ code

/-- A `char` as an `int`, shifted. -/
def shifted (c : UInt8) (k : Nat) : BitVec 32 := c.toBitVec.signExtend 32 <<< k

def expectedSize (input : Bytes) : BitVec 32 :=
  shifted (input.getD 0 0) 0 ||| shifted (input.getD 1 0) 8 ||| shifted (input.getD 2 0) 16 ||| shifted (input.getD 3 0) 24

/-- `execute_script()` up to where the byte code is run, which is what it gives. -/
def readHeader (compiledScript : Bytes) : Except ScriptWarning Bytes :=
  let size := (BitVec.ofNat 32 compiledScript.length).toInt
  if size < 8 then .error .tooShort
  else if compiledScript.take 4 ≠ magic then .error (.unsupportedType (compiledScript.take 4))
  else
    let size := size - 8
    let expected := (expectedSize (compiledScript.drop 4)).toInt
    if expected ≠ size then .error (.unexpectedSize size expected)
    else .ok ((compiledScript.drop 8).take size.toNat)

/-- The size has no byte from 128 on. -/
def SmallBytes (n : Nat) : Prop := n % 256 < 128 ∧ n / 256 % 256 < 128 ∧ n / 65536 % 256 < 128

instance (n : Nat) : Decidable (SmallBytes n) := inferInstanceAs (Decidable (_ ∧ _))

/-! ### The size -/

section Size
variable {n : Nat}

/-- A byte of the size has its bits, and the highest of them above. -/
theorem getLsbD_shifted (n k i : Nat) : (shifted (UInt8.ofNat (n / 2 ^ k)) k).getLsbD i =
    (decide (i < 32) && decide (k ≤ i) && n.testBit (min i (k + 7))) := by
  have hmsb : (BitVec.ofNat 8 (n / 2 ^ k)).msb = n.testBit (k + 7) := by
    rw [BitVec.msb_eq_getLsbD_last, BitVec.getLsbD_ofNat, Nat.testBit_div_two_pow, Nat.add_comm]
    rfl
  rw [shifted, UInt8.toBitVec_ofNat', BitVec.getLsbD_shiftLeft, BitVec.getLsbD_signExtend, BitVec.getLsbD_ofNat,
    Nat.testBit_div_two_pow, hmsb]
  by_cases hi : i < 32
  · by_cases hk : k ≤ i
    · have hsub : i - k < 32 := by omega
      by_cases hlow : i - k < 8
      · have hmin : min i (k + 7) = i - k + k := by omega
        simp [hi, hsub, hlow, hmin, Nat.not_lt.mpr hk]
        omega
      · have hmin : min i (k + 7) = k + 7 := by omega
        simp [hi, hsub, hlow, hmin, hk, Nat.not_lt.mpr hk]
    · simp [hk]
  · simp [hi]

theorem expectedSize_eq (n : Nat) (rest : Bytes) : expectedSize (littleEndian 4 n ++ rest) =
    shifted (UInt8.ofNat (n / 2 ^ 0)) 0 ||| shifted (UInt8.ofNat (n / 2 ^ 8)) 8 ||| shifted (UInt8.ofNat (n / 2 ^ 16)) 16 |||
      shifted (UInt8.ofNat (n / 2 ^ 24)) 24 := by
  simp [expectedSize, littleEndian, Nat.div_div_eq_div_mul]

/-- The bits of the size that is read. -/
theorem getLsbD_expectedSize (n i : Nat) (rest : Bytes) : (expectedSize (littleEndian 4 n ++ rest)).getLsbD i =
    (decide (i < 32) && (n.testBit (min i 7) || decide (8 ≤ i) && n.testBit (min i 15) ||
      decide (16 ≤ i) && n.testBit (min i 23) || decide (24 ≤ i) && n.testBit (min i 31))) := by
  rw [expectedSize_eq, BitVec.getLsbD_or, BitVec.getLsbD_or, BitVec.getLsbD_or, getLsbD_shifted, getLsbD_shifted, getLsbD_shifted,
    getLsbD_shifted]
  by_cases hi : i < 32 <;> simp [hi]

theorem smallBytes_iff : SmallBytes n ↔ n.testBit 7 = false ∧ n.testBit 15 = false ∧ n.testBit 23 = false := by
  simp only [SmallBytes, Nat.testBit_eq_decide_div_mod_eq, decide_eq_false_iff_not]
  omega

/-- The size is read back when no byte of it sets bits that it does not have. -/
theorem expectedSize_iff (hn : n < 2 ^ 31) (rest : Bytes) :
    (expectedSize (littleEndian 4 n ++ rest)).toInt = n ↔ SmallBytes n := by
  rw [smallBytes_iff]
  constructor
  · intro h
    have hmsb : (expectedSize (littleEndian 4 n ++ rest)).msb = false := by
      rw [BitVec.msb_eq_toInt, h]
      simp
    rw [BitVec.msb_eq_getLsbD_last, getLsbD_expectedSize] at hmsb
    have hbits : n.testBit 7 = false ∧ n.testBit 15 = false ∧ n.testBit 23 = false ∧ n.testBit 31 = false := by
      simpa [and_assoc] using hmsb
    exact ⟨hbits.1, hbits.2.1, hbits.2.2.1⟩
  · rintro ⟨h₇, h₁₅, h₂₃⟩
    have hsize : expectedSize (littleEndian 4 n ++ rest) = BitVec.ofNat 32 n := by
      refine BitVec.eq_of_getLsbD_eq fun i hi => ?_
      rw [getLsbD_expectedSize, BitVec.getLsbD_ofNat]
      congr 1
      rcases (by omega : i < 8 ∨ 8 ≤ i ∧ i < 16 ∨ 16 ≤ i ∧ i < 24 ∨ 24 ≤ i) with h | ⟨h, h'⟩ | ⟨h, h'⟩ | h
      · simp [show min i 7 = i by omega, show ¬ 8 ≤ i by omega, show ¬ 16 ≤ i by omega, show ¬ 24 ≤ i by omega]
      · simp [show min i 7 = 7 by omega, show min i 15 = i by omega, h, h₇, show ¬ 16 ≤ i by omega, show ¬ 24 ≤ i by omega]
      · simp [show min i 7 = 7 by omega, show min i 15 = 15 by omega, show min i 23 = i by omega, h, h₇, h₁₅,
          show ¬ 24 ≤ i by omega]
      · simp [show min i 7 = 7 by omega, show min i 15 = 15 by omega, show min i 23 = 23 by omega, show min i 31 = i by omega, h,
          h₇, h₁₅, h₂₃]
    rw [hsize, BitVec.toInt_eq_toNat_cond, BitVec.toNat_ofNat, Nat.mod_eq_of_lt (by omega), if_pos (by omega)]

end Size

/-! ### The header -/

section Header
variable {compile : Bytes → Option Bytes} {script code : Bytes}

/-- What the header of a compiled script is checked for: its size on 32 bits, and the size in it. -/
theorem readHeader_eq (hcompile : compile script = some code) (hsize : code.length < 2 ^ 31) :
    readHeader (compileScript compile script) =
      if 2 ^ 31 ≤ code.length + 8 then .error .tooShort
      else if (expectedSize (littleEndian 4 code.length ++ code)).toInt = code.length then .ok code
      else .error (.unexpectedSize code.length (expectedSize (littleEndian 4 code.length ++ code)).toInt) := by
  have hlen : (magic ++ littleEndian 4 code.length ++ code).length = code.length + 8 := by
    simp only [List.length_append, littleEndian_length]
    show 4 + 4 + code.length = _
    omega
  have hmagic : (magic ++ littleEndian 4 code.length ++ code).take 4 = magic := by
    rw [List.append_assoc]
    exact List.take_left' rfl
  have hfour : (magic ++ littleEndian 4 code.length ++ code).drop 4 = littleEndian 4 code.length ++ code := by
    rw [List.append_assoc]
    exact List.drop_left' rfl
  have height : (magic ++ littleEndian 4 code.length ++ code).drop 8 = code := List.drop_left' (by
    rw [List.length_append, littleEndian_length]
    rfl)
  have htoNat : (BitVec.ofNat 32 (code.length + 8)).toNat = code.length + 8 := by
    rw [BitVec.toNat_ofNat, Nat.mod_eq_of_lt (by omega)]
  simp only [compileScript, hcompile, readHeader, hlen, hmagic, hfour, height]
  by_cases hlong : 2 ^ 31 ≤ code.length + 8
  · have hint : (BitVec.ofNat 32 (code.length + 8)).toInt < 8 := by
      rw [BitVec.toInt_eq_toNat_cond, htoNat, if_neg (by omega)]
      omega
    rw [if_pos hint, if_pos hlong]
  · have hint : (BitVec.ofNat 32 (code.length + 8)).toInt = code.length + 8 := by
      rw [BitVec.toInt_eq_toNat_cond, htoNat, if_pos (by omega)]
      rfl
    rw [hint, if_neg (by omega), if_neg (not_not.mpr rfl), if_neg hlong, Int.add_sub_cancel, Int.toNat_natCast, List.take_length,
      ite_not]

/-- A script is accepted back exactly when no byte of the size of its byte code, which an `int` holds, is 128 or more. -/
theorem readHeader_iff (hcompile : compile script = some code) (hsize : code.length < 2 ^ 31) :
    readHeader (compileScript compile script) = .ok code ↔ SmallBytes code.length := by
  rw [readHeader_eq hcompile hsize]
  split
  · rename_i hlong
    refine iff_of_false (fun h => by cases h) fun h => ?_
    have := h.1
    omega
  · rw [← expectedSize_iff hsize code]
    split
    · rename_i heq
      exact iff_of_true rfl heq
    · rename_i hne
      exact iff_of_false (fun h => by cases h) hne

/-- Byte code of 127 bytes. -/
theorem readHeader_iff_127 : readHeader (compileScript (fun _ => some (List.replicate 127 0)) []) = .ok (List.replicate 127 0) ↔
    SmallBytes (List.replicate 127 (0 : UInt8)).length :=
  readHeader_iff rfl (by rw [List.length_replicate]; decide)

/-- Byte code of 128 bytes is refused. -/
theorem not_readHeader : ¬ ∀ (compile : Bytes → Option Bytes) (script code : Bytes), compile script = some code →
    code.length < 2 ^ 31 → readHeader (compileScript compile script) = .ok code := by
  intro h
  have hlen : (List.replicate 128 (0 : UInt8)).length = 128 := List.length_replicate
  have hsize : (List.replicate 128 (0 : UInt8)).length < 2 ^ 31 := by
    rw [hlen]
    decide
  obtain ⟨compile, hcompile⟩ : ∃ compile : Bytes → Option Bytes, compile [] = some (List.replicate 128 0) :=
    ⟨fun _ => some (List.replicate 128 0), rfl⟩
  have hread := h compile [] (List.replicate 128 0) hcompile hsize
  rw [readHeader_eq hcompile hsize, hlen, if_neg (by decide)] at hread
  split at hread
  · rename_i heq
    exact absurd ((expectedSize_iff (by decide) _).mp heq) (by decide)
  · cases hread

end Header

end Script

end Snapwebsites.Snapdatabase
