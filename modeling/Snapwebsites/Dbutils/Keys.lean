import Snapwebsites.SnapUri.Codec

/-! # Numbers and bytes as texts

The unsigned and the hexadecimal numbers that `dbutils` reads, and the bytes it prints in base 16. An MD5 sum is printed
without blanks and read back (`stringToKey_keyToString`); a list of bytes ends in a blank and is never read
(`stringToKey_blank`). -/

namespace Snapwebsites
namespace QString

/-! ### Numbers -/

/-- `QString::toULongLong()` -/
def toULongLong (s : QString) : Option Nat := do
  let n ← match trimmed s with
    | '-' :: _ => none
    | '+' :: s => digits s
    | s => digits s
  if n < 2 ^ 64 then some n else none

/-- `QString::toUInt()` -/
def toUInt (s : QString) : Option Nat := (toULongLong s).filter (· < 2 ^ 32)

def hexDigits (s : QString) : Option Nat :=
  if s = [] then none else (s.mapM SnapUri.hexDigit).map fun l => l.foldl (fun n d => 16 * n + d) 0

/-- The `0x` that may stand in front of a number in base 16. -/
def withoutMark : QString → QString
  | '0' :: 'x' :: s => s
  | '0' :: 'X' :: s => s
  | s => s

/-- `QString::toInt(&ok, 16)` -/
def toIntHex (s : QString) : Option Int := do
  let n ← match trimmed s with
    | '-' :: s => (hexDigits (withoutMark s)).map fun n : Nat => -(n : Int)
    | '+' :: s => (hexDigits (withoutMark s)).map Nat.cast
    | s => (hexDigits (withoutMark s)).map Nat.cast
  if -0x80000000 ≤ n ∧ n < 0x80000000 then some n else none

section
variable {s : QString}

theorem toULongLong_number {n : Nat} (h : n < 2 ^ 64) : toULongLong (number n) = some n := by
  have hdigit : ∀ c ∈ number n, c.isDigit = true := fun c => isDigit_of_mem_number
  unfold toULongLong
  rw [trimmed_number]
  split
  · rename_i heq
    have := hdigit '-' (heq ▸ List.mem_cons_self)
    cases this
  · rename_i heq
    have := hdigit '+' (heq ▸ List.mem_cons_self)
    cases this
  · rw [digits_number, Option.bind_eq_bind, Option.bind_some]
    exact if_pos h

theorem toUInt_number {n : Nat} (h : n < 2 ^ 32) : toUInt (number n) = some n := by
  rw [toUInt, toULongLong_number (by omega), Option.filter_some, if_pos (by simpa using h)]

end

end QString

/-! ### Keys -/

namespace Dbutils
open QString

/-- `byte_to_hex()` -/
def byteToHex (byte : UInt8) : QString := [Nat.digitChar (byte.toNat / 16), Nat.digitChar (byte.toNat % 16)]

/-- `key_to_string()` -/
def keyToString (key : Bytes) : QString := key.flatMap byteToHex

/-- `str.mid(i, 2)`, for every other `i`. -/
def pairs : QString → List QString
  | a :: b :: s => [a, b] :: pairs s
  | [a] => [[a]]
  | [] => []

/-- `static_cast<char>(val.toInt(&ok, 16))` -/
def hexToByte (val : QString) : Option UInt8 := (toIntHex val).map UInt8.ofInt

/-- `string_to_key()`; nothing when it throws. A text of 32 units without a blank is an MD5 sum. -/
def stringToKey (str : QString) : Option Bytes :=
  if (str.splitOn ' ').length = 1 ∧ str.units = 32 then (pairs str).mapM hexToByte else (str.splitOn ' ').mapM hexToByte

section
variable {key : Bytes}

theorem toIntHex_digits : ∀ m < 16, ∀ n < 16, toIntHex [Nat.digitChar m, Nat.digitChar n] = some ((16 * m + n : Nat) : Int) := by
  decide

theorem hexToByte_byteToHex (byte : UInt8) : hexToByte (byteToHex byte) = some byte := by
  have hbyte := byte.toNat_lt
  have hint := toIntHex_digits (byte.toNat / 16) (by omega) (byte.toNat % 16) (by omega)
  have hcast : UInt8.ofInt (byte.toNat : Int) = byte := by
    have hmod : (byte.toNat : Int) % 2 ^ 8 = byte.toNat := by omega
    rw [UInt8.ofInt, hmod, Int.toNat_natCast, UInt8.ofNat_toNat]
  rw [hexToByte, byteToHex, hint, Nat.div_add_mod, Option.map_some, hcast]

theorem pairs_keyToString : ∀ key : Bytes, pairs (keyToString key) = key.map byteToHex
  | [] => rfl
  | byte :: key => by
    have hpairs : pairs (keyToString (byte :: key)) = byteToHex byte :: pairs (keyToString key) := rfl
    rw [hpairs, pairs_keyToString key, List.map_cons]

theorem mapM_byteToHex : ∀ key : Bytes, (key.map byteToHex).mapM hexToByte = some key
  | [] => rfl
  | byte :: key => by
    rw [List.map_cons, List.mapM_cons, hexToByte_byteToHex, mapM_byteToHex key]
    rfl

theorem mem_keyToString {c : Char} (h : c ∈ keyToString key) : ∃ n < 16, c = Nat.digitChar n := by
  obtain ⟨byte, -, hc⟩ := List.mem_flatMap.mp h
  have hbyte := byte.toNat_lt
  rcases List.mem_cons.mp hc with hc | hc
  · exact ⟨byte.toNat / 16, by omega, hc⟩
  · exact ⟨byte.toNat % 16, by omega, List.mem_singleton.mp hc⟩

theorem space_notMem_keyToString (key : Bytes) : ' ' ∉ keyToString key := fun h => by
  obtain ⟨n, hn, hc⟩ := mem_keyToString h
  have hdigit : ∀ n < 16, ' ' ≠ Nat.digitChar n := by decide
  exact hdigit n hn hc

theorem units_keyToString : ∀ key : Bytes, units (keyToString key) = 2 * key.length
  | [] => rfl
  | byte :: key => by
    have hunit : ∀ n < 16, (utf16 (Nat.digitChar n)).length = 1 := by decide
    have hbyte := byte.toNat_lt
    have hkey := units_keyToString key
    have hunits : units (keyToString (byte :: key)) = units (byteToHex byte) + units (keyToString key) := by
      rw [keyToString, List.flatMap_cons, units, List.flatMap_append, List.length_append]
      rfl
    have hhex : units (byteToHex byte) = 2 := by
      rw [units, byteToHex, List.flatMap_cons, List.flatMap_singleton, List.length_append, hunit _ (by omega), hunit _ (by omega)]
    rw [hunits, hhex, hkey, List.length_cons]
    omega

/-- An MD5 sum is read back. -/
theorem stringToKey_keyToString (h : key.length = 16) : stringToKey (keyToString key) = some key := by
  have hsplit := List.splitOn_eq_singleton (space_notMem_keyToString key)
  rw [stringToKey, hsplit, units_keyToString, if_pos ⟨rfl, by omega⟩, pairs_keyToString, mapM_byteToHex]

theorem mapM_append_nil (parts : List QString) : (parts ++ [[]]).mapM hexToByte = none := by
  have hnil : hexToByte [] = none := rfl
  rw [List.mapM_append, List.mapM_cons, hnil]
  cases parts.mapM hexToByte <;> rfl

/-- A text that ends in a blank is not read. -/
theorem stringToKey_blank (s : QString) : stringToKey (s ++ [' ']) = none := by
  have hne := List.splitOn_ne_nil ' ' s
  have hlength : (s.splitOn ' ' ++ [[]]).length ≠ 1 := by
    have := List.length_pos_of_ne_nil hne
    rw [List.length_append, List.length_singleton]
    omega
  rw [stringToKey, List.splitOn_append_cons_self, List.splitOn_nil, if_neg fun h => hlength h.1, mapM_append_nil]

theorem stringToKey_nil : stringToKey [] = none := rfl

end

end Dbutils
end Snapwebsites
