import Mathlib.Algebra.Group.Nat.Defs
import Mathlib.Data.List.Basic
import Mathlib.Tactic.Common

/-! # Wire formats

A reader takes a value off the front of a buffer, or fails. `Reads r a b`: on a buffer that starts with the
bytes `b`, the reader `r` gives `a` and leaves what follows them. Readers compose as the bytes do
(`Reads.bind`, `Reads.many`), so a message is read back part by part. A `Format` is a writer with a reader
that undoes it; the fixed width integers and the length prefixed blobs are formats. -/

abbrev Bytes := List UInt8

abbrev Reader (α : Type) := StateT Bytes Option α

def Reads {α : Type} (r : Reader α) (a : α) (b : Bytes) : Prop := ∀ rest, r (b ++ rest) = some (a, rest)

/-- The same reader, `n` times. -/
def Reader.many {α : Type} (r : Reader α) : Nat → Reader (List α)
  | 0 => pure []
  | n + 1 => do
    let a ← r
    let l ← Reader.many r n
    pure (a :: l)

/-- What is written is read back, whatever follows it in the buffer. -/
structure Format (α : Type) where
  write : α → Bytes
  read : Reader α
  read_write : ∀ a, Reads read a (write a)

namespace Reads
variable {α β : Type} {r : Reader α} {f : α → Reader β} {a : α} {b : β} {x y : Bytes}

theorem pure (a : α) : Reads (Pure.pure a : Reader α) a [] := fun _ => rfl

theorem bind (h : Reads r a x) (hf : Reads (f a) b y) : Reads (r >>= f) b (x ++ y) := by
  intro rest
  have hx : r (x ++ (y ++ rest)) = some (a, y ++ rest) := h (y ++ rest)
  change (r (x ++ y ++ rest)).bind (fun p => f p.1 p.2) = some (b, rest)
  rw [List.append_assoc, hx]
  exact hf rest

/-- The last reader of a sequence only computes. -/
theorem map (h : Reads r a x) (g : α → β) : Reads (r >>= fun a => Pure.pure (g a)) (g a) x := by
  have hmap := h.bind (f := fun a => Pure.pure (g a)) (Reads.pure (g a))
  rwa [List.append_nil] at hmap

/-- A part that is there under a condition that writer and reader agree on. -/
theorem optional {p q : Prop} [Decidable p] [Decidable q] (hpq : q ↔ p) (h : p → Reads r a x) {d : α}
    (hd : ¬ p → d = a) : Reads (if q then r else Pure.pure d) a (if p then x else []) := by
  by_cases hp : p
  · rw [if_pos hp, if_pos (hpq.mpr hp)]
    exact h hp
  · rw [if_neg hp, if_neg (mt hpq.mp hp), hd hp]
    exact Reads.pure a

theorem many {write : α → Bytes} (h : ∀ a, Reads r a (write a)) :
    ∀ l : List α, Reads (r.many l.length) l (l.flatMap write)
  | [] => Reads.pure []
  | a :: l => by
    rw [List.flatMap_cons]
    exact (h a).bind ((many h l).map (a :: ·))

theorem run (h : Reads r a x) (rest : Bytes) : r (x ++ rest) = some (a, rest) := h rest

/-- Two writings in front of whatever follows them are told apart by what is read. -/
theorem append_inj {a' : α} {s t : Bytes} (h : Reads r a x) (h' : Reads r a' y) (heq : x ++ s = y ++ t) : a = a' ∧ s = t := by
  have hread := h s
  rw [heq, h' t] at hread
  obtain ⟨ha, hs⟩ := Prod.mk.inj (Option.some.inj hread)
  exact ⟨ha.symm, hs.symm⟩

end Reads

namespace Reader

/-- The next byte. -/
def byte : Reader UInt8
  | [] => none
  | b :: rest => some (b, rest)

/-- The next `n` bytes. -/
def bytes (n : Nat) : Reader Bytes := fun s => if n ≤ s.length then some (s.take n, s.drop n) else none

theorem byte_reads (b : UInt8) : Reads byte b [b] := fun _ => rfl

theorem bytes_reads (b : Bytes) : Reads (bytes b.length) b b := by
  intro rest
  have hle : b.length ≤ (b ++ rest).length := by
    rw [List.length_append]
    exact Nat.le_add_right _ _
  change (if b.length ≤ (b ++ rest).length then _ else _) = _
  rw [if_pos hle, List.take_left, List.drop_left]

/-- A number on `w` bytes, the most significant one first. -/
def bigEndian : Nat → Reader Nat
  | 0 => pure 0
  | w + 1 => do
    let b ← byte
    let n ← bigEndian w
    pure (256 ^ w * b.toNat + n)

end Reader

namespace Reader
variable {α β : Type} {r : Reader α} {f : α → Reader β} {b : β} {s rest : Bytes}

theorem bind_eq_some : (r >>= f) s = some (b, rest) ↔ ∃ a s', r s = some (a, s') ∧ f a s' = some (b, rest) := by
  change (r s).bind (fun p => f p.1 p.2) = some (b, rest) ↔ _
  rw [Option.bind_eq_some_iff, Prod.exists]

theorem pure_eq_some {a a' : α} : (pure a : Reader α) s = some (a', rest) ↔ a = a' ∧ s = rest := by
  change some (a, s) = some (a', rest) ↔ _
  rw [Option.some.injEq, Prod.mk.injEq]

theorem bytes_length {n : Nat} {a : Bytes} (h : bytes n s = some (a, rest)) : rest.length + n = s.length := by
  unfold bytes at h
  split at h
  · rename_i hle
    cases h
    rw [List.length_drop, Nat.sub_add_cancel hle]
  · cases h

theorem bigEndian_length {w n : Nat} (h : bigEndian w s = some (n, rest)) : rest.length + w = s.length := by
  induction w generalizing s n with
  | zero =>
    obtain ⟨-, rfl⟩ := pure_eq_some.mp h
    rfl
  | succ w ih =>
    obtain ⟨a, s', hbyte, h⟩ := bind_eq_some.mp h
    obtain ⟨m, s'', hrest, h⟩ := bind_eq_some.mp h
    obtain ⟨-, rfl⟩ := pure_eq_some.mp h
    cases s with
    | nil => cases hbyte
    | cons x s =>
      cases hbyte
      rw [← Nat.add_assoc, ih hrest, List.length_cons]

end Reader

/-- The number that bytes stand for, the most significant one first. -/
def ofBigEndian : Bytes → Nat
  | [] => 0
  | b :: s => 256 ^ s.length * b.toNat + ofBigEndian s

namespace Reader
variable {s : Bytes}

theorem bytes_of_le {n : Nat} (h : n ≤ s.length) : bytes n s = some (s.take n, s.drop n) := if_pos h

theorem bytes_of_lt {n : Nat} (h : s.length < n) : bytes n s = none := if_neg (Nat.not_le.mpr h)

theorem bigEndian_of_le {w : Nat} (h : w ≤ s.length) : bigEndian w s = some (ofBigEndian (s.take w), s.drop w) := by
  induction w generalizing s with
  | zero => rfl
  | succ w ih =>
    cases s with
    | nil => exact absurd h (Nat.not_succ_le_zero w)
    | cons b s =>
      have hle : w ≤ s.length := Nat.le_of_succ_le_succ h
      refine bind_eq_some.mpr ⟨b, s, rfl, bind_eq_some.mpr ⟨_, _, ih hle, ?_⟩⟩
      rw [List.take_succ_cons, List.drop_succ_cons, ofBigEndian, List.length_take, Nat.min_eq_left hle]
      rfl

theorem bigEndian_of_lt {w : Nat} (h : s.length < w) : bigEndian w s = none := by
  cases hread : bigEndian w s with
  | none => rfl
  | some p =>
    have hlength := bigEndian_length hread
    omega

end Reader

/-- The low `w` bytes of a number, the most significant one first. -/
def bigEndian : Nat → Nat → Bytes
  | 0, _ => []
  | w + 1, n => UInt8.ofNat (n / 256 ^ w) :: bigEndian w n

theorem bigEndian_length (n : Nat) : ∀ w, (bigEndian w n).length = w
  | 0 => rfl
  | w + 1 => congrArg Nat.succ (bigEndian_length n w)

theorem bigEndian_add (n v : Nat) : ∀ w, bigEndian (w + v) n = bigEndian w (n / 256 ^ v) ++ bigEndian v n
  | 0 => by rw [Nat.zero_add, bigEndian, List.nil_append]
  | w + 1 => by
    rw [Nat.succ_add, bigEndian, bigEndian_add n v w, bigEndian, Nat.div_div_eq_div_mul, ← Nat.pow_add, Nat.add_comm v w,
      List.cons_append]

theorem bigEndian_reads (n : Nat) : ∀ w, Reads (Reader.bigEndian w) (n % 256 ^ w) (bigEndian w n)
  | 0 => by
    rw [Nat.pow_zero, Nat.mod_one]
    exact Reads.pure 0
  | w + 1 => by
    have hdigit : n % 256 ^ (w + 1) = 256 ^ w * (UInt8.ofNat (n / 256 ^ w)).toNat + n % 256 ^ w := by
      rw [Nat.pow_succ, Nat.mod_mul, UInt8.toNat_ofNat', Nat.add_comm]
    rw [hdigit]
    exact (Reader.byte_reads _).bind ((bigEndian_reads n w).map _)

/-- Bytes above those that are written make no difference. -/
theorem bigEndian_mod_of_le (n : Nat) {v : Nat} : ∀ {w : Nat}, w ≤ v → bigEndian w (n % 256 ^ v) = bigEndian w n
  | 0, _ => rfl
  | w + 1, hw => by
    have hpow : 256 ^ v = 256 ^ w * 256 ^ (v - w) := by rw [← Nat.pow_add, Nat.add_sub_cancel' (Nat.le_of_succ_le hw)]
    have hdvd : 256 ∣ 256 ^ (v - w) := Nat.pow_dvd_pow 256 (show 1 ≤ v - w by omega)
    have hdigit : UInt8.ofNat (n % 256 ^ v / 256 ^ w) = UInt8.ofNat (n / 256 ^ w) := by
      apply UInt8.toNat_inj.mp
      rw [UInt8.toNat_ofNat', UInt8.toNat_ofNat', hpow, Nat.mod_mul_right_div_self, Nat.mod_mod_of_dvd _ hdvd]
    rw [bigEndian, bigEndian, hdigit, bigEndian_mod_of_le n (Nat.le_of_succ_le hw)]

theorem bigEndian_append_iff {w m n : Nat} {s t : Bytes} :
    bigEndian w m ++ s = bigEndian w n ++ t ↔ m % 256 ^ w = n % 256 ^ w ∧ s = t := by
  constructor
  · exact (bigEndian_reads m w).append_inj (bigEndian_reads n w)
  · rintro ⟨hmod, rfl⟩
    rw [← bigEndian_mod_of_le m (Nat.le_refl w), hmod, bigEndian_mod_of_le n (Nat.le_refl w)]

namespace Format
variable {α β : Type}

/-- Values that are numbers below `256 ^ w`, on `w` bytes. -/
def number (w : Nat) (toNat : α → Nat) (ofNat : Nat → α) (hlt : ∀ a, toNat a < 256 ^ w)
    (hof : ∀ a, ofNat (toNat a) = a) : Format α where
  write a := bigEndian w (toNat a)
  read := do
    let n ← Reader.bigEndian w
    pure (ofNat n)
  read_write a := by
    have h := (bigEndian_reads (toNat a) w).map ofNat
    rwa [Nat.mod_eq_of_lt (hlt a), hof a] at h

/-- Bytes behind their number, which takes `w` bytes. -/
def blob (w : Nat) (toBytes : α → Bytes) (ofBytes : Bytes → Option α) (hlt : ∀ a, (toBytes a).length < 256 ^ w)
    (hof : ∀ a, ofBytes (toBytes a) = some a) : Format α where
  write a := bigEndian w (toBytes a).length ++ toBytes a
  read := do
    let n ← Reader.bigEndian w
    let b ← Reader.bytes n
    StateT.lift (ofBytes b)
  read_write a := by
    have hn := bigEndian_reads (toBytes a).length w
    rw [Nat.mod_eq_of_lt (hlt a)] at hn
    have hlift : Reads (StateT.lift (ofBytes (toBytes a))) a [] := by
      intro rest
      rw [hof a]
      rfl
    have hb := (Reader.bytes_reads (toBytes a)).bind (f := fun b => StateT.lift (ofBytes b)) hlift
    rw [List.append_nil] at hb
    exact hn.bind hb

end Format
