import Mathlib.Algebra.GroupWithZero.Nat
import Snapwebsites.Libdbproxy.Cassvalue

/-! # Orders

`order` of libdbproxy: a CQL statement with what the database daemon needs to run it, `encodeOrder()`, which
the client calls, and `decodeOrder()`, which the daemon calls on what it receives. Each setter stores its
argument as it is, so every value of `Order` is an order that the setters can build. -/

namespace Snapwebsites.Libdbproxy

/-- `type_of_result_t`. The enumeration takes four bits; six of their values have no name. -/
inductive TypeOfResult
  | close | batchAdd | batchCommit | batchDeclare | batchRollback | declare | describe | fetch | rows | success
  | unnamed (n : Fin 6)
deriving DecidableEq

namespace TypeOfResult

def toNat : TypeOfResult → Nat
  | close => 0
  | batchAdd => 1
  | batchCommit => 2
  | batchDeclare => 3
  | batchRollback => 4
  | declare => 5
  | describe => 6
  | fetch => 7
  | rows => 8
  | success => 9
  | unnamed n => 10 + n

/-- `static_cast<type_of_result_t>()` of four bits. -/
def ofNat : Nat → TypeOfResult
  | 0 => close
  | 1 => batchAdd
  | 2 => batchCommit
  | 3 => batchDeclare
  | 4 => batchRollback
  | 5 => declare
  | 6 => describe
  | 7 => fetch
  | 8 => rows
  | 9 => success
  | n => unnamed (Fin.ofNat 6 (n - 10))

theorem ofNat_toNat (t : TypeOfResult) : ofNat t.toNat = t := by
  cases t with
  | unnamed n => revert n; decide
  | _ => rfl

theorem toNat_and (t : TypeOfResult) : t.toNat &&& 15 = t.toNat := by
  cases t with
  | unnamed n => revert n; decide
  | _ => rfl

end TypeOfResult

structure Order where
  cql : QString := []
  valid : Bool := true
  blocking : Bool := true
  clearClusterDescription : Bool := false
  typeOfResult : TypeOfResult := .success
  consistencyLevel : Int32 := 1
  timestamp : Int64 := 0
  timeoutMs : Int32 := 0
  columnCount : Int8 := 1
  pagingSize : Int32 := 0
  cursorIndex : Int32 := -1
  batchIndex : Int32 := -1
  parameter : List QByteArray := []
deriving DecidableEq

namespace Order
variable (c : Cassvalue)

def flags (o : Order) : UInt16 :=
  UInt16.ofNat ((o.typeOfResult.toNat &&& 15)
    ||| (if o.blocking then 0x0010 else 0)
    ||| (if o.timestamp ≠ 0 then 0x0020 else 0)
    ||| (if o.timeoutMs ≠ 0 then 0x0040 else 0)
    ||| (if o.columnCount ≠ 1 then 0x0080 else 0)
    ||| (if o.pagingSize ≠ 0 then 0x0100 else 0)
    ||| (if o.cursorIndex ≠ -1 then 0x0200 else 0)
    ||| (if o.clearClusterDescription then 0x0400 else 0)
    ||| (if o.batchIndex ≠ -1 then 0x0800 else 0))

/-- What `encodeOrder()` appends behind the size, given what it appends for the CQL text. -/
def encodeBody (o : Order) (cql : Bytes) : Bytes :=
  c.uint16Value.write o.flags
    ++ (c.signedCharValue.write o.consistencyLevel.toInt8
    ++ (cql
    ++ ((if o.timestamp ≠ 0 then c.int64Value.write o.timestamp else [])
    ++ ((if o.timeoutMs ≠ 0 then c.int32Value.write o.timeoutMs else [])
    ++ ((if o.columnCount ≠ 1 then c.signedCharValue.write o.columnCount else [])
    ++ ((if o.pagingSize ≠ 0 then c.int32Value.write o.pagingSize else [])
    ++ ((if o.cursorIndex ≠ -1 then c.uint16Value.write o.cursorIndex.toUInt32.toUInt16 else [])
    ++ ((if o.batchIndex ≠ -1 then c.uint16Value.write o.batchIndex.toUInt32.toUInt16 else [])
    ++ (c.uint16Value.write (UInt16.ofNat o.parameter.length)
    ++ o.parameter.flatMap c.binaryValue.write)))))))))

/-- The size that the buffer is created with. -/
def expectedSize (o : Order) : UInt32 :=
  UInt32.ofNat (4 + 4 + 2 + 1 + 2 + (o.cql.flatMap QString.utf16).length + 8 + 4 + 1 + 4 + 2 + 2
    + (o.parameter.map fun p => 4 + p.data.length).sum)

/-- `encodeOrder()`; nothing when it throws. -/
def encodeOrder (o : Order) : Option Bytes := do
  let cql ← c.appendP16StringValue o.cql
  let encoder := c.appendLetters "CQLP".toList ++ c.uint32Value.write (o.expectedSize - 8) ++ o.encodeBody c cql
  -- adjust the size to match the buffer size exactly
  c.result (c.replaceUInt32Value encoder (UInt32.ofNat (encoder.length - 8)) 4)

/-- `static_cast<int32_t>(decoder.uint16Value())`. -/
def indexValue : Reader Int32 := do
  let n ← c.uint16Value.read
  pure n.toUInt32.toInt32

/-- `decodeOrder()` on the order `self`; nothing when the decoder throws. -/
def decodeOrder (self : Order) : Reader Order := do
  let flags ← c.uint16Value.read
  let flags := flags.toNat
  let consistencyLevel ← c.signedCharValue.read
  let cql ← c.p16StringValue.read
  let timestamp ← (if flags &&& 0x20 ≠ 0 then c.int64Value.read else pure 0)
  let timeoutMs ← (if flags &&& 0x40 ≠ 0 then c.int32Value.read else pure 0)
  let columnCount ← (if flags &&& 0x80 ≠ 0 then c.signedCharValue.read else pure 1)
  let pagingSize ← (if flags &&& 0x100 ≠ 0 then c.int32Value.read else pure 0)
  let cursorIndex ← (if flags &&& 0x200 ≠ 0 then indexValue c else pure (-1))
  let batchIndex ← (if flags &&& 0x800 ≠ 0 then indexValue c else pure (-1))
  let count ← c.uint16Value.read
  let parameter ← Reader.many c.binaryValue.read count.toNat
  pure { self with
    typeOfResult := TypeOfResult.ofNat (flags &&& 15)
    blocking := decide (flags &&& 0x10 ≠ 0)
    clearClusterDescription := decide (flags &&& 0x400 ≠ 0)
    consistencyLevel := consistencyLevel.toInt32
    cql := cql.text
    timestamp, timeoutMs, columnCount, pagingSize, cursorIndex, batchIndex
    parameter := self.parameter ++ parameter }

end Order

/-! ### The header of a message -/

/-- The size in the header, as `proxy::receiveOrder()` and `proxy::sendOrder()` take it from the buffer. -/
def headerSize (buf : Bytes) : UInt32 :=
  (buf.getD 4 0).toUInt32 <<< 24 ||| (buf.getD 5 0).toUInt32 <<< 16 ||| (buf.getD 6 0).toUInt32 <<< 8
    ||| (buf.getD 7 0).toUInt32

/-- Four bytes put together by shifts are the number that they are the digits of. -/
theorem or_shifts (n : Nat) (h : n < 2 ^ 32) : (n / 256 ^ 3 % 256) <<< 24 ||| ((n / 256 ^ 2 % 256) <<< 16
    ||| ((n / 256 ^ 1 % 256) <<< 8 ||| n / 256 ^ 0 % 256)) = n := by
  rw [← Nat.shiftLeft_add_eq_or_of_lt (i := 8) (by omega), ← Nat.shiftLeft_add_eq_or_of_lt (i := 16),
    ← Nat.shiftLeft_add_eq_or_of_lt (i := 24)]
  all_goals
    simp only [Nat.shiftLeft_eq]
    omega

theorem headerSize_eq {letters : Bytes} (hl : letters.length = 4) (n : UInt32) (rest : Bytes) :
    headerSize (letters ++ bigEndian 4 n.toNat ++ rest) = n := by
  obtain ⟨a, b, c, d, rfl⟩ : ∃ a b c d, letters = [a, b, c, d] := by
    match letters, hl with
    | [a, b, c, d], _ => exact ⟨a, b, c, d, rfl⟩
  have hshift : ∀ {m k : Nat}, m < 256 → k ≤ 24 → m <<< k % 2 ^ 32 = m <<< k := by
    intro m k hm hk
    refine Nat.mod_eq_of_lt ?_
    calc m <<< k = m * 2 ^ k := Nat.shiftLeft_eq m k
      _ ≤ 255 * 2 ^ 24 := Nat.mul_le_mul (by omega) (Nat.pow_le_pow_right (by decide) hk)
      _ < 2 ^ 32 := by decide
  have hbyte : ∀ m : Nat, m % 256 < 256 := fun m => Nat.mod_lt m (by decide)
  apply UInt32.toNat_inj.mp
  calc (headerSize ([a, b, c, d] ++ bigEndian 4 n.toNat ++ rest)).toNat
      = (n.toNat / 256 ^ 3 % 256) <<< 24 % 2 ^ 32 ||| ((n.toNat / 256 ^ 2 % 256) <<< 16 % 2 ^ 32
        ||| ((n.toNat / 256 ^ 1 % 256) <<< 8 % 2 ^ 32 ||| n.toNat / 256 ^ 0 % 256)) := by
        simp [headerSize, bigEndian, Nat.or_assoc]
    _ = (n.toNat / 256 ^ 3 % 256) <<< 24 ||| ((n.toNat / 256 ^ 2 % 256) <<< 16
        ||| ((n.toNat / 256 ^ 1 % 256) <<< 8 ||| n.toNat / 256 ^ 0 % 256)) := by
        rw [hshift (hbyte _) le_rfl, hshift (hbyte _) (by decide), hshift (hbyte _) (by decide)]
    _ = n.toNat := or_shifts _ n.toNat_lt
/-! ### The flags -/

theorem ite_and (p : Prop) [Decidable p] (x m : Nat) : (if p then x else 0) &&& m = if p then x &&& m else 0 := by
  split
  · rfl
  · exact Nat.zero_and m

namespace Order

theorem flags_toNat (o : Order) : o.flags.toNat = ((o.typeOfResult.toNat &&& 15)
    ||| (if o.blocking then 0x0010 else 0)
    ||| (if o.timestamp ≠ 0 then 0x0020 else 0)
    ||| (if o.timeoutMs ≠ 0 then 0x0040 else 0)
    ||| (if o.columnCount ≠ 1 then 0x0080 else 0)
    ||| (if o.pagingSize ≠ 0 then 0x0100 else 0)
    ||| (if o.cursorIndex ≠ -1 then 0x0200 else 0)
    ||| (if o.clearClusterDescription then 0x0400 else 0)
    ||| (if o.batchIndex ≠ -1 then 0x0800 else 0)) := by
  have ite_lt : ∀ (p : Prop) [Decidable p] (x : Nat), x < 2 ^ 16 → (if p then x else 0) < 2 ^ 16 := by
    intro p _ x hx
    split <;> omega
  have htype : o.typeOfResult.toNat &&& 15 < 2 ^ 16 := lt_of_le_of_lt Nat.and_le_right (by decide)
  rw [flags, UInt16.toNat_ofNat']
  refine Nat.mod_eq_of_lt ?_
  repeat' apply Nat.or_lt_two_pow
  all_goals first | exact htype | exact ite_lt _ _ (by decide)

/-- The reader tests the bits that the writer sets. -/
theorem flags_and (o : Order) : o.flags.toNat &&& 15 = o.typeOfResult.toNat ∧
    (o.flags.toNat &&& 0x10 ≠ 0 ↔ o.blocking = true) ∧
    (o.flags.toNat &&& 0x20 ≠ 0 ↔ o.timestamp ≠ 0) ∧
    (o.flags.toNat &&& 0x40 ≠ 0 ↔ o.timeoutMs ≠ 0) ∧
    (o.flags.toNat &&& 0x80 ≠ 0 ↔ o.columnCount ≠ 1) ∧
    (o.flags.toNat &&& 0x100 ≠ 0 ↔ o.pagingSize ≠ 0) ∧
    (o.flags.toNat &&& 0x200 ≠ 0 ↔ o.cursorIndex ≠ -1) ∧
    (o.flags.toNat &&& 0x400 ≠ 0 ↔ o.clearClusterDescription = true) ∧
    (o.flags.toNat &&& 0x800 ≠ 0 ↔ o.batchIndex ≠ -1) := by
  have hbit : ∀ (p : Prop) (hp : Decidable p) (x : Nat), ((if p then x + 1 else 0) ≠ 0 ↔ p) := by
    intro p _ x
    by_cases hp : p <;> simp [hp]
  simp only [flags_toNat, Nat.and_or_distrib_right, ite_and, Nat.and_assoc, Nat.reduceAnd, ite_self, Nat.or_zero,
    Nat.zero_or, Nat.and_zero]
  exact ⟨o.typeOfResult.toNat_and, hbit _ _ _, hbit _ _ _, hbit _ _ _, hbit _ _ _, hbit _ _ _, hbit _ _ _,
    hbit _ _ _, hbit _ _ _⟩

/-! ### What comes back -/

theorem toInt_eq_bmod (n : Int32) : n.toInt = (n.toUInt32.toNat : Int).bmod (2 ^ 32) := BitVec.toInt_eq_toNat_bmod _

theorem narrow_toInt (n : Int32) : n.toUInt32.toUInt16.toUInt32.toInt32.toInt = (n.toUInt32.toNat % 65536 : Nat) := by
  have h := toInt_eq_bmod n.toUInt32.toUInt16.toUInt32.toInt32
  have hlt := n.toUInt32.toUInt16.toNat_lt
  rw [h, UInt32.toUInt32_toInt32, UInt16.toNat_toUInt32, UInt32.toNat_toUInt16, Int.bmod_def]
  omega

theorem narrow_eq_iff (n : Int32) : n.toUInt32.toUInt16.toUInt32.toInt32 = n ↔ 0 ≤ n.toInt ∧ n.toInt ≤ 65535 := by
  rw [← Int32.toInt_inj, narrow_toInt]
  have h := toInt_eq_bmod n
  have hlt := n.toUInt32.toNat_lt
  rw [Int.bmod_def] at h
  omega

theorem toInt8_eq_iff (n : Int32) : n.toInt8.toInt32 = n ↔ -128 ≤ n.toInt ∧ n.toInt ≤ 127 := by
  rw [← Int32.toInt_inj, Int8.toInt_toInt32, Int32.toInt_toInt8, Int.bmod_def]
  omega

/-- An index as it comes back from two bytes. -/
def receivedIndex (n : Int32) : Int32 := if n ≠ -1 then n.toUInt32.toUInt16.toUInt32.toInt32 else -1

/-- The order that a fresh one becomes when it decodes what `encodeOrder()` made of `o`. -/
def received (o : Order) : Order :=
  { o with
    valid := true
    consistencyLevel := o.consistencyLevel.toInt8.toInt32
    cursorIndex := receivedIndex o.cursorIndex
    batchIndex := receivedIndex o.batchIndex
    parameter := o.parameter.take (o.parameter.length % 2 ^ 16) }

variable {c : Cassvalue}

theorem indexValue_reads {n : Int32} {q : Prop} [Decidable q] (hq : q ↔ n ≠ -1) :
    Reads (if q then indexValue c else pure (-1)) (receivedIndex n)
      (if n ≠ -1 then c.uint16Value.write n.toUInt32.toUInt16 else []) := by
  refine Reads.optional hq (fun hn => ?_) (fun hn => (if_neg hn).symm)
  rw [receivedIndex, if_pos hn]
  exact (c.uint16Value.read_write _).map _

theorem decodeOrder_encodeBody (o : Order) (s : P16String) (hs : s.text = o.cql) :
    ∃ rest, decodeOrder c {} (o.encodeBody c (c.p16StringValue.write s)) = some (o.received, rest) := by
  obtain ⟨htype, hblocking, htimestamp, htimeout, hcolumn, hpaging, hcursor, hclear, hbatch⟩ := o.flags_and
  set taken := o.parameter.take (o.parameter.length % 2 ^ 16) with htaken
  have hcount : (UInt16.ofNat o.parameter.length).toNat = taken.length := by
    rw [UInt16.toNat_ofNat', htaken, List.length_take_of_le (Nat.mod_le _ _)]
  have hsplit : o.parameter.flatMap c.binaryValue.write = taken.flatMap c.binaryValue.write
      ++ (o.parameter.drop (o.parameter.length % 2 ^ 16)).flatMap c.binaryValue.write := by
    rw [htaken, ← List.flatMap_append, List.take_append_drop]
  have hmany : Reads (Reader.many c.binaryValue.read (UInt16.ofNat o.parameter.length).toNat) taken
      (taken.flatMap c.binaryValue.write) := by
    rw [hcount]
    exact Reads.many c.binaryValue.read_write taken
  refine ⟨(o.parameter.drop (o.parameter.length % 2 ^ 16)).flatMap c.binaryValue.write, ?_⟩
  unfold encodeBody
  rw [hsplit]
  simp only [← List.append_assoc]
  refine Reads.run ?_ _
  simp only [List.append_assoc]
  have hvalue : o.received = { ({} : Order) with
      typeOfResult := TypeOfResult.ofNat (o.flags.toNat &&& 15)
      blocking := decide (o.flags.toNat &&& 0x10 ≠ 0)
      clearClusterDescription := decide (o.flags.toNat &&& 0x400 ≠ 0)
      consistencyLevel := o.consistencyLevel.toInt8.toInt32
      cql := s.text
      timestamp := o.timestamp, timeoutMs := o.timeoutMs, columnCount := o.columnCount, pagingSize := o.pagingSize
      cursorIndex := receivedIndex o.cursorIndex, batchIndex := receivedIndex o.batchIndex
      parameter := ({} : Order).parameter ++ taken } := by
    rw [htype, TypeOfResult.ofNat_toNat, hs, decide_eq_decide.mpr hblocking, decide_eq_decide.mpr hclear,
      Bool.decide_coe, Bool.decide_coe]
    rfl
  rw [hvalue]
  refine (c.uint16Value.read_write o.flags).bind ?_
  refine (c.signedCharValue.read_write o.consistencyLevel.toInt8).bind ?_
  refine (c.p16StringValue.read_write s).bind ?_
  refine (Reads.optional htimestamp (fun _ => c.int64Value.read_write _) fun h => (not_not.mp h).symm).bind ?_
  refine (Reads.optional htimeout (fun _ => c.int32Value.read_write _) fun h => (not_not.mp h).symm).bind ?_
  refine (Reads.optional hcolumn (fun _ => c.signedCharValue.read_write _) fun h => (not_not.mp h).symm).bind ?_
  refine (Reads.optional hpaging (fun _ => c.int32Value.read_write _) fun h => (not_not.mp h).symm).bind ?_
  refine (indexValue_reads hcursor).bind ?_
  refine (indexValue_reads hbatch).bind ?_
  refine (c.uint16Value.read_write _).bind ?_
  exact hmany.map _

/-! ### Whole orders -/

/-- The number of bytes of the message. -/
def wireSize (o : Order) : Nat :=
  4 + 4 + 2 + 1 + (2 + o.cql.utf8.length)
    + (if o.timestamp ≠ 0 then 8 else 0)
    + (if o.timeoutMs ≠ 0 then 4 else 0)
    + (if o.columnCount ≠ 1 then 1 else 0)
    + (if o.pagingSize ≠ 0 then 4 else 0)
    + (if o.cursorIndex ≠ -1 then 2 else 0)
    + (if o.batchIndex ≠ -1 then 2 else 0)
    + 2 + (o.parameter.map fun p => 4 + p.data.length).sum

/-- The fields that are wider than their place in the message hold a value that fits there, and the flag that is
    not sent has the value of a fresh order. -/
structure Fits (o : Order) : Prop where
  valid : o.valid = true
  consistencyLevel : -128 ≤ o.consistencyLevel.toInt ∧ o.consistencyLevel.toInt ≤ 127
  cursorIndex : -1 ≤ o.cursorIndex.toInt ∧ o.cursorIndex.toInt ≤ 65535
  batchIndex : -1 ≤ o.batchIndex.toInt ∧ o.batchIndex.toInt ≤ 65535
  parameter : o.parameter.length < 2 ^ 16

/-- When the order is encoded, the message states its size, and behind the header it decodes as the order. -/
def Restored (c : Cassvalue) (o : Order) : Prop :=
  ∀ b, o.encodeOrder c = some b →
    (headerSize b).toNat = b.length - 8 ∧ ∃ rest, decodeOrder c {} (b.drop 8) = some (o, rest)

theorem length_flatMap_binaryValue (c : Cassvalue) (l : List QByteArray) :
    (l.flatMap c.binaryValue.write).length = (l.map fun p => 4 + p.data.length).sum := by
  rw [List.length_flatMap]
  exact congrArg List.sum (List.map_congr_left fun p _ => c.binaryValue_length p)

theorem length_encoder (o : Order) (h : o.cql.utf8.length < 2 ^ 16) (n : UInt32) :
    (c.appendLetters "CQLP".toList ++ c.uint32Value.write n
      ++ o.encodeBody c (c.p16StringValue.write ⟨o.cql, h⟩)).length = o.wireSize := by
  have hite : ∀ (p : Prop) [Decidable p] (b : Bytes) (k : Nat), b.length = k →
      (if p then b else []).length = if p then k else 0 := by
    intro p _ b k hb
    split
    · exact hb
    · rfl
  have hchar : ∀ n, (c.signedCharValue.write n).length = 1 := fun n => by rw [c.signedCharValue_write]; rfl
  simp only [encodeBody, wireSize, List.length_append, c.appendLetters_eq, List.length_map, c.uint32Value_length,
    c.uint16Value_length, hchar, c.p16StringValue_length, length_flatMap_binaryValue,
    hite _ _ 8 (c.int64Value_length _), hite _ _ 4 (c.int32Value_length _), hite _ _ 1 (hchar _),
    hite _ _ 2 (c.uint16Value_length _)]
  change 4 + 4 + _ = _
  omega

theorem encodeOrder_eq_some {o : Order} {b : Bytes} : o.encodeOrder c = some b ↔
    ∃ h : o.cql.utf8.length < 2 ^ 16, o.wireSize ≤ c.bufferMaxSize ∧
      b = c.appendLetters "CQLP".toList ++ bigEndian 4 (UInt32.ofNat (o.wireSize - 8)).toNat
        ++ o.encodeBody c (c.p16StringValue.write ⟨o.cql, h⟩) := by
  have hletters : (c.appendLetters "CQLP".toList).length = 4 := by
    rw [c.appendLetters_eq]
    rfl
  unfold encodeOrder Cassvalue.appendP16StringValue
  by_cases h : o.cql.utf8.length < 2 ^ 16
  · rw [dif_pos h]
    change c.result (c.replaceUInt32Value _ _ 4) = some b ↔ _
    have hlength := o.length_encoder (c := c) h (UInt32.ofNat (o.wireSize - 8))
    rw [length_encoder, c.replaceUInt32Value_append hletters, Cassvalue.result, hlength, ← c.uint32Value_write]
    by_cases hmax : o.wireSize ≤ c.bufferMaxSize
    · rw [if_pos hmax]
      exact ⟨fun hb => ⟨h, hmax, (Option.some.inj hb).symm⟩, fun ⟨_, _, hb⟩ => congrArg some hb.symm⟩
    · rw [if_neg hmax]
      exact ⟨nofun, fun hb => absurd hb.2.1 hmax⟩
  · rw [dif_neg h]
    exact ⟨nofun, fun hb => absurd hb.1 h⟩

theorem receivedIndex_eq_iff (n : Int32) : receivedIndex n = n ↔ -1 ≤ n.toInt ∧ n.toInt ≤ 65535 := by
  have hneg : n = -1 ↔ n.toInt = -1 := Int32.toInt_inj.symm
  unfold receivedIndex
  split
  · rename_i h
    rw [narrow_eq_iff]
    have hn : n.toInt ≠ -1 := mt hneg.mpr h
    generalize n.toInt = k at hn ⊢
    omega
  · rename_i h
    have := not_not.mp h
    subst this
    exact ⟨fun _ => by decide, fun _ => rfl⟩

/-- The order comes back as it was exactly when every field fits. -/
theorem received_eq_iff (o : Order) : o.received = o ↔ o.Fits := by
  have hparameter : o.parameter.take (o.parameter.length % 2 ^ 16) = o.parameter ↔ o.parameter.length < 2 ^ 16 := by
    constructor
    · intro h
      have hlength := congrArg List.length h
      rw [List.length_take] at hlength
      omega
    · intro h
      rw [Nat.mod_eq_of_lt h, List.take_length]
  constructor
  · intro h
    exact ⟨(congrArg valid h).symm, (toInt8_eq_iff _).mp (congrArg consistencyLevel h),
      (receivedIndex_eq_iff _).mp (congrArg cursorIndex h), (receivedIndex_eq_iff _).mp (congrArg batchIndex h),
      hparameter.mp (congrArg parameter h)⟩
  · intro h
    rw [received, (toInt8_eq_iff _).mpr h.consistencyLevel, (receivedIndex_eq_iff _).mpr h.cursorIndex,
      (receivedIndex_eq_iff _).mpr h.batchIndex, hparameter.mpr h.parameter, ← h.valid]

/-- What a message of an encoded order states and holds. -/
theorem encodeOrder_received {o : Order} {b : Bytes} (h : o.encodeOrder c = some b) :
    (headerSize b).toNat = b.length - 8 ∧ ∃ rest, decodeOrder c {} (b.drop 8) = some (o.received, rest) := by
  obtain ⟨hcql, hmax, rfl⟩ := encodeOrder_eq_some.mp h
  have hlt := c.bufferMaxSize_lt
  have hletters : (c.appendLetters "CQLP".toList).length = 4 := by
    rw [c.appendLetters_eq]
    rfl
  have hlength := o.length_encoder (c := c) hcql (UInt32.ofNat (o.wireSize - 8))
  rw [c.uint32Value_write] at hlength
  refine ⟨?_, ?_⟩
  · rw [headerSize_eq hletters, hlength, UInt32.toNat_ofNat']
    omega
  · obtain ⟨rest, hrest⟩ := decodeOrder_encodeBody (c := c) o ⟨o.cql, hcql⟩ rfl
    refine ⟨rest, ?_⟩
    rw [List.drop_left' (by rw [List.length_append, hletters, bigEndian_length])]
    exact hrest

theorem restored_iff (c : Cassvalue) (o : Order) :
    o.Restored c ↔ 2 ^ 16 ≤ o.cql.utf8.length ∨ c.bufferMaxSize < o.wireSize ∨ o.Fits := by
  constructor
  · intro h
    by_cases hcql : o.cql.utf8.length < 2 ^ 16
    · by_cases hmax : o.wireSize ≤ c.bufferMaxSize
      · have hb := encodeOrder_eq_some.mpr ⟨hcql, hmax, rfl⟩
        obtain ⟨-, rest, hself⟩ := h _ hb
        obtain ⟨-, rest', hreceived⟩ := encodeOrder_received hb
        rw [hself] at hreceived
        exact .inr (.inr (o.received_eq_iff.mp (Prod.mk.inj (Option.some.inj hreceived)).1.symm))
      · exact .inr (.inl (not_le.mp hmax))
    · exact .inl (not_lt.mp hcql)
  · intro h b hb
    obtain ⟨hcql, hmax, -⟩ := encodeOrder_eq_some.mp hb
    obtain h | h | h := h
    · omega
    · omega
    · have hreceived := encodeOrder_received hb
      rwa [o.received_eq_iff.mpr h] at hreceived

end Order
end Snapwebsites.Libdbproxy
