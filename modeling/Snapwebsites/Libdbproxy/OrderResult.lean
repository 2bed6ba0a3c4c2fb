import Snapwebsites.Libdbproxy.Order

/-! # Results of orders

`order_result` of libdbproxy: whether an order succeeded, in the four letters of the header, and the blobs that
the daemon sends back. With `Snapwebsites.Libdbproxy.Order` these are the two messages between a client and the
database daemon, and `messages_restored` says which of them arrive as they were sent. -/

namespace Snapwebsites.Libdbproxy

structure OrderResult where
  succeeded : Bool := false
  result : List QByteArray := []
deriving DecidableEq

namespace OrderResult
variable (c : Cassvalue)

def letters (r : OrderResult) : QString := if r.succeeded then "SUCS".toList else "EROR".toList

def expectedSize (r : OrderResult) : UInt32 :=
  UInt32.ofNat (4 + 4 + 2 + (r.result.map fun p => 4 + p.data.length).sum)

/-- `encodeResult()`; nothing when it throws. -/
def encodeResult (r : OrderResult) : Option Bytes :=
  if r.result.length > 65535 then none
  else c.result (c.appendLetters r.letters ++ c.uint32Value.write (r.expectedSize - 8)
    ++ (c.uint16Value.write (UInt16.ofNat r.result.length) ++ r.result.flatMap c.binaryValue.write))

/-- `decodeResult()` on the result `self`; nothing when the decoder throws. -/
def decodeResult (self : OrderResult) : Reader OrderResult := do
  let count ← c.uint16Value.read
  let result ← Reader.many c.binaryValue.read count.toNat
  pure { self with result := self.result ++ result }

/-- `sendOrder()` on the reply to an order: the success is in the letters of the header, and the rest behind it. -/
def receiveResult (buf : Bytes) : Option OrderResult := do
  let (r, _) ← decodeResult c {} (buf.drop 8)
  pure { r with succeeded := decide (buf.take 4 = "SUCS".toList.map fun l => UInt8.ofNat l.toNat) }

/-- When the result is encoded, the message states its size and is received as the result. -/
def Restored (r : OrderResult) : Prop :=
  ∀ b, r.encodeResult c = some b → (headerSize b).toNat = b.length - 8 ∧ receiveResult c b = some r

variable {c}

theorem length_encoder (r : OrderResult) (n : UInt32) :
    (c.appendLetters r.letters ++ c.uint32Value.write n
      ++ (c.uint16Value.write (UInt16.ofNat r.result.length) ++ r.result.flatMap c.binaryValue.write)).length =
      4 + 4 + 2 + (r.result.map fun p => 4 + p.data.length).sum := by
  have hletters : r.letters.length = 4 := by
    cases hr : r.succeeded <;> simp [letters, hr]
  simp only [List.length_append, c.appendLetters_eq, List.length_map, hletters, c.uint32Value_length,
    c.uint16Value_length, Order.length_flatMap_binaryValue]
  omega

theorem decodeResult_reads (r : OrderResult) (h : r.result.length ≤ 65535) :
    Reads (decodeResult c {}) { r with succeeded := false }
      (c.uint16Value.write (UInt16.ofNat r.result.length) ++ r.result.flatMap c.binaryValue.write) := by
  have hmany : Reads (Reader.many c.binaryValue.read (UInt16.ofNat r.result.length).toNat) r.result
      (r.result.flatMap c.binaryValue.write) := by
    rw [UInt16.toNat_ofNat', Nat.mod_eq_of_lt (Nat.lt_succ_of_le h)]
    exact Reads.many c.binaryValue.read_write r.result
  exact (c.uint16Value.read_write _).bind (hmany.map fun result => ({ result := [] ++ result } : OrderResult))

theorem encodeResult_eq_some {r : OrderResult} {b : Bytes} (h : r.encodeResult c = some b) :
    r.result.length ≤ 65535 ∧ b.length ≤ c.bufferMaxSize ∧
      b = c.appendLetters r.letters ++ bigEndian 4 (r.expectedSize - 8).toNat
        ++ (c.uint16Value.write (UInt16.ofNat r.result.length) ++ r.result.flatMap c.binaryValue.write) := by
  unfold encodeResult Cassvalue.result at h
  rw [c.uint32Value_write] at h
  split at h
  · cases h
  · rename_i hcount
    split at h
    · rename_i hmax
      cases h
      exact ⟨not_lt.mp hcount, hmax, rfl⟩
    · cases h

/-- The letters of the header tell a success from an error. -/
theorem letters_eq_iff (r : OrderResult) :
    decide (c.appendLetters r.letters = "SUCS".toList.map fun l => UInt8.ofNat l.toNat) = r.succeeded := by
  rw [c.appendLetters_eq, letters]
  cases r.succeeded <;> decide

theorem restored (c : Cassvalue) (r : OrderResult) : r.Restored c := by
  intro b hb
  obtain ⟨hcount, hmax, rfl⟩ := encodeResult_eq_some hb
  have hlt := c.bufferMaxSize_lt
  have hletters : (c.appendLetters r.letters).length = 4 := by
    rw [c.appendLetters_eq, List.length_map, letters]
    cases r.succeeded <;> rfl
  have hlength := r.length_encoder (c := c) (r.expectedSize - 8)
  rw [c.uint32Value_write] at hlength
  rw [hlength] at hmax
  have hsize : r.expectedSize - 8 = UInt32.ofNat (4 + 4 + 2 + (r.result.map fun p => 4 + p.data.length).sum - 8) := by
    rw [expectedSize, UInt32.ofNat_sub]
    · rfl
    · omega
  refine ⟨?_, ?_⟩
  · rw [headerSize_eq hletters, hlength, hsize, UInt32.toNat_ofNat']
    omega
  · have hread := (decodeResult_reads (c := c) r hcount).run []
    rw [List.append_nil] at hread
    unfold receiveResult
    rw [List.drop_left' (by rw [List.length_append, hletters, bigEndian_length]), hread, List.append_assoc,
      List.take_left' hletters]
    change some ({ r with succeeded := _ } : OrderResult) = some r
    rw [letters_eq_iff]

end OrderResult

/-! ### Both messages -/

/-- Every result arrives as it was sent, or its encoder throws; an order does when the encoder throws (the CQL
    text is over 64Kb, or the buffer over its limit) or when the fields wider than their place in the message
    hold values that fit, and in no other case. -/
theorem messages_restored (c : Cassvalue) :
    (∀ o : Order, o.Restored c ↔ 2 ^ 16 ≤ o.cql.utf8.length ∨ c.bufferMaxSize < o.wireSize ∨ o.Fits) ∧
      ∀ r : OrderResult, r.Restored c :=
  ⟨Order.restored_iff c, OrderResult.restored c⟩

/-- The index of the 65537th cursor comes back as that of the first one. -/
theorem cursorIndex_not_restored :
    ¬ ∀ (c : Cassvalue) (o : Order), o.Restored c := by
  intro h
  have hfits := (Order.restored_iff _ _).mp (h (Cassvalue.network (64 * 1024 * 1024) (by decide)) { cursorIndex := 65536 })
  revert hfits
  rintro (h | h | h)
  · exact absurd h (by decide)
  · exact absurd h (by decide)
  · exact absurd h.cursorIndex (by decide)

end Snapwebsites.Libdbproxy
