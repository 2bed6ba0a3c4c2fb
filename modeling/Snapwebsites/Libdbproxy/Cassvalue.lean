import Snapwebsites.Communicator.QString
import Snapwebsites.Lib.Format

/-! # Values of the database on the wire

The `Encoder` and the `Decoder` of cassvalue are not part of the repository. `Cassvalue` is what libdbproxy
relies on: a format for each type of value that it sends, the number of bytes each of them takes, the byte
order of the sizes that `proxy` takes apart by hand, and a limit to the size of the buffer. `Cassvalue.network`
is such an encoder and decoder. -/

namespace Snapwebsites

/-- A `QByteArray` counts its bytes in an `int`. -/
structure QByteArray where
  data : Bytes
  length_lt : data.length < 2 ^ 31
deriving DecidableEq

/-- A text short enough for a size on two bytes. -/
structure P16String where
  text : QString
  length_lt : text.utf8.length < 2 ^ 16
deriving DecidableEq

/-- The values that libdbproxy writes with an encoder, which throws when the buffer grows over `bufferMaxSize`,
    and reads with a decoder. -/
structure Cassvalue where
  bufferMaxSize : Nat
  signedCharValue : Format Int8
  uint16Value : Format UInt16
  uint32Value : Format UInt32
  int32Value : Format Int32
  int64Value : Format Int64
  p16StringValue : Format P16String
  binaryValue : Format QByteArray
  bufferMaxSize_lt : bufferMaxSize < 2 ^ 31
  signedCharValue_write : ∀ n, signedCharValue.write n = [n.toUInt8]
  uint16Value_length : ∀ n, (uint16Value.write n).length = 2
  uint32Value_write : ∀ n, uint32Value.write n = bigEndian 4 n.toNat
  int32Value_length : ∀ n, (int32Value.write n).length = 4
  int64Value_length : ∀ n, (int64Value.write n).length = 8
  p16StringValue_length : ∀ s, (p16StringValue.write s).length = 2 + s.text.utf8.length
  binaryValue_length : ∀ b, (binaryValue.write b).length = 4 + b.data.length

namespace Cassvalue

/-- `Encoder::appendP16StringValue()` throws when the text does not fit its size. -/
def appendP16StringValue (c : Cassvalue) (s : QString) : Option Bytes :=
  if h : s.utf8.length < 2 ^ 16 then some (c.p16StringValue.write ⟨s, h⟩) else none

/-- Four letters, each appended as a signed char. -/
def appendLetters (c : Cassvalue) (s : QString) : Bytes :=
  s.flatMap fun l => c.signedCharValue.write (UInt8.ofNat l.toNat).toInt8

/-- `Encoder::replaceUInt32Value()`. -/
def replaceUInt32Value (c : Cassvalue) (encoded : Bytes) (n : UInt32) (index : Nat) : Bytes :=
  encoded.take index ++ c.uint32Value.write n ++ encoded.drop (index + 4)

/-- `Encoder::result()`: the buffer, when no append threw. A buffer only grows, so its last size decides. -/
def result (c : Cassvalue) (encoded : Bytes) : Option Bytes :=
  if encoded.length ≤ c.bufferMaxSize then some encoded else none

theorem uint32Value_length (c : Cassvalue) (n : UInt32) : (c.uint32Value.write n).length = 4 := by
  rw [c.uint32Value_write, bigEndian_length]

theorem replaceUInt32Value_append (c : Cassvalue) {a : Bytes} {index : Nat} (ha : a.length = index) (m n : UInt32)
    (rest : Bytes) :
    c.replaceUInt32Value (a ++ c.uint32Value.write m ++ rest) n index = a ++ c.uint32Value.write n ++ rest := by
  subst ha
  have hm : (c.uint32Value.write m).length = 4 := c.uint32Value_length m
  rw [replaceUInt32Value, List.append_assoc a, List.take_left, ← List.drop_drop, List.drop_left, ← hm, List.drop_left]

theorem appendLetters_eq (c : Cassvalue) (s : QString) :
    c.appendLetters s = s.map fun l => UInt8.ofNat l.toNat := by
  unfold appendLetters
  induction s with
  | nil => rfl
  | cons l s ih =>
    rw [List.flatMap_cons, ih, c.signedCharValue_write]
    rfl

/-! ### An encoder and decoder in network byte order -/

/-- The text whose UTF-8 form the bytes are. -/
def p16StringOfUtf8 (b : Bytes) : Option P16String :=
  b.toByteArray.utf8Decode?.bind fun s =>
    if h : (QString.utf8 s.toList).length < 2 ^ 16 then some ⟨s.toList, h⟩ else none

theorem p16StringOfUtf8_utf8 (s : P16String) : p16StringOfUtf8 s.text.utf8 = some s := by
  have hdecode : s.text.utf8.toByteArray.utf8Decode? = some s.text.toArray := List.utf8Decode?_utf8Encode
  rw [p16StringOfUtf8, hdecode, Option.bind_some]
  exact dif_pos s.length_lt

/-- Big-endian integers, and blobs behind their size. -/
def network (bufferMaxSize : Nat) (hmax : bufferMaxSize < 2 ^ 31) : Cassvalue where
  bufferMaxSize
  signedCharValue := .number 1 (fun n => n.toUInt8.toNat) (fun n => (UInt8.ofNat n).toInt8)
    (fun n => n.toUInt8.toNat_lt) (fun n => by simp)
  uint16Value := .number 2 UInt16.toNat UInt16.ofNat UInt16.toNat_lt (fun n => by simp)
  uint32Value := .number 4 UInt32.toNat UInt32.ofNat UInt32.toNat_lt (fun n => by simp)
  int32Value := .number 4 (fun n => n.toUInt32.toNat) (fun n => (UInt32.ofNat n).toInt32)
    (fun n => n.toUInt32.toNat_lt) (fun n => by simp)
  int64Value := .number 8 (fun n => n.toUInt64.toNat) (fun n => (UInt64.ofNat n).toInt64)
    (fun n => n.toUInt64.toNat_lt) (fun n => by simp)
  p16StringValue := .blob 2 (fun s => s.text.utf8) p16StringOfUtf8 (fun s => s.length_lt) p16StringOfUtf8_utf8
  binaryValue := .blob 4 (fun b => b.data) (fun b => if h : b.length < 2 ^ 31 then some ⟨b, h⟩ else none)
    (fun b => lt_of_lt_of_le b.length_lt (by decide)) (fun b => dif_pos b.length_lt)
  bufferMaxSize_lt := hmax
  signedCharValue_write n := by simp [Format.number, bigEndian]
  uint16Value_length n := bigEndian_length _ 2
  uint32Value_write _ := rfl
  int32Value_length n := bigEndian_length _ 4
  int64Value_length n := bigEndian_length _ 8
  p16StringValue_length s := by simp [Format.blob, bigEndian_length]
  binaryValue_length b := by simp [Format.blob, bigEndian_length]

end Cassvalue
end Snapwebsites
