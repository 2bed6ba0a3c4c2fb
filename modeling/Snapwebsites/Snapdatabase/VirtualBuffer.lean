import Snapwebsites.Lib.Copy
import Snapwebsites.Snapdatabase.RowStore

/-! # Virtual buffers

`virtual_buffer`: bytes of blocks and bytes of its own, one behind the other. A block is the address of its data, and the bytes of
all blocks are in one memory. What C++ leaves undefined is `none`: a copy to where a vector has no bytes, and the use of an iterator
behind a change of the deque that makes it invalid. Sizes are numbers here, as they stay far below the 64 bits of the source. -/

namespace Snapwebsites.Snapdatabase.Data

/-- `vbuf_t`; `capacity` is the one of the vector `data`. -/
structure Vbuf where
  block : Option Reference := none
  data : Bytes := []
  capacity : Nat := 0
  offset : Nat := 0
  size : Nat := 0
  deriving DecidableEq

structure VirtualBuffer where
  buffers : List Vbuf := []
  totalSize : Nat := 0
  modified : Bool := false
  deriving DecidableEq

/-- An `int` that is made of a number of 64 bits. -/
def toInt (n : Nat) : Int := (n : Int).bmod 0x100000000

/-! ### Bytes -/

/-- `memcpy()` to bytes that are there. -/
def memcpy (data : Bytes) (offset : Nat) (s : Bytes) : Bytes := data.take offset ++ s ++ data.drop (offset + s.length)

theorem memcpy_middle {a b x y : Bytes} (h : x.length = y.length) : memcpy (a ++ x ++ b) a.length y = a ++ y ++ b := by
  rw [memcpy, List.append_assoc a x b, List.take_left, List.drop_append, List.drop_of_length_le (by omega), List.nil_append, ← h,
    Nat.add_sub_cancel_left, List.drop_left]

/-- `std::vector::resize()`. -/
def resize (data : Bytes) (n : Nat) : Bytes := data.take n ++ List.replicate (n - data.length) 0

namespace Vbuf

/-- What `pread()` copies out of one buffer. -/
def read (m : Memory) (b : Vbuf) (offset size : Nat) : Bytes :=
  match b.block with
  | some r => m.read (r + b.offset + offset) size
  | none => (b.data.drop offset).take size

/-- What `pwrite()` copies into one buffer. The place within the block does not count from the offset of the buffer. -/
def write (b : Vbuf) (offset : Nat) (s : Bytes) (m : Memory) : Vbuf × Memory :=
  match b.block with
  | some r => (b, m.copyTo (r + offset) s)
  | none => ({ b with data := memcpy b.data offset s }, m)

end Vbuf

namespace VirtualBuffer

/-! ### Reading and writing -/

def addBuffer (v : VirtualBuffer) (block : Reference) (offset size : Nat) : Option VirtualBuffer :=
  if v.modified then none
  else some { v with buffers := v.buffers ++ [{ block := some block, offset, size }], totalSize := v.totalSize + size }

def isDataAvailable (v : VirtualBuffer) (offset size : Nat) : Bool := decide (offset + size ≤ v.totalSize)

/-- The loop of `pread()`. -/
def preadFrom (m : Memory) : List Vbuf → Nat → Nat → Bytes
  | [], _, _ => []
  | b :: l, size, offset =>
    if offset ≥ b.size then preadFrom m l size (offset - b.size)
    else
      let sz := if size > b.size - offset then b.size - offset else size
      b.read m offset sz ++ if size - sz = 0 then [] else preadFrom m l (size - sz) 0

/-- `pread()`; nothing when it throws. -/
def pread (m : Memory) (v : VirtualBuffer) (size offset : Nat) (full : Bool) : Option Bytes :=
  if size = 0 then some []
  else if full && !v.isDataAvailable offset size then none
  else some (preadFrom m v.buffers size offset)

/-- The loop of `pwrite()`, with what is left at the end. -/
def pwriteFrom : List Vbuf → Bytes → Nat → Memory → (List Vbuf × Memory) × Bytes
  | [], s, _, m => (([], m), s)
  | b :: l, s, offset, m =>
    if offset ≥ b.size then
      let r := pwriteFrom l s (offset - b.size) m
      ((b :: r.1.1, r.1.2), r.2)
    else
      let sz := if s.length > b.size - offset then b.size - offset else s.length
      let w := b.write offset (s.take sz) m
      if s.length - sz = 0 then ((w.1 :: l, w.2), [])
      else
        let r := pwriteFrom l (s.drop sz) 0 w.2
        ((w.1 :: r.1.1, r.1.2), r.2)

/-- The last buffer takes what it has room for, if the bytes are its own. -/
def growLast (b : Vbuf) (s : Bytes) : Vbuf × Bytes :=
  if b.block = none ∧ b.capacity - b.size > 0 then
    let sz := min (b.capacity - b.size) s.length
    ({ b with data := memcpy (resize b.data (b.size + sz)) b.size (s.take sz), size := b.size + sz }, s.drop sz)
  else (b, s)

/-- The rest gets a buffer of its own, whose copy in the deque has no room left. -/
def appendRest (l : List Vbuf) (s : Bytes) : List Vbuf :=
  if s = [] then l else l ++ [{ data := s, capacity := s.length, size := s.length }]

/-- What `pwrite()` does with the bytes behind the end. -/
def grow (l : List Vbuf) (s : Bytes) : List Vbuf :=
  if s = [] then l
  else match l.getLast? with
    | some b => appendRest (l.dropLast ++ [(growLast b s).1]) (growLast b s).2
    | none => appendRest l s

/-- `pwrite()`; nothing when it throws. -/
def pwrite (v : VirtualBuffer) (m : Memory) (s : Bytes) (offset : Nat) (allowGrowth : Bool) : Option (VirtualBuffer × Memory) :=
  if s = [] then some (v, m)
  else if !allowGrowth && !v.isDataAvailable offset s.length then none
  else
    let r := pwriteFrom v.buffers s offset m
    some ({ buffers := grow r.1.1 r.2, totalSize := v.totalSize + r.2.length, modified := true }, r.1.2)

/-! ### Insertion -/

/-- The loop of `pinsert()`: the buffers, or what is left of the offset at the end. The buffer of a block is split in two, and the
buffer of the bytes goes in between: the iterator is no longer valid when it is used then, and the vector is empty when the bytes are
copied to it. -/
def pinsertFrom : List Vbuf → Bytes → Nat → Except Nat (Option (List Vbuf))
  | [], _, offset => .error offset
  | b :: l, s, offset =>
    if offset ≥ b.size then (pinsertFrom l s (offset - b.size)).map fun r => r.map (b :: ·)
    else if b.block.isSome then .ok none
    else
      let data := b.data.take offset ++ s ++ b.data.drop offset
      .ok (some ({ b with data, capacity := max b.capacity data.length, size := b.size + s.length } :: l))

/-- What `pinsert()` does at the end: the size of the last buffer stays as it is, and a new one would have an empty vector. -/
def insertAtEnd (l : List Vbuf) (s : Bytes) : Option (List Vbuf) :=
  match l.getLast? with
  | some b =>
    if b.block = none then
      some (l.dropLast ++ [{ b with data := b.data ++ s, capacity := max b.capacity (b.data.length + s.length) }])
    else none
  | none => none

/-- `pinsert()`; nothing when it throws or is not defined. -/
def pinsert (v : VirtualBuffer) (m : Memory) (s : Bytes) (offset : Nat) : Option (VirtualBuffer × Memory) :=
  if s = [] then some (v, m)
  else if offset ≥ v.totalSize then v.pwrite m s offset true
  else
    let inserted := match pinsertFrom v.buffers s offset with
      | .ok buffers => buffers
      | .error offset => if offset = 0 then insertAtEnd v.buffers s else none
    inserted.map fun buffers => ({ buffers, totalSize := v.totalSize + s.length, modified := true }, m)

/-! ### Erasure -/

/-- The part of a buffer from which `size` bytes at `offset` are taken, when there are more of them. A buffer of a block that loses its
middle is split by an insertion in front of it, and the iterator that is used then is no longer valid. -/
def eraseWithin (b : Vbuf) (size offset : Nat) : Option Vbuf :=
  if b.block.isSome then
    if offset = 0 then some { b with offset := b.offset + size, size := b.size - size }
    else if offset + size ≥ b.size then some { b with offset := b.offset + offset, size := b.size - size }
    else none
  else if offset + size ≤ b.data.length then
    some { b with data := b.data.take offset ++ b.data.drop (offset + size), size := b.size - size }
  else none

/-- The loop of `perase()`: `kept` are the buffers in front of the iterator, and the results are the buffers and the number of bytes
that are erased. Where a buffer goes, the iterator to the next one is still good if it was the first one; at the end of the range it
is not looked at again. -/
def peraseFrom (kept : List Vbuf) : List Vbuf → Nat → Nat → Option (List Vbuf × Nat)
  | [], _, _ => some (kept, 0)
  | b :: l, size, offset =>
    if size = 0 then some (kept ++ b :: l, 0)
    else if offset ≥ b.size then peraseFrom (kept ++ [b]) l size (offset - b.size)
    else if size ≥ b.size then
      if offset = 0 then
        if size - b.size = 0 then some (kept ++ l, b.size)
        else if kept = [] then (peraseFrom [] l (size - b.size) 0).map fun r => (r.1, b.size + r.2)
        else none
      else (peraseFrom (kept ++ [{ b with size := offset }]) l (size - (b.size - offset)) 0).map fun r => (r.1, b.size - offset + r.2)
    else (eraseWithin b size offset).map fun b => (kept ++ b :: l, size)

/-- `perase()`. -/
def perase (v : VirtualBuffer) (size offset : Nat) : Option (VirtualBuffer × Int) :=
  if size = 0 then some (v, 0)
  else if offset ≥ v.totalSize then some (v, 0)
  else
    let size := if size > v.totalSize - offset then v.totalSize - offset else size
    (peraseFrom [] v.buffers size offset).map fun r =>
      ({ buffers := r.1, totalSize := v.totalSize - r.2, modified := decide (r.2 ≠ 0) }, toInt r.2)

end VirtualBuffer
end Snapwebsites.Snapdatabase.Data
