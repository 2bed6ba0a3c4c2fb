import Snapwebsites.Snapdatabase.SetString

/-! # Setting a buffer

`set_buffer()` erases what a shorter buffer leaves before it writes, and the difference of the sizes is one of 64 bits with a sign: the
fields behind the buffer move with their bytes. What throws leaves the state as it was when it throws. -/

namespace Snapwebsites.Snapdatabase.Data

open Loadavg (littleEndian ofLittleEndian littleEndian_length ofLittleEndian_littleEndian)

def isBuffer : StructType → Bool
  | .buffer8 | .buffer16 | .buffer32 => true
  | _ => false

/-- A function that changes a structure and the memory, and stops at what it throws. -/
abbrev Update := ExceptT StructureError (StateM (Structure × Memory))

/-- A function of the buffer; what throws, or is not defined, leaves the state. -/
def Update.buffer (op : VirtualBuffer → Memory → Option (VirtualBuffer × Memory)) : Update Unit := fun (s, m) =>
  match op s.buffer m with
  | some (buffer, m) => (.ok (), { s with buffer }, m)
  | none => (.error .invalidSize, s, m)

/-- `adjust_offsets()` with a difference that has a sign. -/
def adjustOffsetsBy (cutoff : Nat) (diff : Int) (l : List Field) : List Field :=
  l.map fun f => if f.offset > cutoff then { f with offset := (f.offset + diff).toNat } else f

/-- `f->set_size()` and `adjust_offsets()`, with the size that was there. -/
def Update.resize (i : Nat) (f : Field) (size : Nat) : Update Unit := fun (s, m) =>
  (.ok (), { s with fields := adjustOffsetsBy f.offset (size - f.size) (s.fields.set i { f with size }) }, m)

namespace Structure

def getBuffer (s : Structure) (m : Memory) (home : Home) (name : Bytes) : Except StructureError Bytes := do
  let (_, f) ← getField s.fields home name
  if !isBuffer f.type then throw .typeMismatch
  let fieldSize := typeFieldSize f.type
  let size ← need (s.buffer.pread m fieldSize f.offset true)
  if ofLittleEndian size ≠ f.size then throw .invalidSize
  need (s.buffer.pread m f.size (f.offset + fieldSize) true)

/-- `set_buffer()` of the field that is found. -/
def setBufferOf (i : Nat) (f : Field) (value : Bytes) : Update Unit :=
  let fieldSize := typeFieldSize f.type
  let size := value.length
  if size ≥ 256 ^ fieldSize then throw .outOfRange
  else if f.size > size then do
    Update.buffer fun v m => (v.perase (f.size - size) (f.offset + fieldSize + size)).map fun r => (r.1, m)
    Update.buffer fun v m => v.pwrite m (littleEndian fieldSize size) f.offset false
    Update.buffer fun v m => v.pwrite m value (f.offset + fieldSize) false
    Update.resize i f size
  else if f.size < size then do
    Update.buffer fun v m => v.pwrite m (littleEndian fieldSize size) f.offset false
    Update.buffer fun v m => v.pwrite m (value.take f.size) (f.offset + fieldSize) false
    Update.buffer fun v m => v.pinsert m (value.drop f.size) (f.offset + fieldSize + f.size)
    Update.resize i f size
  else Update.buffer fun v m => v.pwrite m value (f.offset + fieldSize) false

/-- `set_buffer()` of the structure at `home`. -/
def setBuffer (home : Home) (name value : Bytes) : Update Unit := fun (s, m) =>
  match getField s.fields home name with
  | .error e => (.error e, s, m)
  | .ok (i, f) => if !isBuffer f.type then (.error .typeMismatch, s, m) else setBufferOf i f value (s, m)

/-- `set_buffer()` sets the field with the index `i`, keeps the values of the other ones, and leaves what would be parsed. -/
def SetsBuffer (s : Structure) (m : Memory) (home : Home) (name value : Bytes) (i : Nat) : Prop :=
  ∃ s' m', setBuffer home name value (s, m) = (.ok (), s', m') ∧ s'.getBuffer m' home name = .ok value ∧
    (∀ j, j ≠ i → (s'.fields[j]?).map (s'.value m') = (s.fields[j]?).map (s.value m)) ∧
    s'.description = s.description ∧ s'.startOffset = s.startOffset ∧ s'.Parsed m'

end Structure

/-- One memory buffer. -/
def VirtualBuffer.Flat (v : VirtualBuffer) : Prop := ∃ b, v.buffers = [b] ∧ b.block = none

/-! ### The buffer -/

section
variable {v v' : VirtualBuffer} {m : Memory} {a b n x s : Bytes} {f : Field} {i : Nat} {k : Int}

theorem VirtualBuffer.Flat.own (h : v.Flat) : ∀ b ∈ v.buffers, b.block = none := by
  obtain ⟨b, hb, hblock⟩ := h
  intro c hc
  rw [hb, List.mem_singleton] at hc
  rw [hc, hblock]

theorem eraseWithin_block {b b' : Vbuf} {size offset : Nat} (h : VirtualBuffer.eraseWithin b size offset = some b') :
    b'.block = b.block := by
  unfold VirtualBuffer.eraseWithin at h
  split at h
  · split at h
    · cases h
      rfl
    · split at h
      · cases h
        rfl
      · cases h
  · split at h
    · cases h
      rfl
    · cases h

/-- Bytes within one memory buffer can be erased, and it stays one. -/
theorem VirtualBuffer.Flat.perase (h : v.Flat) (hs : v.Sound) (size offset : Nat) (hpos : 0 < offset) (hsize : 0 < size)
    (hin : offset + size ≤ v.totalSize) (m : Memory) : ∃ v' k, v.perase size offset = some (v', k) ∧ v'.Sound ∧ v'.Flat ∧
      content m v'.buffers = (content m v.buffers).take offset ++ (content m v.buffers).drop (offset + size) := by
  obtain ⟨b, hb, hblock⟩ := h
  have htotal := hs.totalSize
  rw [hb] at htotal
  have hsizes : v.totalSize = b.size := htotal.trans (Nat.add_zero _)
  have hinside : Inside v.buffers size offset := by
    rw [hb]
    exact (inside_within hpos (by omega) (by omega)).mpr ⟨hblock, by omega⟩
  obtain ⟨v', k, herase, hsound, hcontent⟩ := v.perase_at hs hsize hin hinside (by rw [hb]; exact alone_within (by omega)) m
  refine ⟨v', k, herase, hsound, ?_, hcontent⟩
  have hfrom : peraseFrom [] [b] size offset = (eraseWithin b size offset).map fun b => ([b], size) := by
    unfold peraseFrom
    rw [if_neg (by omega), if_neg (by omega), if_neg (by omega)]
    rfl
  rw [VirtualBuffer.perase, if_neg (by omega), if_neg (by omega), if_neg (by omega)] at herase
  dsimp only at herase
  rw [hb, hfrom] at herase
  cases hwithin : eraseWithin b size offset with
  | none =>
    rw [hwithin] at herase
    cases herase
  | some b' =>
    rw [hwithin] at herase
    cases herase
    exact ⟨b', rfl, (eraseWithin_block hwithin).trans hblock⟩

/-! ### The steps -/

theorem Update.bind_ok {u : Update Unit} {st st' : Structure × Memory} (h : u st = (.ok (), st')) (next : Update Unit) :
    (u >>= fun _ => next) st = next st' := by
  show (fun r : Except StructureError Unit × Structure × Memory => ExceptT.bindCont (fun _ => next) r.1 r.2) (u st) = _
  rw [h]
  rfl

theorem Update.buffer_ok {op : VirtualBuffer → Memory → Option (VirtualBuffer × Memory)} {st : Structure} {m' : Memory}
    (h : op st.buffer m = some (v', m')) : Update.buffer op (st, m) = (.ok (), { st with buffer := v' }, m') := by
  rw [Update.buffer, h]

namespace Structure
variable {home : Home} {name value : Bytes}

/-- The writes, where the string fills what is there. -/
theorem writes_fit {v : VirtualBuffer} {n : Bytes} (s : Bytes) (h : v.Sound) (hown : ∀ b ∈ v.buffers, b.block = none) {number : Bytes}
    (hcontent : content m v.buffers = a ++ n ++ x ++ b) (hn : n.length = number.length) (hx : x.length = s.length) :
    ∃ v₁ m₁ v₂ m₂, v.pwrite m number a.length false = some (v₁, m₁) ∧
      v₁.pwrite m₁ s (a.length + number.length) false = some (v₂, m₂) ∧ v₂.Sound ∧ List.Forall₂ Vbuf.Alike v.buffers v₂.buffers ∧
      content m₂ v₂.buffers = a ++ number ++ s ++ b := by
  obtain ⟨v₁, m₁, v₂, m₂, hwrite, hwrite', hsound, halike, hafter⟩ :=
    writes_front h (VirtualBuffer.writable_own hown) (VirtualBuffer.writable_own hown) hcontent hn (Nat.le_of_eq hx.symm)
  refine ⟨v₁, m₁, v₂, m₂, hwrite, hwrite', hsound, halike, ?_⟩
  rw [hafter, ← hx, List.drop_length, List.append_nil]

/-- One memory buffer, cut around a field: what is in front, its number, its bytes, and what is behind. -/
structure Cut (st : Structure) (m : Memory) (f : Field) (a n x b : Bytes) : Prop where
  sound : st.buffer.Sound
  flat : st.buffer.Flat
  content : content m st.buffer.buffers = a ++ n ++ x ++ b
  front : a.length = f.offset
  number : n = littleEndian (typeFieldSize f.type) f.size
  bytes : x.length = f.size

/-- The state where the buffer is set. -/
def resized (st : Structure) (i : Nat) (f : Field) (size : Nat) (buffer : VirtualBuffer) : Structure :=
  ⟨st.description, st.startOffset, adjustOffsetsBy f.offset (size - f.size) (st.fields.set i { f with size }), buffer⟩

section
variable {st : Structure}

theorem Cut.number_length (h : st.Cut m f a n x b) : n.length = typeFieldSize f.type := by
  rw [h.number, littleEndian_length]

theorem Cut.total (h : st.Cut m f a n x b) : f.offset + typeFieldSize f.type + f.size + b.length = st.buffer.totalSize := by
  have hlength := (length_content h.sound.buffers).trans h.sound.totalSize.symm (a := (Data.content m st.buffer.buffers).length)
  rw [h.content] at hlength
  simp only [List.length_append, h.front, h.number_length, h.bytes] at hlength
  exact hlength

/-- A shorter buffer. -/
theorem setBufferOf_shorter (h : st.Cut m f a n x b) (hfits : value.length < 256 ^ typeFieldSize f.type) (hpos : 0 < typeFieldSize f.type)
    (hlt : value.length < f.size) : ∃ buffer m', setBufferOf i f value (st, m) = (.ok (), st.resized i f value.length buffer, m') ∧
      buffer.Sound ∧ Data.content m' buffer.buffers = a ++ littleEndian (typeFieldSize f.type) value.length ++ value ++ b := by
  have hn := h.number_length
  have hfront := h.front
  have hbytes := h.bytes
  have htotal := h.total
  have hnumber : (littleEndian (typeFieldSize f.type) value.length).length = typeFieldSize f.type := littleEndian_length _ _
  obtain ⟨v₁, k, herase, hsound₁, hflat₁, hcontent₁⟩ := h.flat.perase h.sound (f.size - value.length)
    (f.offset + typeFieldSize f.type + value.length) (by omega) (by omega) (by omega) m
  have hkept : Data.content m v₁.buffers = a ++ n ++ x.take value.length ++ b := by
    have hcut : (a ++ n ++ x.take value.length).length = f.offset + typeFieldSize f.type + value.length := by
      rw [List.length_append, List.length_append, List.length_take]
      omega
    have hback : f.offset + typeFieldSize f.type + value.length + (f.size - value.length) = (a ++ n ++ x).length := by
      rw [List.length_append, List.length_append]
      omega
    have hsplit : a ++ n ++ x ++ b = a ++ n ++ x.take value.length ++ (x.drop value.length ++ b) := by
      conv_lhs => rw [← List.take_append_drop value.length x]
      simp only [List.append_assoc]
    rw [hcontent₁, hback, h.content, List.drop_left, hsplit, List.take_left' hcut]
  obtain ⟨v₂, m₂, v₃, m₃, hwrite, hwrite', hsound₃, -, hafter⟩ := writes_fit value hsound₁ hflat₁.own hkept
    (hn.trans hnumber.symm) (by rw [List.length_take]; omega)
  rw [hfront] at hwrite
  rw [hfront, hnumber] at hwrite'
  refine ⟨v₃, m₃, ?_, hsound₃, hafter⟩
  unfold setBufferOf
  rw [if_neg (Nat.not_le.mpr hfits), if_pos hlt, Update.bind_ok (Update.buffer_ok (by rw [herase]; rfl)),
    Update.bind_ok (Update.buffer_ok hwrite), Update.bind_ok (Update.buffer_ok hwrite')]
  rfl

/-- A longer buffer. -/
theorem setBufferOf_longer (h : st.Cut m f a n x b) (hfits : value.length < 256 ^ typeFieldSize f.type) (hgt : f.size < value.length) :
    ∃ buffer m', setBufferOf i f value (st, m) = (.ok (), st.resized i f value.length buffer, m') ∧ buffer.Sound ∧
      Data.content m' buffer.buffers = a ++ littleEndian (typeFieldSize f.type) value.length ++ value ++ b := by
  have hfront := h.front
  have htotal := h.total
  have hnumber : (littleEndian (typeFieldSize f.type) value.length).length = typeFieldSize f.type := littleEndian_length _ _
  have htake : (value.take f.size).length = f.size := by rw [List.length_take, Nat.min_eq_left (Nat.le_of_lt hgt)]
  obtain ⟨v₁, m₁, v₂, m₂, hwrite, hwrite', hsound₂, halike, hcontent₂⟩ := writes_fit (value.take f.size) h.sound h.flat.own
    h.content (h.number_length.trans hnumber.symm) (h.bytes.trans htake.symm)
  rw [hfront] at hwrite
  rw [hfront, hnumber] at hwrite'
  have hown : ∀ h, holder v₂.buffers (f.offset + typeFieldSize f.type + f.size) = some h → h.1.block = none := fun c hc => by
    obtain ⟨d, hd, hsame⟩ := holder_alike halike hc
    rw [hsame.block]
    exact h.flat.own _ (holder_mem hd)
  have hcut : f.offset + typeFieldSize f.type + f.size = (a ++ littleEndian (typeFieldSize f.type) value.length ++ value.take f.size).length := by
    rw [List.length_append, List.length_append, hfront, hnumber, htake]
  have hwhere : f.offset + typeFieldSize f.type + f.size ≤ v₂.totalSize := by
    rw [hsound₂.totalSize, ← length_content hsound₂.buffers (m := m₂), hcontent₂, List.length_append, ← hcut]
    exact Nat.le_add_right _ _
  obtain ⟨v₃, m₃, hinsert, hsound₃, hcontent₃⟩ := v₂.pinsert_at (s := value.drop f.size) hsound₂ hwhere (.inr hown) m₂
  refine ⟨v₃, m₃, ?_, hsound₃, ?_⟩
  · unfold setBufferOf
    rw [if_neg (Nat.not_le.mpr hfits), if_neg (Nat.not_lt.mpr (Nat.le_of_lt hgt)), if_pos hgt, Update.bind_ok (Update.buffer_ok hwrite),
      Update.bind_ok (Update.buffer_ok hwrite'), Update.bind_ok (Update.buffer_ok hinsert)]
    rfl
  · rw [hcontent₃, hcontent₂, hcut, List.take_left, List.drop_left, List.append_assoc _ (value.take f.size), List.take_append_drop]

/-- A buffer of the same size. -/
theorem setBufferOf_same (h : st.Cut m f a n x b) (hfits : value.length < 256 ^ typeFieldSize f.type) (heq : value.length = f.size) :
    ∃ buffer m', setBufferOf i f value (st, m) = (.ok (), { st with buffer }, m') ∧ buffer.Sound ∧
      Data.content m' buffer.buffers = a ++ littleEndian (typeFieldSize f.type) value.length ++ value ++ b := by
  have htotal := h.total
  have hin : f.offset + typeFieldSize f.type + value.length ≤ st.buffer.totalSize := by omega
  obtain ⟨v₁, m₁, hwrite, hsound, -, -, hafter⟩ := st.buffer.pwrite_within h.sound hin (VirtualBuffer.writable_own h.flat.own) m
  refine ⟨v₁, m₁, ?_, hsound, ?_⟩
  · unfold setBufferOf
    rw [if_neg (Nat.not_le.mpr hfits), if_neg (by omega), if_neg (by omega), Update.buffer_ok hwrite]
  · have hcut : f.offset + typeFieldSize f.type = (a ++ n).length := by rw [List.length_append, h.front, h.number_length]
    rw [hafter, h.content, hcut, memcpy_middle (h.bytes.trans heq.symm), heq, ← h.number]

end

/-! ### The fields -/

theorem isBuffer_counted {t : StructType} (h : isBuffer t = true) : Counted t := by
  cases t <;> first | exact absurd h (by decide) | exact ⟨rfl, by decide, by decide⟩

/-- The fields behind move as the bytes do. -/
theorem map_resized {back : List Field} {size w o y e : Nat} (hy : y = o + w + f.size) (hback : Bounded y e back) :
    (back.map fun g => { g with offset := (g.offset + ((size : Int) - f.size)).toNat }) = back.map (Field.move y (o + w + size)) := by
  refine List.map_congr_left fun g hg => ?_
  have hle := (hback.fields g hg).1
  have hoffset : (g.offset + ((size : Int) - f.size)).toNat = o + w + size + (g.offset - y) := by omega
  rw [Field.move, hoffset]

theorem getBuffer_eq {st : Structure} (hs : isBuffer f.type = true) (hf : getField st.fields home name = .ok (i, f))
    (hlt : f.size < 256 ^ typeFieldSize f.type)
    (hnumber : st.buffer.pread m (typeFieldSize f.type) f.offset true = some (littleEndian (typeFieldSize f.type) f.size))
    (hvalue : st.buffer.pread m f.size (f.offset + typeFieldSize f.type) true = some value) : st.getBuffer m home name = .ok value := by
  have hsize : ofLittleEndian (littleEndian (typeFieldSize f.type) f.size) = f.size := by
    rw [ofLittleEndian_littleEndian]
    exact Nat.mod_eq_of_lt hlt
  unfold getBuffer
  simp only [hf, hs, hnumber, hvalue, need, hsize, bind, Except.bind]
  rw [if_neg (by simp), if_neg (not_not.mpr rfl)]

/-- A buffer that fits is set and the rest stays; what does not fit leaves everything as it is. -/
theorem setBuffer_frames {st : Structure} (hp : st.Parsed m) (hflat : st.buffer.Flat) (hf : getField st.fields home name = .ok (i, f))
    (hs : isBuffer f.type = true) (value : Bytes) :
    (value.length < 256 ^ typeFieldSize f.type → st.SetsBuffer m home name value i) ∧
      (256 ^ typeFieldSize f.type ≤ value.length → setBuffer home name value (st, m) = (.error .outOfRange, st, m)) := by
  have hset : setBuffer home name value (st, m) = setBufferOf i f value (st, m) := by
    simp only [setBuffer, hf, hs, Bool.not_true, Bool.false_eq_true, if_false]
  refine ⟨fun hfits => ?_, fun hlarge => ?_⟩
  · have hcounted := isBuffer_counted hs
    have hpos := hcounted.pos
    obtain ⟨e, front, back, y, haround, hlength, hstring, hend⟩ := hp.around hf hcounted
    obtain ⟨hn, ha, hold⟩ := hstring.lengths
    have hy := hstring.next
    have hcut : st.Cut m f _ _ _ _ := ⟨hp.sound, hflat, split_bytes, ha, hstring.number, hold⟩
    rw [← hy] at hcut
    have hfields : st.fields.set i { f with size := value.length } = front ++ { f with size := value.length } :: back := by
      rw [haround.eq, ← hlength, List.append_assoc]
      simp
    have hresized : ∀ buffer, st.resized i f value.length buffer = ⟨st.description, st.startOffset,
        front ++ { f with size := value.length } :: back.map (Field.move y (f.offset + typeFieldSize f.type + value.length)), buffer⟩ := by
      intro buffer
      rw [resized, hfields, adjustOffsetsBy, map_behind (g := { f with size := value.length }) _ haround.before rfl (by omega)
        haround.behind, map_resized hy haround.behind]
    obtain ⟨buffer, m', hrun, hsound, hcontent⟩ : ∃ buffer m', setBufferOf i f value (st, m) =
        (.ok (), st.resized i f value.length buffer, m') ∧ buffer.Sound ∧ Data.content m' buffer.buffers =
          (Data.content m st.buffer.buffers).take f.offset ++ littleEndian (typeFieldSize f.type) value.length ++ value ++
            (Data.content m st.buffer.buffers).drop y := by
      rcases Nat.lt_trichotomy value.length f.size with hlt | heq | hgt
      · exact setBufferOf_shorter hcut hfits hpos hlt
      · obtain ⟨buffer, m', hrun, hsound, hcontent⟩ := setBufferOf_same (i := i) hcut hfits heq
        have hsame : st.resized i f value.length buffer = { st with buffer } := by
          rw [hresized, heq, ← hy, map_move_self haround.behind, haround.eq, List.append_assoc]
          rfl
        exact ⟨buffer, m', hsame ▸ hrun, hsound, hcontent⟩
      · exact setBufferOf_longer hcut hfits hgt
    rw [hresized] at hrun
    obtain ⟨hfound, hnumber, hvalue, hothers, hparsed⟩ :=
      replaced_frame hp hf hcounted hfits haround hlength hstring hend hsound hcontent rfl
    exact ⟨_, m', hset.trans hrun, getBuffer_eq (f := { f with size := value.length }) hs hfound hfits hnumber hvalue, hothers, rfl, rfl,
      hparsed⟩
  · rw [hset, setBufferOf, if_pos hlarge]
    rfl

/-- A buffer of one byte and a number behind it. -/
def single : Structure where
  description := .field [0x61] .buffer8 .null (.field [0x62] .uint8 .null .typeEnd)
  fields := [made [0x61] .buffer8 .null (.field [0x62] .uint8 .null .typeEnd) [] 1 0, made [0x62] .uint8 .null .typeEnd [] 1 2]
  buffer := { buffers := [{ data := [1, 65, 7], capacity := 3, size := 3 }], totalSize := 3 }

/-- The byte goes, and the number moves. -/
theorem setBuffer_frames_empty : single.SetsBuffer (fun _ => 0) [] [0x61] [] 0 :=
  (setBuffer_frames (f := made [0x61] .buffer8 .null (.field [0x62] .uint8 .null .typeEnd) [] 1 0)
    (show single.Parsed fun _ => 0 from ⟨⟨fun b hb => by rw [List.mem_singleton.mp hb]; exact fun _ => Nat.le_refl _, rfl⟩, nofun, 3, rfl⟩)
    ⟨_, rfl, rfl⟩ (show getField single.fields [] [0x61] = .ok (0, _) from rfl) rfl []).1 (by decide)

end Structure

end

end Snapwebsites.Snapdatabase.Data
