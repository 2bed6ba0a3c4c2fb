import Snapwebsites.Snapdatabase.BufferRange
import Snapwebsites.Snapdatabase.Parse

/-! # Setting a string

`set_string()` writes the size and the string and moves what is behind. A string that gets longer moves the fields behind it by the
difference of the sizes, but the difference of a string that gets shorter is one of 32 bits without a sign: the fields behind it move
the wrong way. -/

namespace Snapwebsites.Snapdatabase.Data

open Loadavg (littleEndian ofLittleEndian littleEndian_length ofLittleEndian_littleEndian littleEndian_ofLittleEndian ofLittleEndian_lt)

/-! ### What is shown -/

/-- What the operations of the buffer need where a string of `length` bytes at `offset` gets `size` bytes. -/
structure Replaceable (v : VirtualBuffer) (fieldSize offset length size : Nat) : Prop where
  number : size ≠ length → v.Writable offset fieldSize
  string : v.Writable (offset + fieldSize) (min length size)
  inserted : length < size → ∀ h, holder v.buffers (offset + fieldSize + length) = some h → h.1.block = none
  erased : size < length → Inside v.buffers (length - size) (offset + fieldSize + size) ∧
    Alone true v.buffers (length - size) (offset + fieldSize + size)

namespace Structure

/-- The fields are the ones that are found in the bytes of the buffer. -/
structure Parsed (s : Structure) (m : Memory) : Prop where
  sound : s.buffer.Sound
  there : s.buffer.buffers ≠ []
  fields : ∃ e, parseDescriptions (s.buffer.access m) s.description [] s.startOffset = .ok (s.fields, e)

/-- A field but for its place, and its bytes. -/
def value (s : Structure) (m : Memory) (f : Field) : Field × Option Bytes :=
  ({ f with offset := 0 }, s.buffer.pread m f.width f.offset true)

/-- `set_string()` sets the field with the index `i`, keeps the values of the other ones, and leaves what would be parsed. -/
def SetsString (s : Structure) (m : Memory) (home : Home) (name string : Bytes) (i : Nat) : Prop :=
  ∃ s' m', s.setString m home name string = .ok (s', m') ∧ s'.getString m' home name = .ok string ∧
    (∀ j, j ≠ i → (s'.fields[j]?).map (s'.value m') = (s.fields[j]?).map (s.value m)) ∧
    s'.description = s.description ∧ s'.startOffset = s.startOffset ∧ s'.Parsed m'

end Structure

/-! ### Numbers -/

/-- A type with a number of bytes in front, on one to four bytes. -/
structure Counted (t : StructType) : Prop where
  shape : shape t = .counted (typeFieldSize t)
  pos : 0 < typeFieldSize t
  le : typeFieldSize t ≤ 4

theorem isString_counted {t : StructType} (h : isString t = true) : Counted t := by
  cases t <;> first | exact absurd h (by decide) | exact ⟨rfl, by decide, by decide⟩

/-! ### The bytes -/

section Bytes
variable {v : VirtualBuffer} {a b x y s : Bytes} {fieldSize offset length : Nat}

/-- The two writes in front of an insertion or an erasure. -/
theorem writes_front {m : Memory} {n number : Bytes} (h : v.Sound) (hnumber : v.Writable a.length number.length)
    (hstring : v.Writable (a.length + number.length) y.length) (hcontent : content m v.buffers = a ++ n ++ x ++ b)
    (hn : n.length = number.length) (hy : y.length ≤ x.length) :
    ∃ v₁ m₁ v₂ m₂, v.pwrite m number a.length false = some (v₁, m₁) ∧
      v₁.pwrite m₁ y (a.length + number.length) false = some (v₂, m₂) ∧ v₂.Sound ∧ List.Forall₂ Vbuf.Alike v.buffers v₂.buffers ∧
      content m₂ v₂.buffers = a ++ number ++ y ++ x.drop y.length ++ b := by
  have hlength : (content m v.buffers).length = v.totalSize := (length_content h.buffers).trans h.totalSize.symm
  rw [hcontent] at hlength
  simp only [List.length_append] at hlength
  obtain ⟨v₁, m₁, hwrite, hsound, htotal, halike, hafter⟩ := v.pwrite_within h (by omega) hnumber m
  obtain ⟨v₂, m₂, hwrite', hsound', -, halike', hafter'⟩ := v₁.pwrite_within hsound (by omega) (hstring.alike halike) m₁
  refine ⟨v₁, m₁, v₂, m₂, hwrite, hwrite', hsound', alike_trans halike halike', ?_⟩
  have hsplit : x = x.take y.length ++ x.drop y.length := (List.take_append_drop ..).symm
  have htake : (x.take y.length).length = y.length := by rw [List.length_take, Nat.min_eq_left hy]
  rw [hafter', hafter, hcontent, List.append_assoc (a ++ n), memcpy_middle hn, ← List.length_append]
  conv_lhs => rw [hsplit]
  rw [List.append_assoc (x.take y.length), ← List.append_assoc (a ++ number), memcpy_middle htake]
  simp only [List.append_assoc]

/-- The bytes of a string and of the number in front of it are replaced. -/
theorem replaceString_eq {m : Memory} {n : Bytes} (h : v.Sound) (hr : Replaceable v n.length a.length x.length s.length)
    (hcontent : content m v.buffers = a ++ n ++ x ++ b) (hn : n = littleEndian n.length x.length) :
    ∃ v' m', Structure.replaceString v m s x.length n.length a.length = some (v', m') ∧ v'.Sound ∧
      content m' v'.buffers = a ++ littleEndian n.length s.length ++ s ++ b := by
  have hlength : (content m v.buffers).length = v.totalSize := (length_content h.buffers).trans h.totalSize.symm
  have hnumber : (littleEndian n.length s.length).length = n.length := littleEndian_length _ _
  rw [hcontent] at hlength
  simp only [List.length_append] at hlength
  have hafter_length : ∀ {w : VirtualBuffer} {m' : Memory} {c : Bytes}, w.Sound → content m' w.buffers = c → c.length = w.totalSize :=
    fun hw hc => (congrArg List.length hc.symm).trans ((length_content hw.buffers).trans hw.totalSize.symm)
  rcases Nat.lt_trichotomy s.length x.length with hlt | heq | hgt
  · have hstring := hr.string
    rw [Nat.min_eq_right (Nat.le_of_lt hlt), ← hnumber] at hstring
    obtain ⟨v₁, m₁, v₂, m₂, hwrite, hwrite', hsound, halike, hafter⟩ :=
      writes_front h (by rw [hnumber]; exact hr.number (Nat.ne_of_lt hlt)) hstring hcontent hnumber.symm (Nat.le_of_lt hlt)
    have htotal := hafter_length hsound hafter
    simp only [List.length_append, List.length_drop, hnumber] at htotal
    obtain ⟨hinside, halone⟩ := hr.erased hlt
    obtain ⟨v₃, k, herase, hsound', hafter'⟩ := v₂.perase_at hsound (by omega) (by omega) (hinside.alike halike) (halone.alike halike) m₂
    refine ⟨v₃, m₂, ?_, hsound', ?_⟩
    · rw [hnumber] at hwrite'
      simp only [Structure.replaceString, if_neg (Nat.ne_of_lt hlt), if_neg (Nat.not_lt.mpr (Nat.le_of_lt hlt)), hwrite, hwrite', herase,
        Option.bind_eq_bind, Option.bind_some]
    · have hfront : a.length + n.length + s.length = (a ++ littleEndian n.length s.length ++ s).length := by
        simp only [List.length_append, hnumber]
      rw [hafter', hafter, List.append_assoc _ (x.drop s.length) b, hfront, List.take_left, List.drop_append,
        List.drop_of_length_le (Nat.le_add_right ..), List.nil_append, Nat.add_sub_cancel_left, List.drop_left' List.length_drop]
  · have hstring := hr.string
    rw [heq, Nat.min_self, ← heq] at hstring
    obtain ⟨v₁, m₁, hwrite, hsound, -, -, hafter⟩ := v.pwrite_within h (by omega) hstring m
    refine ⟨v₁, m₁, ?_, hsound, ?_⟩
    · simp only [Structure.replaceString, if_pos heq, hwrite]
    · rw [hafter, hcontent, ← List.length_append, memcpy_middle heq.symm, heq, ← hn]
  · have hstring := hr.string
    have htake : (s.take x.length).length = x.length := by rw [List.length_take, Nat.min_eq_left (Nat.le_of_lt hgt)]
    rw [Nat.min_eq_left (Nat.le_of_lt hgt), ← hnumber, ← htake] at hstring
    obtain ⟨v₁, m₁, v₂, m₂, hwrite, hwrite', hsound, halike, hafter⟩ :=
      writes_front h (by rw [hnumber]; exact hr.number (Nat.ne_of_gt hgt)) hstring hcontent hnumber.symm (Nat.le_of_eq htake)
    rw [htake, List.drop_length, List.append_nil] at hafter
    have htotal := hafter_length hsound hafter
    simp only [List.length_append, htake, hnumber] at htotal
    have hown : ∀ h, holder v₂.buffers (a.length + n.length + x.length) = some h → h.1.block = none := fun b hb => by
      obtain ⟨c, hc, hsame⟩ := holder_alike halike hb
      rw [hsame.block]
      exact hr.inserted hgt _ hc
    obtain ⟨v₃, m₃, hinsert, hsound', hafter'⟩ := v₂.pinsert_at (s := s.drop x.length) hsound (by omega) (.inr hown) m₂
    refine ⟨v₃, m₃, ?_, hsound', ?_⟩
    · rw [hnumber] at hwrite'
      simp only [Structure.replaceString, if_neg (Nat.ne_of_gt hgt), if_pos hgt, hwrite, hwrite', hinsert, Option.bind_eq_bind,
        Option.bind_some]
    · have hfront : a.length + n.length + x.length = (a ++ littleEndian n.length s.length ++ s.take x.length).length := by
        simp only [List.length_append, hnumber, htake]
      rw [hafter', hafter, hfront, List.take_left, List.drop_left, List.append_assoc _ (s.take x.length), List.take_append_drop]

end Bytes

/-! ### The field -/

section Field
variable {c : Bytes} {d : Description} {home : Home} {f : Field} {items : List Field} {w o x n : Nat}

theorem readSize_ok (hw : 0 < w) : readSize (some (.ofBytes c)) w o = .ok n ↔ o + w ≤ c.length ∧ n = ofLittleEndian ((c.drop o).take w) := by
  unfold readSize Access.ofBytes
  dsimp only
  rw [if_neg (by omega)]
  split
  · rename_i b hb
    split at hb
    · rename_i hle
      obtain rfl := Option.some.inj hb
      rw [Except.ok.injEq]
      exact ⟨fun h => ⟨hle, h.symm⟩, fun h => h.2.symm⟩
    · cases hb
  · rename_i hb
    split at hb
    · cases hb
    · rename_i hle
      exact ⟨nofun, fun h => absurd h.1 hle⟩

/-- A string in the bytes: a number and as many bytes. -/
structure StringAt (c : Bytes) (f : Field) (items : List Field) (x : Nat) : Prop where
  items : items = []
  next : x = f.offset + typeFieldSize f.type + f.size
  le : x ≤ c.length
  number : (c.drop f.offset).take (typeFieldSize f.type) = littleEndian (typeFieldSize f.type) f.size
  small : f.size < 256 ^ typeFieldSize f.type
  leaf : hasSubDefs f.type = false ∧ f.description.sub = .null

theorem parseOne_string (h : parseOne c d home o = .ok (f, items, x)) (hs : Counted f.type) : f.offset = o ∧ StringAt c f items x := by
  cases d with
  | null => cases h
  | typeEnd => cases h
  | field name type sub rest =>
    obtain ⟨size, next, hheader, hin, rfl, hiff, hitems⟩ := parseField_ok.mp h
    obtain ⟨hshape, hpos, -⟩ := (show Counted type from hs)
    have hleaf : hasSubDefs type = false := by rw [hasSubDefs, hshape]
    have hnull : sub = .null := not_not.mp fun hne => by rw [hleaf] at hiff; cases hiff.mp hne
    rw [fieldHeader, hshape] at hheader
    obtain ⟨n, hn, heq⟩ := map_eq_ok.mp hheader
    obtain ⟨rfl, rfl⟩ := Prod.mk.inj heq
    obtain ⟨hle, hsize⟩ := (readSize_ok hpos).mp hn
    obtain ⟨b, hb⟩ : ∃ b, (c.drop o).take (typeFieldSize type) = b := ⟨_, rfl⟩
    have hbytes : b.length = typeFieldSize type := by
      rw [← hb, List.length_take, List.length_drop]
      omega
    rw [hb] at hsize
    rw [made, if_pos hnull] at hitems
    obtain ⟨rfl, rfl⟩ := parseItems_zero.mp hitems
    refine ⟨rfl, rfl, by dsimp only [made]; omega, hin _ rfl, ?_, ?_, hleaf, hnull⟩
    · show (c.drop o).take (typeFieldSize type) = littleEndian (typeFieldSize type) n
      rw [hb, hsize, ← hbytes, littleEndian_ofLittleEndian]
    · show n < 256 ^ typeFieldSize type
      rw [hsize, ← hbytes]
      exact ofLittleEndian_lt b

theorem StringAt.lengths (h : StringAt c f items x) : ((c.drop f.offset).take (typeFieldSize f.type)).length = typeFieldSize f.type ∧
    (c.take f.offset).length = f.offset ∧ ((c.drop (f.offset + typeFieldSize f.type)).take f.size).length = f.size := by
  have hx := h.next
  have hle := h.le
  rw [List.length_take, List.length_drop, List.length_take, List.length_take, List.length_drop]
  omega

/-- Where there is another number, there is another string. -/
theorem parseOne_resized {c' : Bytes} (h : parseOne c d home o = .ok (f, items, x)) (hs : Counted f.type)
    (hn : n < 256 ^ typeFieldSize f.type) (hle : o + typeFieldSize f.type + n ≤ c'.length)
    (hnumber : (c'.drop o).take (typeFieldSize f.type) = littleEndian (typeFieldSize f.type) n) :
    parseOne c' d home o = .ok ({ f with size := n }, [], o + typeFieldSize f.type + n) := by
  obtain ⟨-, hstring⟩ := parseOne_string h hs
  cases d with
  | null => cases h
  | typeEnd => cases h
  | field name type sub rest =>
    obtain ⟨size, next, hheader, hin, rfl, hiff, hitems⟩ := parseField_ok.mp h
    obtain ⟨hshape, hpos, -⟩ := (show Counted type from hs)
    have hnull : sub = .null := hstring.leaf.2
    refine parseField_ok.mpr ⟨n, o + n + typeFieldSize type, ?_, fun b hb => ?_, ?_, hiff, ?_⟩
    · have hread : readSize (some (.ofBytes c')) (typeFieldSize type) o = .ok n := by
        refine (readSize_ok hpos).mpr ⟨?_, ?_⟩
        · exact (Nat.le_add_right ..).trans hle
        · rw [show (c'.drop o).take (typeFieldSize type) = _ from hnumber, ofLittleEndian_littleEndian]
          exact (Nat.mod_eq_of_lt hn).symm
      rw [fieldHeader, hshape]
      dsimp only
      rw [hread]
      rfl
    · obtain rfl := Option.some.inj hb
      show o + n + typeFieldSize type ≤ c'.length
      dsimp only [made] at hle
      omega
    · simp only [made, if_pos hnull]
    · simp only [made, if_pos hnull]
      exact parseItems_zero.mpr ⟨rfl, by omega⟩

end Field

/-! ### Finding fields -/

/-- What `get_field()` looks at. -/
def Field.key (f : Field) : Home × Bytes × StructType × Nat := (f.home, f.name, f.type, f.items)

section Find
variable {l l' : List Field} {home : Home} {name : Bytes} {names : List Bytes} {f : Field} {i : Nat}

theorem findField_ok : findField l home name = .ok (i, f) ↔
    (l.findIdx? fun f => f.home = home && f.name = name) = some i ∧ l[i]? = some f := by
  unfold findField
  split
  · rename_i k hk
    rw [hk, Option.some.injEq]
    constructor
    · intro h
      cases hget : l[k]? with
      | none =>
        rw [hget] at h
        cases h
      | some g =>
        rw [hget] at h
        obtain ⟨rfl, rfl⟩ := Prod.mk.inj (Except.ok.inj h)
        exact ⟨rfl, hget⟩
    · rintro ⟨rfl, hget⟩
      rw [hget]
      rfl
  · rename_i hnone
    rw [hnone]
    exact iff_of_false nofun nofun

theorem findField_key (hl : l'.map Field.key = l.map Field.key) (h : findField l home name = .ok (i, f)) :
    ∃ g, findField l' home name = .ok (i, g) ∧ l'[i]? = some g ∧ g.key = f.key := by
  obtain ⟨hindex, hget⟩ := findField_ok.mp h
  have hkeys : ∀ r : List Field, (r.findIdx? fun f => f.home = home && f.name = name) =
      (r.map Field.key).findIdx? fun k => k.1 = home && k.2.1 = name := fun r => by rw [List.findIdx?_map]; rfl
  rw [hkeys, ← hl, ← hkeys] at hindex
  have hmap := congrArg (·[i]?) hl
  simp only [List.getElem?_map, hget] at hmap
  obtain ⟨g, hg, hkey⟩ := Option.map_eq_some_iff.mp hmap
  exact ⟨g, findField_ok.mpr ⟨hindex, hg⟩, hg, hkey⟩

theorem getFieldFrom_key (hl : l'.map Field.key = l.map Field.key) (h : getFieldFrom l home names = .ok (i, f)) :
    ∃ g, getFieldFrom l' home names = .ok (i, g) ∧ l'[i]? = some g := by
  induction names generalizing home with
  | nil => cases h
  | cons name names ih =>
    cases names with
    | nil =>
      obtain ⟨g, hg, hget, -⟩ := findField_key hl h
      exact ⟨g, hg, hget⟩
    | cons next names =>
      simp only [getFieldFrom] at h ⊢
      cases hfind : findField l home name with
      | error => rw [hfind] at h; cases h
      | ok r =>
        obtain ⟨k, p⟩ := r
        obtain ⟨g, hg, -, hkey⟩ := findField_key hl hfind
        obtain ⟨-, hkey⟩ := Prod.mk.inj hkey
        obtain ⟨-, hkey⟩ := Prod.mk.inj hkey
        obtain ⟨htype, hitems⟩ := Prod.mk.inj hkey
        rw [hfind] at h
        rw [hg]
        dsimp only at h ⊢
        rw [htype, hitems]
        split at h
        · cases h
        · rename_i hstructure
          split at h
          · cases h
          · rename_i hone
            rw [if_neg hstructure, if_neg hone]
            exact ih h

theorem getField_key (hl : l'.map Field.key = l.map Field.key) (h : getField l home name = .ok (i, f)) :
    ∃ g, getField l' home name = .ok (i, g) ∧ l'[i]? = some g := by
  unfold getField at h ⊢
  split at h
  · cases h
  · rename_i hname
    rw [if_neg hname]
    exact getFieldFrom_key hl h

theorem getField_get (h : getField l home name = .ok (i, f)) : l[i]? = some f := by
  obtain ⟨g, hg, hget⟩ := getField_key rfl h
  rw [h] at hg
  rw [(Prod.mk.inj (Except.ok.inj hg)).2]
  exact hget

end Find

/-! ### The result -/

theorem getElem?_except {α β : Type} {p q : α → β} {front front' back back' : List α} {a a' : α} {j : Nat}
    (hfront : front'.map p = front.map q) (hback : back'.map p = back.map q) (hj : j ≠ front.length) :
    ((front' ++ a' :: back')[j]?).map p = ((front ++ a :: back)[j]?).map q := by
  have hlength : front'.length = front.length := by simpa using congrArg List.length hfront
  rw [← List.getElem?_map, ← List.getElem?_map, List.map_append, List.map_append, List.map_cons, List.map_cons, hfront, hback]
  rcases Nat.lt_or_gt_of_ne hj with hlt | hgt
  · rw [List.getElem?_append_left (by simpa using hlt), List.getElem?_append_left (by simpa using hlt)]
  · obtain ⟨k, rfl⟩ := Nat.exists_eq_add_of_lt hgt
    have hk : front.length + k + 1 - (front.map q).length = k + 1 := by rw [List.length_map]; omega
    rw [List.getElem?_append_right (by rw [List.length_map]; omega), List.getElem?_append_right (by rw [List.length_map]; omega), hk]
    rfl

theorem split_bytes {c : Bytes} {o w n : Nat} : c = c.take o ++ (c.drop o).take w ++ (c.drop (o + w)).take n ++ c.drop (o + w + n) := by
  have hback := List.take_append_drop n (c.drop (o + w))
  have hmiddle := List.take_append_drop w (c.drop o)
  rw [List.drop_drop] at hback hmiddle
  rw [List.append_assoc, hback, List.append_assoc, hmiddle, List.take_append_drop]

namespace Structure
variable {s s' : Structure} {m m' : Memory} {home : Home} {name string : Bytes} {i : Nat} {f : Field}

/-- The difference of the sizes, as it is computed. -/
def sizeDiff (size length : Nat) : Nat := (size + 0x100000000 - length) % 0x100000000

/-- What the fields behind a place are made of keeps their values where the bytes move with them. -/
theorem map_value (t : Structure) {l : List Field} {o o' n : Nat} (h : s.buffer.Sound) (h' : t.buffer.Sound) (hb : Bounded o (o + n) l)
    (hs : SameBytes (content m s.buffer.buffers) (content m' t.buffer.buffers) o o' n) :
    (l.map (Field.move o o')).map (t.value m') = l.map (s.value m) := by
  rw [List.map_map]
  refine List.map_congr_left fun g hg => ?_
  obtain ⟨hle, hin⟩ := hb.fields g hg
  have hsub := hs.sub (k := g.offset - o) (w := g.width) (by omega)
  rw [Nat.add_sub_cancel' hle] at hsub
  show (_, t.buffer.pread m' g.width (o' + (g.offset - o)) true) = (_, s.buffer.pread m g.width g.offset true)
  rw [VirtualBuffer.pread_slice h', VirtualBuffer.pread_slice h, hsub.pread (Nat.le_refl _)]
  rfl

/-- Where a field with a number of bytes in front is. -/
theorem Parsed.around (hp : s.Parsed m) (hf : getField s.fields home name = .ok (i, f)) (hs : Counted f.type) :
    ∃ e front back x, Around (fun c => parseDescriptions (some (.ofBytes c)) s.description [] s.startOffset)
        (content m s.buffer.buffers) s.startOffset e s.fields f front [] back x ∧ front.length = i ∧
      StringAt (content m s.buffer.buffers) f [] x ∧ e ≤ (content m s.buffer.buffers).length := by
  obtain ⟨e, hparse⟩ := hp.fields
  rw [VirtualBuffer.access_eq hp.sound hp.there] at hparse
  obtain ⟨front, items, back, x, haround, hlength⟩ := parse_around hparse (getField_get hf)
  obtain ⟨-, hstring⟩ := parseOne_string haround.one hs
  obtain rfl := hstring.items
  have hx := hstring.next
  have hle := hstring.le
  exact ⟨e, front, back, x, haround, hlength, hstring, parse_le hparse (haround.before.le.trans (by omega))⟩

/-- What `set_string()` does where the buffer can be changed. -/
theorem setString_eq (hp : s.Parsed m) (hf : getField s.fields home name = .ok (i, f)) (hs : isString f.type = true)
    (hlt : string.length < 256 ^ typeFieldSize f.type)
    (hr : Replaceable s.buffer (typeFieldSize f.type) f.offset f.size string.length) :
    ∃ e front back x buffer m', Around (fun c => parseDescriptions (some (.ofBytes c)) s.description [] s.startOffset)
        (content m s.buffer.buffers) s.startOffset e s.fields f front [] back x ∧ front.length = i ∧ StringAt (content m s.buffer.buffers) f [] x ∧
      e ≤ (content m s.buffer.buffers).length ∧ s.setString m home name string = .ok (⟨s.description, s.startOffset, adjustOffsets f.offset (sizeDiff string.length f.size)
        (front ++ { f with size := string.length } :: back), buffer⟩, m') ∧ buffer.Sound ∧ content m' buffer.buffers =
          (content m s.buffer.buffers).take f.offset ++ littleEndian (typeFieldSize f.type) string.length ++ string ++
            (content m s.buffer.buffers).drop x := by
  obtain ⟨e, front, back, x, haround, hlength, hstring, hend⟩ := hp.around hf (isString_counted hs)
  obtain ⟨c, hc⟩ : ∃ c, content m s.buffer.buffers = c := ⟨_, rfl⟩
  have hx := hstring.next
  have hle := hstring.le
  rw [hc] at haround hstring hle hend ⊢
  obtain ⟨hn, ha, hold⟩ := hstring.lengths
  have hsplit : content m s.buffer.buffers = _ := hc.trans (split_bytes (o := f.offset) (w := typeFieldSize f.type) (n := f.size))
  obtain ⟨buffer, m', hreplace, hsound, hcontent⟩ := replaceString_eq (s := string) hp.sound (by rw [hn, ha, hold]; exact hr) hsplit
    (by rw [hn, hold]; exact hstring.number)
  rw [hn, ha, hold] at hreplace
  rw [hn, ← hx] at hcontent
  refine ⟨e, front, back, x, buffer, m', haround, hlength, hstring, hend, ?_, hsound, hcontent⟩
  have hread : s.buffer.pread m (typeFieldSize f.type) f.offset true = some (littleEndian (typeFieldSize f.type) f.size) := by
    rw [VirtualBuffer.pread_slice hp.sound, hc, pread_ofBytes (by omega), hstring.number]
  have hset : s.fields.set i { f with size := string.length } = front ++ { f with size := string.length } :: back := by
    rw [haround.eq, ← hlength, List.append_assoc]
    simp
  have hnumber : ofLittleEndian (littleEndian (typeFieldSize f.type) f.size) = f.size := by
    rw [ofLittleEndian_littleEndian]
    exact Nat.mod_eq_of_lt hstring.small
  unfold setString
  simp only [hf, hs, hread, need, hnumber, hreplace, hset, bind, Except.bind, pure, Except.pure]
  rw [if_neg (by simp), if_neg (not_not.mpr rfl), if_neg (Nat.not_le.mpr hlt)]
  rfl

/-- What is done to the offsets behind a place is done to the fields behind the one that is there. -/
theorem map_behind {back front : List Field} {e x o cutoff : Nat} {g : Field} (change : Field → Field) (hfront : Bounded o cutoff front)
    (hg : g.offset = cutoff) (hx : cutoff < x) (hback : Bounded x e back) :
    (front ++ g :: back).map (fun f => if f.offset > cutoff then change f else f) = front ++ g :: back.map change := by
  rw [List.map_append, List.map_cons, if_neg (by omega)]
  congr 2
  · refine (List.map_congr_left fun f hf => ?_).trans (List.map_id front)
    rw [if_neg (by have := (hfront.fields f hf).2; omega)]
    rfl
  · refine List.map_congr_left fun f hf => ?_
    rw [if_pos (hx.trans_le (hback.fields f hf).1)]

theorem adjustOffsets_around {back front : List Field} {e x o cutoff : Nat} {g : Field} (diff : Nat) (hfront : Bounded o cutoff front)
    (hg : g.offset = cutoff) (hx : cutoff < x) (hback : Bounded x e back) :
    adjustOffsets cutoff diff (front ++ g :: back) = front ++ g :: back.map fun f => { f with offset := f.offset + diff } :=
  map_behind _ hfront hg hx hback

/-- The difference is the one of the sizes where the string does not get shorter. -/
theorem sizeDiff_of_le {size length : Nat} (h : length ≤ size) (hsize : size < 0x100000000) : sizeDiff size length = size - length := by
  unfold sizeDiff
  omega

theorem lt_sizeDiff {size length : Nat} (h : size < length) (hlength : length < 0x100000000) : size + 0x100000000 = sizeDiff size length + length := by
  unfold sizeDiff
  omega

/-- A field behind a string that gets shorter. -/
theorem sizeDiff_ne {size length w o x k : Nat} (h : size < length) (hlength : length < 0x100000000) (hx : x = o + w + length) (hk : x ≤ k) :
    k + sizeDiff size length ≠ o + w + size + (k - x) := by
  have hdiff := lt_sizeDiff h hlength
  generalize sizeDiff size length = diff at hdiff
  omega

/-- The fields behind move as the bytes do exactly where the string does not get shorter. -/
theorem map_sizeDiff {back : List Field} {size length w o x e : Nat} (hsize : size < 0x100000000) (hlength : length < 0x100000000)
    (hx : x = o + w + length) (hback : Bounded x e back) :
    (back.map fun g => { g with offset := g.offset + sizeDiff size length }) = back.map (Field.move x (o + w + size)) ↔
      length ≤ size ∨ back = [] := by
  constructor
  · intro h
    cases back with
    | nil => exact .inr rfl
    | cons g back =>
      refine .inl (Nat.not_lt.mp fun hlt => ?_)
      rw [List.map_cons, List.map_cons, List.cons.injEq, Field.move, Field.mk.injEq] at h
      have hoffset := h.1.2.2.2.2.2.1
      have hle := (hback.fields g List.mem_cons_self).1
      exact sizeDiff_ne hlt hlength hx hle hoffset
  · rintro (hle | rfl)
    · refine List.map_congr_left fun g hg => ?_
      have hxg := (hback.fields g hg).1
      have hoffset : g.offset + (size - length) = o + w + size + (g.offset - x) := by omega
      rw [Field.move, sizeDiff_of_le hle hsize, hoffset]
    · rw [List.map_nil, List.map_nil]

/-- The bytes with the string in them, and what is parsed there. -/
theorem parse_replaced {run : Bytes → Except StructureError (List Field × Nat)} {c c' : Bytes} {front back : List Field} {o x e : Nat}
    (ha : Around run c o e s.fields f front [] back x) (hstring : StringAt c f [] x) (hs : Counted f.type)
    (hlt : string.length < 256 ^ typeFieldSize f.type) (hend : e ≤ c.length)
    (hc : c' = c.take f.offset ++ littleEndian (typeFieldSize f.type) string.length ++ string ++ c.drop x) :
    SameBytes c c' o o (f.offset - o) ∧ SameBytes c c' x (f.offset + typeFieldSize f.type + string.length) (e - x) ∧
    (Access.ofBytes c').pread (typeFieldSize f.type) f.offset = some (littleEndian (typeFieldSize f.type) string.length) ∧
    (Access.ofBytes c').pread string.length (f.offset + typeFieldSize f.type) = some string ∧
    run c' = .ok (front ++ { f with size := string.length } :: back.map (Field.move x (f.offset + typeFieldSize f.type + string.length)),
      f.offset + typeFieldSize f.type + string.length + (e - x)) := by
  have hx := hstring.next
  have hle := hstring.le
  have hxe := ha.behind.le
  have hof := ha.before.le
  have hnumber : (littleEndian (typeFieldSize f.type) string.length).length = typeFieldSize f.type := littleEndian_length _ _
  have hoffset : (c.take f.offset).length = f.offset := by rw [List.length_take]; omega
  have hlength : c'.length = f.offset + typeFieldSize f.type + string.length + (c.length - x) := by
    rw [hc, List.length_append, List.length_append, List.length_append, hoffset, hnumber, List.length_drop]
  obtain ⟨hbefore, hafter⟩ := same_around (hc.trans (by rw [List.append_assoc (c.take f.offset)])) (by omega : f.offset ≤ c.length)
  have hfront : SameBytes c c' o o (f.offset - o) := hbefore (by omega)
  have hback : SameBytes c c' x (f.offset + typeFieldSize f.type + string.length) (e - x) := by
    have hsame := hafter (n := e - x) (by omega)
    rwa [List.length_append, hnumber, ← Nat.add_assoc] at hsame
  have hthere : (c'.drop f.offset).take (typeFieldSize f.type) = littleEndian (typeFieldSize f.type) string.length := by
    rw [hc, List.append_assoc, List.append_assoc, List.drop_left' hoffset, List.take_left' hnumber]
  have hvalue : (c'.drop (f.offset + typeFieldSize f.type)).take string.length = string := by
    rw [hc, List.append_assoc, List.drop_left' (by rw [List.length_append, hoffset, hnumber]), List.take_left]
  refine ⟨hfront, hback, by rw [pread_ofBytes (by omega), hthere], by rw [pread_ofBytes (by omega), hvalue], ?_⟩
  have hrun := ha.again hfront hback (parseOne_resized ha.one hs hlt (by omega) hthere)
  rwa [List.append_assoc, List.cons_append, List.nil_append] at hrun

/-- With the bytes replaced and the fields behind moved: the field is there, the others keep their values, and this is what is parsed. -/
theorem replaced_frame {buffer : VirtualBuffer} {front back : List Field} {x e : Nat} (hp : s.Parsed m)
    (hf : getField s.fields home name = .ok (i, f)) (hs : Counted f.type) (hlt : string.length < 256 ^ typeFieldSize f.type)
    (haround : Around (fun c => parseDescriptions (some (.ofBytes c)) s.description [] s.startOffset) (content m s.buffer.buffers)
      s.startOffset e s.fields f front [] back x) (hlength : front.length = i) (hstring : StringAt (content m s.buffer.buffers) f [] x)
    (hend : e ≤ (content m s.buffer.buffers).length) (hsound : buffer.Sound)
    (hcontent : content m' buffer.buffers = (content m s.buffer.buffers).take f.offset ++
      littleEndian (typeFieldSize f.type) string.length ++ string ++ (content m s.buffer.buffers).drop x)
    (hs' : s' = ⟨s.description, s.startOffset, front ++ { f with size := string.length } ::
      back.map (Field.move x (f.offset + typeFieldSize f.type + string.length)), buffer⟩) :
    getField s'.fields home name = .ok (i, { f with size := string.length }) ∧
      s'.buffer.pread m' (typeFieldSize f.type) f.offset true = some (littleEndian (typeFieldSize f.type) string.length) ∧
      s'.buffer.pread m' string.length (f.offset + typeFieldSize f.type) true = some string ∧
      (∀ j, j ≠ i → (s'.fields[j]?).map (s'.value m') = (s.fields[j]?).map (s.value m)) ∧ s'.Parsed m' := by
  subst hs'
  obtain ⟨hbefore, hbehind, hnumber, hvalue, hparse⟩ := parse_replaced haround hstring hs hlt hend hcontent
  have hpos := hs.pos
  have hkeys : (front ++ { f with size := string.length } :: back.map (Field.move x (f.offset + typeFieldSize f.type + string.length))).map
      Field.key = s.fields.map Field.key := by
    rw [haround.eq]
    simp [Field.key, Field.move, Function.comp_def]
  obtain ⟨g, hfound, hget⟩ := getField_key hkeys hf
  obtain rfl : g = { f with size := string.length } := by
    rw [← hlength, List.getElem?_append_right (Nat.le_refl _), Nat.sub_self] at hget
    exact (Option.some.inj hget).symm
  have hthere : buffer.buffers ≠ [] := fun hnil => by
    have hlengths := congrArg List.length hcontent
    rw [hnil, List.append_assoc, List.append_assoc, List.length_append, List.length_append, littleEndian_length] at hlengths
    exact absurd hlengths (by show 0 ≠ _; omega)
  refine ⟨hfound, (VirtualBuffer.pread_slice hsound ..).trans hnumber, (VirtualBuffer.pread_slice hsound ..).trans hvalue, fun j hj => ?_,
    ⟨hsound, hthere, f.offset + typeFieldSize f.type + string.length + (e - x), ?_⟩⟩
  · rw [haround.eq, List.append_assoc]
    refine getElem?_except ?_ ?_ (by rwa [hlength])
    · have hsame := map_value ⟨s.description, s.startOffset, [], buffer⟩ hp.sound hsound
        (by rw [Nat.add_sub_cancel' haround.before.le]; exact haround.before) hbefore
      rwa [map_move_self haround.before] at hsame
    · exact map_value ⟨s.description, s.startOffset, [], buffer⟩ hp.sound hsound
        (by rw [Nat.add_sub_cancel' haround.behind.le]; exact haround.behind) hbehind
  · rw [VirtualBuffer.access_eq hsound hthere]
    exact hparse

theorem getString_eq (hs : isString f.type = true)
    (hf : getField s.fields home name = .ok (i, f)) (hlt : f.size < 256 ^ typeFieldSize f.type)
    (hnumber : s.buffer.pread m (typeFieldSize f.type) f.offset true = some (littleEndian (typeFieldSize f.type) f.size))
    (hvalue : s.buffer.pread m f.size (f.offset + typeFieldSize f.type) true = some string) :
    s.getString m home name = .ok string := by
  have hsize : ofLittleEndian (littleEndian (typeFieldSize f.type) f.size) = f.size := by
    rw [ofLittleEndian_littleEndian]
    exact Nat.mod_eq_of_lt hlt
  unfold getString
  simp only [hf, hs, hnumber, hvalue, need, hsize, bind, Except.bind]
  rw [if_neg (by simp), if_neg (not_not.mpr rfl)]

/-- `set_string()` does what is expected exactly where the string does not get shorter, or no field is behind it. -/
theorem setsString_iff (hp : s.Parsed m) (hf : getField s.fields home name = .ok (i, f)) (hs : isString f.type = true)
    (hlt : string.length < 256 ^ typeFieldSize f.type)
    (hr : Replaceable s.buffer (typeFieldSize f.type) f.offset f.size string.length) :
    s.SetsString m home name string i ↔ f.size ≤ string.length ∨ ∀ g ∈ s.fields, g.offset ≤ f.offset := by
  obtain ⟨e, front, back, x, buffer, m', haround, hlength, hstring, hend, hset, hsound, hcontent⟩ := setString_eq hp hf hs hlt hr
  obtain ⟨-, -, -, -, hparse⟩ := parse_replaced haround hstring (isString_counted hs) hlt hend hcontent
  obtain ⟨-, hpos, hfour⟩ := isString_counted hs
  have hx := hstring.next
  have hlast : (∀ g ∈ s.fields, g.offset ≤ f.offset) ↔ back = [] := by
    rw [haround.eq]
    constructor
    · intro h
      refine List.eq_nil_iff_forall_not_mem.mpr fun g hg => ?_
      have hle := h g (List.mem_append_right _ hg)
      have hge := (haround.behind.fields g hg).1
      omega
    · rintro rfl g hg
      rw [List.append_nil] at hg
      rcases List.mem_append.mp hg with hg | hg
      · exact (Nat.le_add_right ..).trans (haround.before.fields g hg).2
      · rw [List.mem_singleton.mp hg]
  have hbound : ∀ {n}, n < 256 ^ typeFieldSize f.type → n < 0x100000000 := fun hn => hn.trans_le (Nat.pow_le_pow_right (by decide) hfour)
  rw [adjustOffsets_around (g := { f with size := string.length }) _ haround.before rfl (by omega) haround.behind] at hset
  rw [hlast, ← map_sizeDiff (hbound hlt) (hbound hstring.small) hx haround.behind]
  constructor
  · rintro ⟨s', m₂, hset', -, -, -, -, hparsed⟩
    rw [hset] at hset'
    obtain ⟨rfl, rfl⟩ := Prod.mk.inj (Except.ok.inj hset')
    obtain ⟨e', hparse'⟩ := hparsed.fields
    rw [VirtualBuffer.access_eq hparsed.sound hparsed.there] at hparse'
    have hfields := (Prod.mk.inj (Except.ok.inj (hparse.symm.trans hparse'))).1
    exact (List.cons.inj (List.append_cancel_left hfields)).2.symm
  · intro hback
    rw [hback] at hset
    obtain ⟨hfound, hnumber, hvalue, hothers, hparsed⟩ :=
      replaced_frame hp hf (isString_counted hs) hlt haround hlength hstring hend hsound hcontent rfl
    exact ⟨_, m', hset, getString_eq (f := { f with size := string.length }) hs hfound hlt hnumber hvalue, hothers, rfl, rfl, hparsed⟩

/-- A string of one letter and a number behind it. -/
def letter : Structure where
  description := .field [0x61] .p8string .null (.field [0x62] .uint8 .null .typeEnd)
  fields := [made [0x61] .p8string .null (.field [0x62] .uint8 .null .typeEnd) [] 1 0, made [0x62] .uint8 .null .typeEnd [] 1 2]
  buffer := { buffers := [{ data := [1, 65, 7], capacity := 3, size := 3 }], totalSize := 3 }

theorem letter_parsed : letter.Parsed fun _ => 0 :=
  ⟨⟨fun b hb => by rw [List.mem_singleton.mp hb]; exact fun _ => Nat.le_refl _, rfl⟩, nofun, 3, rfl⟩

theorem setsString_iff_letter : letter.SetsString (fun _ => 0) [] [0x61] [66] 0 ↔ 1 ≤ 1 ∨ ∀ g ∈ letter.fields, g.offset ≤ 0 := by
  have hown : ∀ b ∈ letter.buffer.buffers, b.block = none := fun b hb => by rw [List.mem_singleton.mp hb]
  exact setsString_iff letter_parsed (f := made [0x61] .p8string .null (.field [0x62] .uint8 .null .typeEnd) [] 1 0) rfl rfl (by decide)
    ⟨fun _ => VirtualBuffer.writable_own hown, VirtualBuffer.writable_own hown, fun hlt => absurd hlt (Nat.lt_irrefl _),
      fun hlt => absurd hlt (Nat.lt_irrefl _)⟩

/-- The letter goes, and the number is looked for 2^32 bytes behind its place. -/
theorem not_setsString : ¬∀ (s : Structure) (m : Memory) (home : Home) (name string : Bytes) (i : Nat) (f : Field), s.Parsed m →
    getField s.fields home name = .ok (i, f) → isString f.type = true → string.length < 256 ^ typeFieldSize f.type →
      s.SetsString m home name string i := by
  intro hall
  obtain ⟨s', m', hset, -, -, -, -, hparsed⟩ := hall letter (fun _ => 0) [] [0x61] [] 0 _ letter_parsed rfl rfl (by decide)
  obtain ⟨rfl, rfl⟩ := Prod.mk.inj (Except.ok.inj hset)
  obtain ⟨e, hparse⟩ := hparsed.fields
  have hfields := (Prod.mk.inj (Except.ok.inj hparse)).1
  revert hfields
  decide

end Structure

end Snapwebsites.Snapdatabase.Data
