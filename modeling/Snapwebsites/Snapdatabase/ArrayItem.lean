import Snapwebsites.Snapdatabase.Description
import Snapwebsites.Snapdatabase.SetString

/-! # Appending to an array

`new_array_item()` inserts the bytes of an empty item where the next field is, or at the size of its structure when there is none, and
then moves all fields behind the number of items: the items that are there move too. The size that `field_t` keeps for an array is the
number of items that were parsed, and nothing looks at it behind that. -/

namespace Snapwebsites.Snapdatabase.Data

open Loadavg (littleEndian ofLittleEndian littleEndian_length ofLittleEndian_littleEndian littleEndian_ofLittleEndian ofLittleEndian_lt)

/-! ### What is shown -/

/-- A field but for the number of items that was parsed. -/
def Field.uncounted (f : Field) : Field := if isArray f.type then { f with size := 0 } else f

/-- Where the items of an array end. -/
def arrayEnd (l : List Field) (i : Nat) (f : Field) : Nat :=
  f.offset + f.width + (((l.drop (i + 1)).takeWhile f.below).map Field.width).sum

/-- What the operations of the buffer need where `size` bytes are inserted at `x` and the number at `offset` is written. -/
structure Appendable (v : VirtualBuffer) (fieldSize offset size x : Nat) : Prop where
  number : v.Writable offset fieldSize
  inserted : 0 < size → ∀ h, holder v.buffers x = some h → h.1.block = none

namespace Structure

/-- The fields are the ones that are found in the bytes of the buffer, but for the numbers of items that were parsed before. -/
structure Consistent (s : Structure) (m : Memory) : Prop where
  sound : s.buffer.Sound
  there : s.buffer.buffers ≠ []
  fields : ∃ l e, parseDescriptions (s.buffer.access m) s.description [] s.startOffset = .ok (l, e) ∧
    s.fields.map Field.uncounted = l.map Field.uncounted

/-- `new_array_item()` counts one more item for the array `f` with the index `i`, puts the fields of one item of zeros behind those of
the other ones, which stay where they are, keeps the values of all other fields, and leaves the offsets that would be parsed. -/
def AppendsItem (s : Structure) (m : Memory) (home : Home) (name : Bytes) (i : Nat) (f : Field) : Prop :=
  ∃ s' m' front items new back, s.newArrayItem m home name = .ok (s', m') ∧
    s'.fields = front ++ { f with items := f.items + 1 } :: items ++ new ++ back ∧ front.length = i ∧
    s'.buffer.pread m' (typeFieldSize f.type) f.offset true = some (littleEndian (typeFieldSize f.type) (f.items + 1)) ∧
    (∀ g ∈ new, f.home ++ [(f.name, f.items)] <+: g.home ∧ s'.buffer.pread m' g.width g.offset true = some (List.replicate g.width 0)) ∧
    (front ++ items ++ back).map (s'.value m') = (s.fields.eraseIdx i).map (s.value m) ∧
    items.map Field.offset = ((s.fields.drop (i + 1)).takeWhile f.below).map Field.offset ∧
    s'.description = s.description ∧ s'.startOffset = s.startOffset ∧ s'.Consistent m'

end Structure

/-! ### The number of items -/

section Uncounted
variable {f g : Field} {l l' : List Field} {o e : Nat}

theorem isArray_shape {t : StructType} (h : isArray t = true) : shape t = .array (typeFieldSize t) ∧ 0 < typeFieldSize t := by
  cases t <;> first | exact absurd h (by decide) | exact ⟨rfl, by decide⟩

theorem Field.uncounted_array (h : isArray f.type = true) : f.uncounted = { f with size := 0 } := if_pos h

@[simp] theorem Field.uncounted_home (f : Field) : f.uncounted.home = f.home := by unfold uncounted; split <;> rfl

@[simp] theorem Field.uncounted_offset (f : Field) : f.uncounted.offset = f.offset := by unfold uncounted; split <;> rfl

@[simp] theorem Field.uncounted_items (f : Field) : f.uncounted.items = f.items := by unfold uncounted; split <;> rfl

@[simp] theorem Field.uncounted_type (f : Field) : f.uncounted.type = f.type := by unfold uncounted; split <;> rfl

@[simp] theorem Field.uncounted_name (f : Field) : f.uncounted.name = f.name := by unfold uncounted; split <;> rfl

@[simp] theorem Field.uncounted_description (f : Field) : f.uncounted.description = f.description := by unfold uncounted; split <;> rfl

@[simp] theorem Field.uncounted_width (f : Field) : f.uncounted.width = f.width := by
  unfold uncounted
  split
  · rename_i h
    simp only [Field.width, (isArray_shape h).1]
  · rfl

/-- The number is not in what else is done with a field. -/
theorem Field.uncounted_at (f : Field) (o : Nat) : ({ f with offset := o } : Field).uncounted = { f.uncounted with offset := o } := by
  unfold uncounted
  dsimp only
  split <;> rfl

theorem uncounted_eq {α : Type} {q : Field → α} (h : f.uncounted = g.uncounted) (hq : ∀ f, q f.uncounted = q f) : q f = q g := by
  rw [← hq f, h, hq g]

theorem uncounted_move (f : Field) (o o' : Nat) : (f.move o o').uncounted = f.uncounted.move o o' := by
  rw [Field.move, Field.uncounted_at, Field.move, Field.uncounted_offset]

theorem map_uncounted {α : Type} {q : Field → α} (hq : ∀ f, q f.uncounted = q f) (h : l.map Field.uncounted = l'.map Field.uncounted) :
    l.map q = l'.map q := by
  have hmap : ∀ r : List Field, r.map q = (r.map Field.uncounted).map q := fun r => by
    rw [List.map_map]
    exact List.map_congr_left fun f _ => (hq f).symm
  rw [hmap l, hmap l', h]

theorem forall_uncounted {q : Field → Prop} (hq : ∀ f, q f.uncounted ↔ q f) (h : l.map Field.uncounted = l'.map Field.uncounted)
    (hl : ∀ f ∈ l, q f) : ∀ f ∈ l', q f := by
  have hall : ∀ f ∈ l.map Field.uncounted, q f := List.forall_mem_map.mpr fun f hf => (hq f).mpr (hl f hf)
  rw [h] at hall
  exact fun f hf => (hq f).mp (List.forall_mem_map.mp hall f hf)

theorem Bounded.uncounted (h : l.map Field.uncounted = l'.map Field.uncounted) (hl : Bounded o e l) : Bounded o e l' :=
  ⟨hl.le, forall_uncounted (fun f => by simp) h hl.fields⟩

end Uncounted

/-! ### The array -/

/-- An array in the bytes: the number of items, and the items. -/
structure ArrayAt (c : Bytes) (f : Field) (items : List Field) (x : Nat) : Prop where
  le : f.offset + f.width ≤ c.length
  width : f.width = typeFieldSize f.type
  number : (c.drop f.offset).take f.width = littleEndian f.width f.items
  small : f.items < 256 ^ f.width
  sub : f.description.sub ≠ .null
  items : parseItems (fun k o => parseDescriptions (some (.ofBytes c)) f.description.sub (f.home ++ [(f.name, k)]) o) f.items 0
    (f.offset + f.width) = .ok (items, x)

section Array
variable {c c' : Bytes} {d : Description} {home : Home} {f : Field} {l items item new : List Field} {w o x x' e n k : Nat}
  {p : Nat → Nat → Except StructureError (List Field × Nat)}

theorem parseItems_snoc (h : parseItems p n k o = .ok (l, x)) (hp : p (k + n) x = .ok (item, e)) :
    parseItems p (n + 1) k o = .ok (l ++ item, e) := by
  induction n generalizing k o l with
  | zero =>
    obtain ⟨rfl, rfl⟩ := parseItems_zero.mp h
    exact parseItems_succ.mpr ⟨item, e, [], hp, parseItems_zero.mpr ⟨rfl, rfl⟩, (List.append_nil _).symm⟩
  | succ n ih =>
    obtain ⟨first, y, others, hfirst, hothers, rfl⟩ := parseItems_succ.mp h
    have hlast : p (k + 1 + n) x = .ok (item, e) := by rw [Nat.add_right_comm]; exact hp
    exact parseItems_succ.mpr ⟨first, y, _, hfirst, ih hothers hlast, List.append_assoc ..⟩

theorem parseOne_array (h : parseOne c d home o = .ok (f, items, x)) (ha : isArray f.type = true) : f.offset = o ∧ ArrayAt c f items x := by
  cases d with
  | null => cases h
  | typeEnd => cases h
  | field name type sub rest =>
    obtain ⟨size, next, hheader, hin, rfl, hiff, hitems⟩ := parseField_ok.mp h
    obtain ⟨hshape, hpos⟩ := isArray_shape (show isArray type = true from ha)
    have hdefs : hasSubDefs type = true := by rw [hasSubDefs, hshape]
    have hsub : sub ≠ .null := hiff.mpr hdefs
    have hwidth : (made name type sub rest home size o).width = typeFieldSize type := by
      unfold Field.width made
      dsimp only
      rw [hshape]
    have hmade : (made name type sub rest home size o).items = size := if_neg hsub
    rw [fieldHeader, hshape] at hheader
    obtain ⟨n, hn, heq⟩ := map_eq_ok.mp hheader
    obtain ⟨rfl, rfl⟩ := Prod.mk.inj heq
    obtain ⟨hle, hsize⟩ := (readSize_ok hpos).mp hn
    obtain ⟨b, hb⟩ : ∃ b, (c.drop o).take (typeFieldSize type) = b := ⟨_, rfl⟩
    have hbytes : b.length = typeFieldSize type := by
      rw [← hb, List.length_take, List.length_drop]
      omega
    rw [hb] at hsize
    refine ⟨rfl, by rw [hwidth]; exact hle, hwidth, ?_, ?_, hsub, by rw [hwidth]; exact hitems⟩
    · rw [hwidth, hmade]
      show (c.drop o).take (typeFieldSize type) = littleEndian (typeFieldSize type) n
      rw [hb, hsize, ← hbytes, littleEndian_ofLittleEndian]
    · rw [hwidth, hmade, hsize, ← hbytes]
      exact ofLittleEndian_lt b

/-- One item more. -/
theorem parseOne_appended (h : parseOne c d home o = .ok (f, items, x)) (ha : isArray f.type = true) (hn : f.items + 1 < 256 ^ f.width)
    (hle : o + f.width ≤ c'.length) (hnumber : (c'.drop o).take f.width = littleEndian f.width (f.items + 1))
    (hsame : SameBytes c c' (o + f.width) (o + f.width) (x - (o + f.width)))
    (hnew : parseDescriptions (some (.ofBytes c')) f.description.sub (f.home ++ [(f.name, f.items)]) x = .ok (new, x')) :
    parseOne c' d home o = .ok ({ f with size := f.items + 1, items := f.items + 1 }, items ++ new, x') := by
  obtain ⟨-, harray⟩ := parseOne_array h ha
  cases d with
  | null => cases h
  | typeEnd => cases h
  | field name type sub rest =>
    obtain ⟨size, next, hheader, hin, rfl, hiff, hitems⟩ := parseField_ok.mp h
    obtain ⟨hshape, hpos⟩ := isArray_shape (show isArray type = true from ha)
    have hsub : sub ≠ .null := harray.sub
    have hwidth := harray.width
    have hbelow := parseItems_bounded parse_bounded hitems
    obtain rfl : next = o + (made name type sub rest home size o).width := fieldHeader_width name sub rest home hheader
    have hkept := parseItems_moved (p := parseSub (some (.ofBytes c)) name type sub home) parse_bounded parseSub_moves hitems hsame
    rw [map_move_self hbelow, Nat.add_sub_cancel' hbelow.le] at hkept
    refine parseField_ok.mpr ⟨(made name type sub rest home size o).items + 1, o + (made name type sub rest home size o).width, ?_, fun b hb => ?_,
      ?_, hiff, parseItems_snoc hkept (by rw [Nat.zero_add]; exact hnew)⟩
    · have hread : readSize (some (.ofBytes c')) (typeFieldSize type) o = .ok ((made name type sub rest home size o).items + 1) := by
        refine (readSize_ok hpos).mpr ⟨by rw [← show _ = typeFieldSize type from hwidth]; exact hle, ?_⟩
        rw [← show _ = typeFieldSize type from hwidth, hnumber, ofLittleEndian_littleEndian]
        exact (Nat.mod_eq_of_lt hn).symm
      rw [fieldHeader, hshape]
      dsimp only
      rw [hread, hwidth]
      rfl
    · obtain rfl := Option.some.inj hb
      exact hle
    · simp only [made, if_neg hsub]

end Array

/-! ### The bytes of the item -/

section Bytes
variable {c c' number : Bytes} {o w x n : Nat}

/-- What is at the places of the bytes with the item in them. -/
theorem appended_bytes (hc : c' = c.take o ++ number ++ (c.drop (o + w)).take (x - (o + w)) ++ List.replicate n 0 ++ c.drop x)
    (hnumber : number.length = w) (hwx : o + w ≤ x) (hx : x ≤ c.length) :
    (∀ {k v}, k + v ≤ o → SameBytes c c' k k v) ∧ (c'.drop o).take w = number ∧ SameBytes c c' (o + w) (o + w) (x - (o + w)) ∧
      SameBytes (List.replicate (x + n) 0) c' x x n ∧ ∀ {v}, x + v ≤ c.length → SameBytes c c' x (x + n) v := by
  have ho : (c.take o).length = o := by rw [List.length_take]; omega
  have hmiddle : ((c.drop (o + w)).take (x - (o + w))).length = x - (o + w) := by rw [List.length_take, List.length_drop]; omega
  have hlength : c'.length = c.length + n := by
    rw [hc]
    simp only [List.length_append, List.length_replicate, List.length_drop, ho, hnumber, hmiddle]
    omega
  have hflat : c' = c.take o ++ (number ++ (c.drop (o + w)).take (x - (o + w)) ++ List.replicate n 0) ++ c.drop x := by
    rw [hc]
    simp only [List.append_assoc]
  obtain ⟨hbefore, hbehind⟩ := same_around hflat (by omega)
  refine ⟨hbefore, ?_, ⟨by omega, by omega, ?_⟩, ⟨by rw [List.length_replicate], by omega, ?_⟩, fun hv => ?_⟩
  · rw [hc, List.append_assoc, List.append_assoc, List.append_assoc, List.drop_left' ho, List.take_left' hnumber]
  · rw [hc, List.append_assoc, List.append_assoc, List.drop_left' (by rw [List.length_append, ho, hnumber]), List.take_left' hmiddle]
  · rw [hc, List.append_assoc, List.drop_left' (by rw [List.length_append, List.length_append, ho, hnumber, hmiddle]; omega),
      List.take_left' List.length_replicate, List.drop_replicate, Nat.add_sub_cancel_left, List.take_replicate, Nat.min_self]
  · have hsame := hbehind hv
    rw [List.length_append, List.length_append, hnumber, hmiddle, List.length_replicate] at hsame
    have hplace : o + (w + (x - (o + w)) + n) = x + n := by omega
    rwa [hplace] at hsame

/-- The bytes of the item are inserted, and the number is written. -/
theorem append_buffer {v : VirtualBuffer} {m : Memory} (h : v.Sound) (hr : Appendable v w o n x) (hc : content m v.buffers = c)
    (hnumber : number.length = w) (hwx : o + w ≤ x) (hx : x ≤ c.length) :
    ∃ v₁ m₁ v₂ m₂, v.pinsert m (List.replicate n 0) x = some (v₁, m₁) ∧ v₁.pwrite m₁ number o false = some (v₂, m₂) ∧ v₂.Sound ∧
      content m₂ v₂.buffers = c.take o ++ number ++ (c.drop (o + w)).take (x - (o + w)) ++ List.replicate n 0 ++ c.drop x := by
  have hlength : c.length = v.totalSize := hc ▸ (length_content h.buffers).trans h.totalSize.symm
  have hown : List.replicate n (0 : UInt8) = [] ∨ ∀ h, holder v.buffers x = some h → h.1.block = none := by
    rcases Nat.eq_zero_or_pos n with rfl | hpos
    · exact .inl rfl
    · exact .inr (hr.inserted hpos)
  obtain ⟨v₁, m₁, hinsert, hsound, hcontent⟩ := v.pinsert_at h (hlength ▸ hx) hown m
  have hwritable : v₁.Writable o number.length := by
    rw [hnumber]
    exact hr.number.kept hwx (VirtualBuffer.pinsert_kept h hinsert)
  have htotal : (content m₁ v₁.buffers).length = v₁.totalSize := (length_content hsound.buffers).trans hsound.totalSize.symm
  rw [hcontent, hc, List.length_append, List.length_append, List.length_take, List.length_replicate, List.length_drop] at htotal
  obtain ⟨v₂, m₂, hwrite, hsound', -, -, hcontent'⟩ := v₁.pwrite_within hsound (by omega) hwritable m₁
  refine ⟨v₁, m₁, v₂, m₂, hinsert, hwrite, hsound', ?_⟩
  have ho : (c.take o).length = o := by rw [List.length_take]; omega
  have hold : ((c.drop o).take w).length = number.length := by rw [List.length_take, List.length_drop]; omega
  have hfront : c.take x = c.take o ++ (c.drop o).take w ++ (c.drop (o + w)).take (x - (o + w)) := by
    have hw : (c.drop o).take w ++ (c.drop (o + w)).take (x - (o + w)) = (c.drop o).take (w + (x - (o + w))) := by
      rw [List.take_add, List.drop_drop]
    have hsum : x = o + (w + (x - (o + w))) := by omega
    rw [List.append_assoc, hw, ← List.take_add, ← hsum]
  rw [hcontent', hcontent, hc, hfront]
  have hmemcpy := memcpy_middle (a := c.take o) (b := (c.drop (o + w)).take (x - (o + w)) ++ List.replicate n 0 ++ c.drop x) hold
  rw [ho] at hmemcpy
  simp only [List.append_assoc] at hmemcpy ⊢
  exact hmemcpy

end Bytes

/-! ### The fields -/

section Fields
variable {q : Field → Bool} {f g : Field} {front items new back front₀ items₀ back₀ l : List Field} {c : Bytes} {s : Structure} {m : Memory}
  {home : Home} {name : Bytes} {i e x n o : Nat}

theorem takeWhile_dropWhile (hitems : ∀ g ∈ items, q g = true) (hback : ∀ g ∈ back.head?, q g = false) :
    (items ++ back).takeWhile q = items ∧ (items ++ back).dropWhile q = back := by
  rw [List.takeWhile_append_of_pos hitems, List.dropWhile_append_of_pos hitems]
  cases back with
  | nil => simp
  | cons g back => simp [hback g rfl]

theorem pushBack_eq (hi : front.length = i) (hitems : ∀ g ∈ items, f.below g = true) (hback : ∀ g ∈ back.head?, f.below g = false) :
    Structure.pushBack (front ++ g :: items ++ back) i f new = front ++ { f with items := f.items + 1 } :: items ++ new ++ back := by
  obtain ⟨htake, hdrop⟩ := takeWhile_dropWhile hitems hback
  have hbehind : (front ++ g :: items ++ back).drop (i + 1) = items ++ back := by
    rw [← hi]
    simp [List.drop_append]
  have hbefore : (front ++ g :: items ++ back).take i = front := by
    rw [← hi, List.append_assoc, List.take_left]
  rw [Structure.pushBack, hbehind, hbefore, htake, hdrop]

/-- Where an array and its items are among the fields, and among those that are found in the bytes. -/
structure Located (s : Structure) (c : Bytes) (i : Nat) (f : Field) (e x : Nat) (l : List Field) (g : Field)
    (front₀ items₀ back₀ front items back : List Field) : Prop where
  around : Around (fun c => parseDescriptions (some (.ofBytes c)) s.description [] s.startOffset) c s.startOffset e l g front₀ items₀ back₀ x
  array : ArrayAt c g items₀ x
  valid : g.description.Valid
  inside : e ≤ c.length
  fields : s.fields = front ++ f :: items ++ back
  index : front.length = i
  sameFront : front₀.map Field.uncounted = front.map Field.uncounted
  same : g.uncounted = f.uncounted
  sameItems : items₀.map Field.uncounted = items.map Field.uncounted
  sameBack : back₀.map Field.uncounted = back.map Field.uncounted

theorem Structure.Consistent.located (hc : s.Consistent m) (hv : s.description.Valid) (hf : s.fields[i]? = some f) (ha : isArray f.type = true) :
    ∃ e x l g front₀ items₀ back₀ front items back,
      Located s (content m s.buffer.buffers) i f e x l g front₀ items₀ back₀ front items back := by
  obtain ⟨l, e, hparse, hsame⟩ := hc.fields
  rw [VirtualBuffer.access_eq hc.sound hc.there] at hparse
  have hget := congrArg (·[i]?) hsame
  simp only [List.getElem?_map, hf] at hget
  obtain ⟨g, hg, hfg⟩ := Option.map_eq_some_iff.mp hget.symm
  obtain ⟨front₀, items₀, back₀, x, haround, hlength⟩ := parse_around hparse hg
  have hsplit := hsame
  rw [haround.eq, List.append_assoc, List.cons_append, List.map_append, List.map_cons, List.map_append] at hsplit
  obtain ⟨front, tail, hfields, hfront, htail⟩ := List.map_eq_append_iff.mp hsplit
  obtain ⟨f', tail, rfl, hf', htail⟩ := List.map_eq_cons_iff.mp htail
  obtain ⟨items, back, rfl, hitems, hback⟩ := List.map_eq_append_iff.mp htail
  have hindex : front.length = i := by simpa [← hlength] using congrArg List.length hfront
  have hff' : f' = f := by
    rw [hfields, ← hindex] at hf
    simpa using hf
  subst hff'
  have harray := (parseOne_array haround.one (by rwa [uncounted_eq hfg Field.uncounted_type])).2
  have hstart : s.startOffset ≤ (content m s.buffer.buffers).length := by
    have hle := haround.before.le
    have hle' := harray.le
    omega
  exact ⟨e, x, l, g, front₀, items₀, back₀, front, items, back, haround, harray, parse_valid hv hparse g (List.mem_of_getElem? hg),
    parse_le hparse hstart, by rw [hfields, List.append_assoc, List.cons_append], hindex, hfront.symm, hfg, hitems.symm, hback.symm⟩

namespace Located
variable (h : Located s c i f e x l g front₀ items₀ back₀ front items back)
include h

theorem offset_eq : g.offset = f.offset := uncounted_eq h.same Field.uncounted_offset

theorem width_eq : g.width = f.width := uncounted_eq h.same Field.uncounted_width

theorem home_eq : g.home = f.home := uncounted_eq h.same Field.uncounted_home

theorem before : Bounded s.startOffset f.offset front := h.offset_eq ▸ h.around.before.uncounted h.sameFront

theorem below : Bounded (f.offset + f.width) x items := h.width_eq ▸ h.offset_eq ▸ h.around.below.uncounted h.sameItems

theorem behind : Bounded x e back := h.around.behind.uncounted h.sameBack

theorem deeper : ∀ a ∈ items, f.below a = true := by
  have hone := h.around.one
  cases hd : g.description with
  | null => rw [hd] at hone; cases hone
  | typeEnd => rw [hd] at hone; cases hone
  | field name type sub rest =>
    rw [hd] at hone
    refine forall_uncounted (fun a => ?_) h.sameItems fun a ha => ?_
    · simp [Field.below]
    · rw [Field.below, ← h.home_eq]
      exact parseField_below hone a ha

theorem head? : back.head?.map Field.uncounted = back₀.head?.map Field.uncounted := by
  rw [← List.head?_map, ← List.head?_map, h.sameBack]

theorem after : ∀ a ∈ back.head?, f.below a = false := by
  intro a ha
  have hsame := h.head?
  rw [ha, Option.map_some] at hsame
  obtain ⟨b, hb, hab⟩ := Option.map_eq_some_iff.mp hsame.symm
  have hle := h.around.after b hb
  rw [uncounted_eq hab Field.uncounted_home, h.home_eq] at hle
  exact decide_eq_false (Nat.not_lt.mpr hle)

theorem after_moved (n : Nat) : ∀ a ∈ (back.map fun a => { a with offset := a.offset + n }).head?, f.below a = false := by
  intro a ha
  rw [List.head?_map] at ha
  obtain ⟨b, hb, rfl⟩ := Option.map_eq_some_iff.mp ha
  exact h.after b hb

theorem drop : s.fields.drop (i + 1) = items ++ back := by
  rw [h.fields, ← h.index]
  simp [List.drop_append]

theorem takeWhile : (s.fields.drop (i + 1)).takeWhile f.below = items := by
  rw [h.drop]
  exact (takeWhile_dropWhile h.deeper h.after).1

theorem arrayEnd : arrayEnd s.fields i f = x := by
  have hsum := parseItems_widths (parse_widths (h.valid.sub h.array.sub)) h.array.items
  rw [Data.arrayEnd, h.takeWhile, ← hsum, h.offset_eq, h.width_eq, map_uncounted Field.uncounted_width h.sameItems]

/-- The next field starts where the array ends. -/
theorem next : nextField s.fields i f = none ∨ ∃ a, nextField s.fields i f = some a ∧ a.offset = x := by
  have hdescription : g.description = f.description := uncounted_eq h.same Field.uncounted_description
  have hvalid := h.valid.rest
  obtain ⟨others, y, back', hback, hothers⟩ := h.around.rest
  rw [hdescription] at hvalid hothers
  unfold nextField
  cases hrest : f.description.rest with
  | null => exact .inl rfl
  | typeEnd => exact .inl rfl
  | field name type sub rest =>
    rw [hrest] at hvalid hothers
    obtain ⟨b, _, rfl, hhome, hoffset⟩ := parse_first hvalid nofun hothers
    have hhead := h.head?
    rw [hback, List.cons_append, List.head?_cons, Option.map_some] at hhead
    obtain ⟨a, ha, hab⟩ := Option.map_eq_some_iff.mp hhead
    have haway : items.find? (fun r => decide (r.home = f.home)) = none := List.find?_eq_none.mpr fun r hr => by
      have hlt := of_decide_eq_true (h.deeper r hr)
      exact fun heq => absurd (congrArg List.length (of_decide_eq_true heq)) (Nat.ne_of_gt hlt)
    have hnext : a.home = f.home := (uncounted_eq hab Field.uncounted_home).trans (hhome.trans h.home_eq)
    refine .inr ⟨a, ?_, (uncounted_eq hab Field.uncounted_offset).trans hoffset⟩
    dsimp only
    rw [if_neg hvalid.2.2.2.1, h.drop, List.find?_append, haway]
    obtain ⟨_, rfl⟩ := List.head?_eq_some_iff.mp ha
    simp [hnext]

theorem count (hc : c = content m s.buffer.buffers) (hsound : s.buffer.Sound) : typeFieldSize f.type = f.width ∧ f.items < 256 ^ f.width ∧
    s.buffer.pread m f.width f.offset true = some (littleEndian f.width f.items) := by
  have hitems : g.items = f.items := uncounted_eq h.same Field.uncounted_items
  have htype : g.type = f.type := uncounted_eq h.same Field.uncounted_type
  obtain ⟨hle, hwidth, hnumber, hsmall, -, -⟩ := h.array
  rw [h.width_eq, htype] at hwidth
  rw [h.offset_eq, h.width_eq] at hle
  rw [h.offset_eq, h.width_eq, hitems] at hnumber
  rw [h.width_eq, hitems] at hsmall
  refine ⟨hwidth.symm, hsmall, ?_⟩
  rw [VirtualBuffer.pread_slice hsound, ← hc, pread_ofBytes hle, hnumber]

/-- The items start behind their number. -/
theorem first (hsub : f.description.sub ≠ .typeEnd) (hpos : f.items ≠ 0) : ∃ a, items.head? = some a ∧ a.offset = f.offset + f.width := by
  have hitems : g.items = f.items := uncounted_eq h.same Field.uncounted_items
  have hdescription : g.description = f.description := uncounted_eq h.same Field.uncounted_description
  have hparse := h.array.items
  obtain ⟨n, hn⟩ := Nat.exists_eq_succ_of_ne_zero hpos
  rw [hitems, hn] at hparse
  obtain ⟨item, y, others, hitem, -, hlist⟩ := parseItems_succ.mp hparse
  obtain ⟨b, tail, rfl, -, hoffset⟩ := parse_first (h.valid.sub h.array.sub) (hdescription ▸ hsub) hitem
  have hhead := congrArg List.head? h.sameItems
  rw [hlist, List.cons_append, List.map_cons, List.head?_cons, List.head?_map] at hhead
  obtain ⟨a, ha, hab⟩ := Option.map_eq_some_iff.mp hhead.symm
  exact ⟨a, ha, (uncounted_eq hab Field.uncounted_offset).trans (hoffset.trans (by rw [h.offset_eq, h.width_eq]))⟩

theorem empty (hzero : f.items = 0) : items = [] ∧ x = f.offset + f.width := by
  have hitems : g.items = f.items := uncounted_eq h.same Field.uncounted_items
  have hparse := h.array.items
  rw [hitems, hzero] at hparse
  obtain ⟨hnil, hx⟩ := parseItems_zero.mp hparse
  have hsame := h.sameItems
  rw [hnil, List.map_nil] at hsame
  exact ⟨List.map_eq_nil_iff.mp hsame.symm, by rw [hx, h.offset_eq, h.width_eq]⟩

/-- The fields behind the call. -/
theorem appended (hpos : 0 < f.width) (n : Nat) (new : List Field) : Structure.pushBack (adjustOffsets f.offset n s.fields) i f new =
    front ++ { f with items := f.items + 1 } :: (items.map fun a => { a with offset := a.offset + n }) ++ new ++
      back.map fun a => { a with offset := a.offset + n } := by
  have hadjust := Structure.adjustOffsets_around n h.before rfl (Nat.lt_add_of_pos_right hpos) (h.below.append h.behind)
  rw [List.map_append] at hadjust
  rw [h.fields, List.append_assoc, List.cons_append, hadjust, ← List.cons_append, ← List.append_assoc]
  exact pushBack_eq h.index (List.forall_mem_map.mpr h.deeper) (h.after_moved n)

/-- What is parsed in the bytes with the item in them. -/
theorem parsed {c' : Bytes} (ha : isArray f.type = true) (hn : f.items + 1 < 256 ^ f.width)
    (hnew : parseDescriptions none f.description.sub (f.home ++ [(f.name, f.items)]) x = .ok (new, x + n))
    (hc : c' = c.take f.offset ++ littleEndian f.width (f.items + 1) ++ (c.drop (f.offset + f.width)).take (x - (f.offset + f.width)) ++
      List.replicate n 0 ++ c.drop x) :
    ∃ r e', parseDescriptions (some (.ofBytes c')) s.description [] s.startOffset = .ok (r, e') ∧ r.map Field.uncounted =
      (front ++ { f with items := f.items + 1 } :: items ++ new ++ back.map (Field.move x (x + n))).map Field.uncounted := by
  have hitems : g.items = f.items := uncounted_eq h.same Field.uncounted_items
  have htype : g.type = f.type := uncounted_eq h.same Field.uncounted_type
  have hname : g.name = f.name := uncounted_eq h.same Field.uncounted_name
  have hdescription : g.description = f.description := uncounted_eq h.same Field.uncounted_description
  have hxe := h.behind.le
  have hinside := h.inside
  have hwx := h.below.le
  have hstart := h.before.le
  obtain ⟨hbefore, hnumber, hmiddle, hzeros, hbehind⟩ := appended_bytes hc (littleEndian_length ..) hwx (by omega)
  have hitem := parse_moved (parse_zeros hnew (Nat.le_refl _)) (by rw [Nat.add_sub_cancel_left]; exact hzeros)
  rw [map_move_self (parse_bounded hnew), Nat.add_sub_cancel_left] at hitem
  have hone : parseOne c' g.description g.home g.offset = _ := parseOne_appended h.around.one (by rwa [htype]) (by rwa [hitems, h.width_eq])
    (by rw [h.offset_eq, h.width_eq]; have := hmiddle.right; omega) (by rw [h.offset_eq, h.width_eq, hitems]; exact hnumber)
    (by rw [h.offset_eq, h.width_eq]; exact hmiddle) (by rw [hdescription, h.home_eq, hname, hitems]; exact hitem)
  have hrun := h.around.again (by rw [h.offset_eq]; exact hbefore (by omega)) (hbehind (by omega)) hone
  refine ⟨_, _, hrun, ?_⟩
  have harray : ({ g with size := g.items + 1, items := g.items + 1 } : Field).uncounted = ({ f with items := f.items + 1 } : Field).uncounted := by
    have hsame := h.same
    rw [Field.uncounted_array (by rwa [htype]), Field.uncounted_array ha] at hsame
    rw [Field.uncounted_array (by rwa [← htype] at ha), Field.uncounted_array (by exact ha), hitems]
    exact congrArg (fun a : Field => { a with items := f.items + 1 }) hsame
  have hback : (back₀.map (Field.move x (x + n))).map Field.uncounted = (back.map (Field.move x (x + n))).map Field.uncounted := by
    have hmove : ∀ r : List Field, (r.map (Field.move x (x + n))).map Field.uncounted = (r.map Field.uncounted).map (Field.move x (x + n)) :=
      fun r => by simp only [List.map_map, Function.comp_def, uncounted_move]
    rw [hmove, hmove, h.sameBack]
  simp only [List.map_append, List.map_cons, h.sameFront, h.sameItems, harray, hback, List.append_assoc, List.cons_append]

end Located

end Fields

/-! ### What the function does -/

theorem getCurrentSize_new {d : Description} {home : Home} {l : List Field} {o n : Nat} (hd : d.Valid)
    (h : parseDescriptions none d home o = .ok (l, o + n)) : getCurrentSize l home = n := by
  have hall : (l.filter fun f => home.isPrefixOf f.home) = l :=
    List.filter_eq_self.mpr fun f hf => List.isPrefixOf_iff_prefix.mpr (parse_prefix_home h f hf)
  rw [getCurrentSize, hall]
  exact Nat.add_left_cancel (parse_widths hd h)

namespace Structure
variable {s s' : Structure} {m m' : Memory} {home : Home} {name : Bytes} {i p n : Nat} {f : Field} {new : List Field}

theorem newArrayItem_iff (hf : getField s.fields home name = .ok (i, f)) (ha : isArray f.type = true) (hwidth : typeFieldSize f.type = f.width)
    (hcount : s.buffer.pread m f.width f.offset true = some (littleEndian f.width f.items)) (hsmall : f.items < 256 ^ f.width)
    (hd : f.description.sub.Valid) (hp : itemOffset s.fields home i f = p)
    (hnew : parseDescriptions none f.description.sub (f.home ++ [(f.name, f.items)]) p = .ok (new, p + n)) :
    s.newArrayItem m home name = .ok (s', m') ↔ f.items + 1 < 256 ^ f.width ∧ ∃ v₁ m₁ v₂,
      s.buffer.pinsert m (List.replicate n 0) p = some (v₁, m₁) ∧
        v₁.pwrite m₁ (littleEndian f.width (f.items + 1)) f.offset false = some (v₂, m') ∧
          s' = ⟨s.description, s.startOffset, pushBack (adjustOffsets f.offset n s.fields) i f new, v₂⟩ := by
  have hnumber : ofLittleEndian (littleEndian f.width f.items) = f.items := by
    rw [ofLittleEndian_littleEndian]
    exact Nat.mod_eq_of_lt hsmall
  unfold newArrayItem
  simp only [hf, ha, hwidth, hcount, need, hnumber, hp, hnew, getCurrentSize_new hd hnew, bind, Except.bind, pure, Except.pure,
    Nat.add_sub_cancel_left]
  rw [if_neg (by simp)]
  rcases Nat.lt_or_ge (f.items + 1) (256 ^ f.width) with hn | hn
  · rw [if_neg (Nat.not_le.mpr hn)]
    cases hinsert : s.buffer.pinsert m (List.replicate n 0) p with
    | none =>
      refine iff_of_false (fun h => by cases h) ?_
      rintro ⟨-, _, _, _, heq, -⟩
      cases heq
    | some r =>
      obtain ⟨v₁, m₁⟩ := r
      dsimp only
      cases hwrite : v₁.pwrite m₁ (littleEndian f.width (f.items + 1)) f.offset false with
      | none =>
        refine iff_of_false (fun h => by cases h) ?_
        rintro ⟨-, _, _, _, heq, hnone, -⟩
        obtain ⟨rfl, rfl⟩ := Prod.mk.inj (Option.some.inj heq)
        rw [hwrite] at hnone
        cases hnone
      | some r =>
        obtain ⟨v₂, m₂⟩ := r
        constructor
        · intro h
          obtain ⟨rfl, rfl⟩ := Prod.mk.inj (Except.ok.inj h)
          exact ⟨hn, v₁, m₁, v₂, rfl, hwrite, rfl⟩
        · rintro ⟨-, _, _, v, heq, hsome, rfl⟩
          obtain ⟨rfl, rfl⟩ := Prod.mk.inj (Option.some.inj heq)
          rw [hwrite] at hsome
          obtain ⟨rfl, rfl⟩ := Prod.mk.inj (Option.some.inj hsome)
          rfl
  · rw [if_pos hn]
    exact iff_of_false (fun h => by cases h) fun h => absurd h.1 (Nat.not_lt.mpr hn)

/-! ### The result -/

section
variable {e x : Nat} {l : List Field} {g : Field} {front₀ items₀ back₀ front items back : List Field}

/-- Where the place of the item is the end of the array. -/
theorem itemOffset_eq (h : Located s (content m s.buffer.buffers) i f e x l g front₀ items₀ back₀ front items back) :
    itemOffset s.fields home i f = x ↔ (nextField s.fields i f).isSome = true ∨ getCurrentSize s.fields home = x := by
  unfold itemOffset
  rcases h.next with hnone | ⟨a, ha, hoffset⟩
  · rw [hnone]
    simp
  · rw [ha]
    simp [hoffset]

/-- An item that is put at the end of the array, or has no bytes, where no item that is there moves. -/
theorem appendsItem_of (hc : s.Consistent m) (hf : getField s.fields home name = .ok (i, f)) (ha : isArray f.type = true)
    (h : Located s (content m s.buffer.buffers) i f e x l g front₀ items₀ back₀ front items back) (hd : f.description.sub.Valid)
    (hr : Appendable s.buffer f.width f.offset n x) (hn : f.items + 1 < 256 ^ f.width) (hp : itemOffset s.fields home i f = p)
    (hnewp : parseDescriptions none f.description.sub (f.home ++ [(f.name, f.items)]) p = .ok (new, p + n))
    (hnewx : parseDescriptions none f.description.sub (f.home ++ [(f.name, f.items)]) x = .ok (new, x + n))
    (hplace : n = 0 ∨ p = x) (hkept : n = 0 ∨ items = []) : s.AppendsItem m home name i f := by
  obtain ⟨hwidth, hsmall, hcount⟩ := h.count rfl hc.sound
  have hpos : 0 < f.width := hwidth ▸ (isArray_shape ha).2
  have hwx := h.below.le
  have hxe := h.behind.le
  have hinside := h.inside
  have hx : x ≤ (content m s.buffer.buffers).length := by omega
  obtain ⟨v₁, m₁, v₂, m₂, hinsert, hwrite, hsound, hcontent⟩ := append_buffer hc.sound hr rfl (littleEndian_length f.width (f.items + 1)) hwx hx
  have hinsert' : s.buffer.pinsert m (List.replicate n 0) p = some (v₁, m₁) := by
    rcases hplace with rfl | rfl
    · exact hinsert
    · exact hinsert
  have hset := (newArrayItem_iff hf ha hwidth hcount hsmall hd hp hnewp).mpr ⟨hn, v₁, m₁, v₂, hinsert', hwrite, rfl⟩
  have hitems : (items.map fun a => { a with offset := a.offset + n }) = items := by
    rcases hkept with rfl | rfl
    · exact List.map_id items
    · rfl
  have hback : (back.map fun a => { a with offset := a.offset + n }) = back.map (Field.move x (x + n)) := by
    refine List.map_congr_left fun a ha => ?_
    have hle := (h.behind.fields a ha).1
    have hoffset : a.offset + n = x + n + (a.offset - x) := by omega
    rw [Field.move, hoffset]
  rw [h.appended hpos, hitems, hback] at hset
  obtain ⟨hbefore, hnumber, hmiddle, hzeros, hbehind⟩ := appended_bytes hcontent (littleEndian_length ..) hwx (by omega)
  obtain ⟨r, e', hparse, hsame⟩ := h.parsed ha hn hnewx hcontent
  have hthere : v₂.buffers ≠ [] := fun hnil => by
    have hright := hmiddle.right
    rw [hnil] at hright
    exact absurd hright (by show ¬_ ≤ 0; omega)
  refine ⟨_, m₂, front, items, new, back.map (Field.move x (x + n)), hset, rfl, h.index, ?_, fun a ha => ⟨parse_prefix_home hnewx a ha, ?_⟩, ?_,
    by rw [h.takeWhile], rfl, rfl, ⟨hsound, hthere, r, e', ?_, hsame.symm⟩⟩
  · have hright := hmiddle.right
    rw [hwidth, VirtualBuffer.pread_slice hsound]
    exact (pread_ofBytes (by omega)).trans (congrArg some hnumber)
  · obtain ⟨hle, hin⟩ := (parse_bounded hnewx).fields a ha
    have hzero := hzeros.sub (k := a.offset - x) (w := a.width) (by omega)
    rw [Nat.add_sub_cancel' hle] at hzero
    rw [VirtualBuffer.pread_slice hsound]
    refine (pread_ofBytes hzero.right).trans (congrArg some (hzero.bytes.trans ?_))
    rw [List.drop_replicate, List.take_replicate, Nat.min_eq_left (by omega)]
  · have herase : s.fields.eraseIdx i = front ++ items ++ back := by
      rw [h.fields, ← h.index, List.append_assoc, List.cons_append, List.eraseIdx_append_of_length_le (Nat.le_refl _), Nat.sub_self,
        List.eraseIdx_cons_zero, List.append_assoc]
    have hvalues : ∀ {r k k' w}, Bounded k (k + w) r → SameBytes (content m s.buffer.buffers) (content m₂ v₂.buffers) k k' w →
        (r.map (Field.move k k')).map (value ⟨s.description, s.startOffset, [], v₂⟩ m₂) = r.map (s.value m) :=
      map_value ⟨s.description, s.startOffset, [], v₂⟩ hc.sound hsound
    have hfrontv := hvalues (by rw [Nat.add_sub_cancel' h.before.le]; exact h.before) (hbefore (by rw [Nat.add_sub_cancel' h.before.le]))
    have hitemsv := hvalues (by rw [Nat.add_sub_cancel' hwx]; exact h.below) hmiddle
    have hbackv := hvalues (by rw [Nat.add_sub_cancel' hxe]; exact h.behind) (hbehind (by omega))
    rw [map_move_self h.before] at hfrontv
    rw [map_move_self h.below] at hitemsv
    rw [herase, List.map_append, List.map_append, List.map_append, List.map_append, ← hfrontv, ← hitemsv, ← hbackv]
    rfl
  · rw [VirtualBuffer.access_eq hsound hthere]
    exact hparse

/-- The items are the ones that are there, so that the bytes of the item move none of them. -/
theorem items_kept {l' items' new' back' : List Field}
    (heq : l ++ f :: (items.map fun a => { a with offset := a.offset + n }) ++ new ++ back = l' ++ f :: items' ++ new' ++ back')
    (hlength : l.length = l'.length) (hoffsets : items'.map Field.offset = items.map Field.offset) : n = 0 ∨ items = [] := by
  have hcount : (items.map fun a => ({ a with offset := a.offset + n } : Field)).length = items'.length := by
    rw [List.length_map, ← List.length_map (f := Field.offset), ← hoffsets, List.length_map]
  simp only [List.append_assoc, List.cons_append] at heq
  have hitems := (List.append_inj (List.cons.inj (List.append_inj heq hlength).2).2 hcount).1
  rw [← hitems] at hoffsets
  cases items with
  | nil => exact .inr rfl
  | cons a items =>
    have hhead : a.offset + n = a.offset := (List.cons.inj hoffsets).1
    exact .inl (by omega)

/-- What is parsed behind an insertion of no bytes has the item where the array ends. -/
theorem place_of_parsed {l : List Field} {b : Field} {new' others others' : List Field}
    (heq : (l ++ items ++ new ++ back).map Field.uncounted = (l ++ items ++ new' ++ back').map Field.uncounted)
    (hnew : new = g :: others) (hnew' : new' = b :: others') : g.offset = b.offset := by
  simp only [List.map_append, List.append_assoc, List.append_cancel_left_eq, hnew, hnew', List.map_cons, List.cons_append] at heq
  exact uncounted_eq (List.cons.inj heq).1 Field.uncounted_offset

/-- The fields of the item are below the array. -/
theorem below_of_new (h : parseDescriptions none f.description.sub (f.home ++ [(f.name, f.items)]) p = .ok (new, e)) :
    ∀ a ∈ new, f.below a = true := by
  intro a ha
  have hle := (parse_prefix_home h a ha).length_le
  rw [List.length_append, List.length_singleton] at hle
  exact decide_eq_true hle

/-- The place of an item that is appended, and what may move. -/
theorem AppendsItem.place (happ : s.AppendsItem m home name i f) (hc : s.Consistent m) (hv : s.description.Valid)
    (hf : getField s.fields home name = .ok (i, f)) (ha : isArray f.type = true)
    (h : Located s (content m s.buffer.buffers) i f e x l g front₀ items₀ back₀ front items back) (hd : f.description.sub.Valid)
    (hr : Appendable s.buffer f.width f.offset n x) (hp : itemOffset s.fields home i f = p)
    (hnewp : parseDescriptions none f.description.sub (f.home ++ [(f.name, f.items)]) p = .ok (new, p + n))
    (hnewx : ∃ newx, parseDescriptions none f.description.sub (f.home ++ [(f.name, f.items)]) x = .ok (newx, x + n)) :
    f.items + 1 < 256 ^ f.width ∧ (f.description.sub ≠ .typeEnd → p = x ∧ (n = 0 ∨ f.items = 0)) := by
  obtain ⟨hwidth, hsmall, hcount⟩ := h.count rfl hc.sound
  have hpos : 0 < f.width := hwidth ▸ (isArray_shape ha).2
  obtain ⟨s', m', front', items', new', back', hset, hfields', hindex, -, -, -, hoffsets, hdescription, hstart, hc'⟩ := happ
  obtain ⟨hn, v₁, m₁, v₂, hinsert, hwrite, rfl⟩ := (newArrayItem_iff hf ha hwidth hcount hsmall hd hp hnewp).mp hset
  refine ⟨hn, fun hsub => ?_⟩
  have hfields := h.appended hpos n new
  obtain ⟨a, others, hnew, -, hfirst⟩ := parse_first hd hsub hnewp
  rw [h.takeWhile] at hoffsets
  have hkept := items_kept (hfields.symm.trans hfields') (h.index.trans hindex.symm) hoffsets
  have hempty : items = [] → f.items = 0 := fun hnil => Classical.by_contradiction fun hne => by
    obtain ⟨b, hb, -⟩ := h.first hsub hne
    rw [hnil] at hb
    cases hb
  refine ⟨?_, hkept.imp_right hempty⟩
  rcases hkept with rfl | hnil
  · -- No byte is inserted: the bytes are those of an item behind the other ones.
    obtain ⟨newx, hnewx⟩ := hnewx
    obtain ⟨b, others', hnewb, -, hfirstb⟩ := parse_first hd hsub hnewx
    have hwx := h.below.le
    have hxe := h.behind.le
    have hinside := h.inside
    obtain ⟨v, k, v', k', hinsert', hwrite', hsound, hcontent⟩ := append_buffer (m := m) hc.sound hr rfl
      (littleEndian_length f.width (f.items + 1)) hwx (by omega)
    obtain ⟨rfl, rfl⟩ := Prod.mk.inj (Option.some.inj (hinsert.symm.trans hinsert'))
    obtain ⟨rfl, rfl⟩ := Prod.mk.inj (Option.some.inj (hwrite.symm.trans hwrite'))
    obtain ⟨r, e', hparse, hsame⟩ := h.parsed ha hn hnewx hcontent
    obtain ⟨r', e'', hparse', hsame'⟩ := hc'.fields
    rw [VirtualBuffer.access_eq hsound hc'.there] at hparse'
    obtain ⟨rfl, rfl⟩ := Prod.mk.inj (Except.ok.inj (hparse.symm.trans hparse'))
    have heq := hsame'.trans hsame
    simp only [hfields, Nat.add_zero, List.map_id'] at heq
    rw [← hfirst, ← hfirstb]
    exact place_of_parsed heq hnew hnewb
  · -- The item is the first one, and starts behind the number.
    have hget : (Structure.pushBack (adjustOffsets f.offset n s.fields) i f new)[i]? = some { f with items := f.items + 1 } := by
      rw [hfields, ← h.index]
      simp
    obtain ⟨e', x', l', g', front₁, items₁, back₁, front₂, items₂, back₂, h'⟩ := hc'.located hv hget ha
    obtain ⟨b, hb, hoffset⟩ := h'.first hsub (Nat.succ_ne_zero _)
    have hdrop : (Structure.pushBack (adjustOffsets f.offset n s.fields) i f new).drop (i + 1) =
        new ++ back.map fun a => { a with offset := a.offset + n } := by
      rw [hfields, ← h.index, hnil]
      simp [List.drop_append]
    have hitems : items₂ = new := by
      have hbelow := h'.takeWhile
      dsimp only at hbelow
      rw [hdrop] at hbelow
      exact hbelow.symm.trans (takeWhile_dropWhile (below_of_new hnewp) (h.after_moved n)).1
    rw [hitems, hnew] at hb
    obtain rfl := Option.some.inj hb
    rw [(h.empty (hempty hnil)).2, ← hfirst]
    exact hoffset

/-- `new_array_item()` does what is expected exactly where there is room for one more, and the item has no fields or is put at the end of
the array, with no bytes or as the first one. -/
theorem appendsItem_iff (hc : s.Consistent m) (hv : s.description.Valid) (hf : getField s.fields home name = .ok (i, f))
    (ha : isArray f.type = true)
    (hr : Appendable s.buffer (typeFieldSize f.type) f.offset f.description.sub.emptySize (arrayEnd s.fields i f)) :
    s.AppendsItem m home name i f ↔ f.items + 1 < 256 ^ typeFieldSize f.type ∧ (f.description.sub = .typeEnd ∨
      ((nextField s.fields i f).isSome = true ∨ getCurrentSize s.fields home = arrayEnd s.fields i f) ∧
        (f.description.sub.emptySize = 0 ∨ f.items = 0)) := by
  obtain ⟨e, x, l, g, front₀, items₀, back₀, front, items, back, h⟩ := hc.located hv (getField_get hf) ha
  have hdescription : g.description = f.description := uncounted_eq h.same Field.uncounted_description
  have hd : f.description.sub.Valid := hdescription ▸ h.valid.sub h.array.sub
  obtain ⟨hwidth, -, -⟩ := h.count rfl hc.sound
  obtain ⟨newp, hnewp⟩ := parse_none hd (f.home ++ [(f.name, f.items)]) (itemOffset s.fields home i f)
  obtain ⟨newx, hnewx⟩ := parse_none hd (f.home ++ [(f.name, f.items)]) x
  rw [h.arrayEnd, hwidth] at hr
  rw [h.arrayEnd, hwidth, ← itemOffset_eq h]
  constructor
  · intro happ
    obtain ⟨hn, hplace⟩ := happ.place hc hv hf ha h hd hr rfl hnewp ⟨newx, hnewx⟩
    exact ⟨hn, Classical.or_iff_not_imp_left.mpr hplace⟩
  · rintro ⟨hn, hend | ⟨hplace, hkept⟩⟩
    · have hzero : f.description.sub.emptySize = 0 := by rw [hend]; rfl
      rw [hzero] at hr hnewp hnewx
      rw [hend] at hnewp hnewx
      obtain rfl := (Prod.mk.inj (Except.ok.inj hnewp)).1
      rw [← hend] at hnewp
      exact appendsItem_of hc hf ha h hd hr hn rfl hnewp (by rw [hend]; rfl) (.inl rfl) (.inl rfl)
    · rw [hplace] at hnewp
      exact appendsItem_of hc hf ha h hd hr hn hplace hnewp hnewp (.inr rfl) (hkept.imp_right fun hzero => (h.empty hzero).1)

/-- The description of an item: a number. -/
def number : Description := .field [0x62] .uint8 .null .typeEnd

/-- An array of numbers. -/
def numbers (items : Bytes) : Structure where
  description := .field [0x61] .array8 number .typeEnd
  fields := made [0x61] .array8 number .typeEnd [] items.length 0 :: items.mapIdx fun k _ => made [0x62] .uint8 .null .typeEnd [([0x61], k)] 1 (k + 1)
  buffer := { buffers := [{ data := .ofNat items.length :: items, capacity := items.length + 1, size := items.length + 1 }],
              totalSize := items.length + 1 }

theorem numbers_consistent {items : Bytes} (h : parseDescriptions ((numbers items).buffer.access fun _ => 0) (numbers items).description [] 0 =
    .ok ((numbers items).fields, e)) : (numbers items).Consistent fun _ => 0 :=
  ⟨⟨fun b hb => by rw [List.mem_singleton.mp hb]; exact fun _ => Nat.le_refl _, rfl⟩, nofun, _, e, h, rfl⟩

theorem numbers_valid (items : Bytes) : (numbers items).description.Valid :=
  ⟨by decide, fun _ => ⟨by decide, nofun, fun _ => rfl, by decide, trivial⟩, nofun, by decide, trivial⟩

theorem appendsItem_iff_numbers : (numbers []).AppendsItem (fun _ => 0) [] [0x61] 0 (made [0x61] .array8 number .typeEnd [] 0 0) := by
  have hown : ∀ b ∈ (numbers []).buffer.buffers, b.block = none := fun b hb => by rw [List.mem_singleton.mp hb]
  exact (appendsItem_iff (numbers_consistent (e := 1) rfl) (numbers_valid []) rfl rfl
    ⟨VirtualBuffer.writable_own hown, fun _ _ hh => hown _ (holder_mem hh)⟩).mpr ⟨by decide, .inr ⟨.inr rfl, .inr rfl⟩⟩

/-- The number that is there moves. -/
theorem not_appendsItem : ¬∀ (s : Structure) (m : Memory) (home : Home) (name : Bytes) (i : Nat) (f : Field), s.Consistent m →
    s.description.Valid → getField s.fields home name = .ok (i, f) → isArray f.type = true → f.items + 1 < 256 ^ typeFieldSize f.type →
      s.AppendsItem m home name i f := by
  intro hall
  obtain ⟨s', m', front, items, new, back, hset, hfields, hindex, -, -, -, hoffsets, -, -, -⟩ := hall (numbers [7]) (fun _ => 0) [] [0x61] 0 _
    (numbers_consistent (e := 2) rfl) (numbers_valid [7]) rfl rfl (by decide)
  obtain ⟨rfl, rfl⟩ := Prod.mk.inj (Except.ok.inj hset)
  obtain rfl := List.length_eq_zero_iff.mp hindex
  have htail := (List.cons.inj hfields).2
  cases items with
  | nil => cases hoffsets
  | cons a items =>
    have hmoved : a.offset = 2 := by rw [← (List.cons.inj htail).1]; rfl
    have hstill : a.offset = 1 := (List.cons.inj hoffsets).1
    omega

end

end Structure

end Snapwebsites.Snapdatabase.Data
