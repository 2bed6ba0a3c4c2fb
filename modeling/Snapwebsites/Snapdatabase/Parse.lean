import Snapwebsites.Snapdatabase.Structure

/-! # What is parsed

`parse_descriptions()` goes over the bytes once: a field is where the one before it ends, and what is behind a field depends on it
only by the place where it starts. So bytes that stand at another place have the same fields there, and where the bytes of one field
are replaced, the fields in front of it stay and those behind it move. -/

namespace Snapwebsites.Snapdatabase.Data

/-! ### Bytes -/

/-- The access to bytes. -/
def Access.ofBytes (c : Bytes) : Access where
  size := c.length
  pread size offset := if size = 0 then some [] else if offset + size ≤ c.length then some ((c.drop offset).take size) else none

theorem pread_ofBytes {c : Bytes} {w o : Nat} (h : o + w ≤ c.length) : (Access.ofBytes c).pread w o = some ((c.drop o).take w) := by
  unfold Access.ofBytes
  dsimp only
  rw [if_pos h]
  split
  · rename_i hw
    rw [hw, List.take_zero]
  · rfl

theorem VirtualBuffer.pread_slice {v : VirtualBuffer} (h : v.Sound) (m : Memory) (n o : Nat) :
    v.pread m n o true = (Access.ofBytes (content m v.buffers)).pread n o := by
  have hlength : (content m v.buffers).length = v.totalSize := (length_content h.buffers).trans h.totalSize.symm
  unfold VirtualBuffer.pread VirtualBuffer.isDataAvailable Access.ofBytes
  dsimp only
  rw [hlength]
  split
  · rfl
  · rcases Nat.lt_or_ge v.totalSize (o + n) with hlt | hle
    · simp [Nat.not_le.mpr hlt]
    · rw [if_neg (by simp [hle]), if_pos hle, preadFrom_eq h.buffers (h.totalSize ▸ hle)]

theorem VirtualBuffer.access_eq {v : VirtualBuffer} (h : v.Sound) (hne : v.buffers ≠ []) (m : Memory) :
    v.access m = some (.ofBytes (content m v.buffers)) := by
  have hlength : (content m v.buffers).length = v.totalSize := (length_content h.buffers).trans h.totalSize.symm
  rw [VirtualBuffer.access, if_neg hne, Access.ofBytes, hlength]
  simp only [pread_slice h, Access.ofBytes, hlength]

/-- The same bytes at two places. -/
structure SameBytes (c c' : Bytes) (o o' n : Nat) : Prop where
  left : o + n ≤ c.length
  right : o' + n ≤ c'.length
  bytes : (c'.drop o').take n = (c.drop o).take n

section Same
variable {c c' : Bytes} {o o' n k w : Nat}

theorem SameBytes.sub (h : SameBytes c c' o o' n) (hk : k + w ≤ n) : SameBytes c c' (o + k) (o' + k) w := by
  obtain ⟨hleft, hright, hbytes⟩ := h
  refine ⟨by omega, by omega, ?_⟩
  have hcut : ∀ (s : Bytes) (p : Nat), (s.drop (p + k)).take w = (((s.drop p).take n).drop k).take w := fun s p => by
    rw [List.drop_take, List.drop_drop, List.take_take, Nat.min_eq_left (by omega)]
  rw [hcut, hcut, hbytes]

theorem SameBytes.pread (h : SameBytes c c' o o' n) (hw : w ≤ n) : (Access.ofBytes c').pread w o' = (Access.ofBytes c).pread w o := by
  have hsub : SameBytes c c' o o' w := h.sub (k := 0) (by omega)
  rw [pread_ofBytes hsub.left, pread_ofBytes hsub.right, hsub.bytes]

theorem SameBytes.of_take (h : c'.take n = c.take n) (hn : n ≤ c.length) (hn' : n ≤ c'.length) (hw : o + w ≤ n) : SameBytes c c' o o w := by
  have hall : SameBytes c c' 0 0 n := ⟨by omega, by omega, by rw [List.drop_zero, List.drop_zero, h]⟩
  simpa using hall.sub hw

theorem SameBytes.of_drop (h : c'.drop o' = c.drop o) (hn : o + n ≤ c.length) (hn' : o' ≤ c'.length) : SameBytes c c' o o' n := by
  have hlength := congrArg List.length h
  rw [List.length_drop, List.length_drop] at hlength
  exact ⟨hn, by omega, by rw [h]⟩

/-- What stands around bytes that are replaced. -/
theorem same_around {r : Bytes} {x : Nat} (h : c' = c.take o ++ r ++ c.drop x) (ho : o ≤ c.length) :
    (∀ {k w}, k + w ≤ o → SameBytes c c' k k w) ∧ ∀ {n}, x + n ≤ c.length → SameBytes c c' x (o + r.length) n := by
  have htake : (c.take o).length = o := by rw [List.length_take, Nat.min_eq_left ho]
  have hlength : c'.length = o + r.length + (c.length - x) := by
    rw [h, List.length_append, List.length_append, htake, List.length_drop]
  refine ⟨fun hk => .of_take ?_ ho (by omega) hk, fun hn => .of_drop ?_ hn (by omega)⟩
  · rw [h, List.append_assoc, List.take_left' htake]
  · rw [h, List.drop_left' (by rw [List.length_append, htake])]

end Same

/-! ### Parsing that succeeds -/

section Ok
variable {a : Option Access} {p : Nat → Nat → Except StructureError (List Field × Nat)} {name : Bytes} {type : StructType}
  {sub rest : Description} {home : Home} {f : Field} {l items : List Field} {n k o x e size next : Nat}

theorem map_eq_ok {ε α β : Type} {x : Except ε α} {g : α → β} {r : β} : x.map g = .ok r ↔ ∃ y, x = .ok y ∧ g y = r := by
  cases x <;> simp [Except.map]

theorem parseItems_zero : parseItems p 0 k o = .ok (l, e) ↔ l = [] ∧ e = o := by
  rw [parseItems, Except.ok.injEq, Prod.mk.injEq]
  exact and_congr eq_comm eq_comm

theorem parseItems_succ : parseItems p (n + 1) k o = .ok (l, e) ↔
    ∃ item x others, p k o = .ok (item, x) ∧ parseItems p n (k + 1) x = .ok (others, e) ∧ l = item ++ others := by
  rw [parseItems]
  cases p k o with
  | error => simp
  | ok r =>
    rw [map_eq_ok]
    constructor
    · rintro ⟨⟨others, e'⟩, hothers, heq⟩
      obtain ⟨rfl, rfl⟩ := Prod.mk.inj heq
      exact ⟨_, _, _, rfl, hothers, rfl⟩
    · rintro ⟨item, x, others, hitem, hothers, rfl⟩
      obtain rfl := Except.ok.inj hitem
      exact ⟨_, hothers, rfl⟩

/-- The field that is made of a description. -/
def made (name : Bytes) (type : StructType) (sub rest : Description) (home : Home) (size offset : Nat) : Field :=
  { description := .field name type sub rest, home, name := fieldName name type, type, size, offset, items := if sub = .null then 0 else size }

theorem parseField_ok : parseField a p name type sub rest home o = .ok (f, items, x) ↔
    ∃ size next, fieldHeader a type o = .ok (size, next) ∧ (∀ b, a = some b → next ≤ b.size) ∧ f = made name type sub rest home size o ∧
      (sub ≠ .null ↔ hasSubDefs type = true) ∧ parseItems p f.items 0 next = .ok (items, x) := by
  rw [parseField]
  cases fieldHeader a type o with
  | error => simp
  | ok r =>
    obtain ⟨size, next⟩ := r
    have hsize : (a.any fun b => decide (next > b.size)) = true ↔ ¬∀ b, a = some b → next ≤ b.size := by
      cases a <;> simp
    constructor
    · intro h
      dsimp only at h
      split at h
      · cases h
      · rename_i hin
        rw [hsize, not_not] at hin
        refine ⟨size, next, rfl, hin, ?_⟩
        split at h
        · rename_i hsub
          split at h
          · rename_i hdefs
            obtain ⟨r, hr, heq⟩ := map_eq_ok.mp h
            obtain ⟨rfl, rfl, rfl⟩ := heq
            exact ⟨by rw [made, if_neg hsub], iff_of_true hsub hdefs, hr⟩
          · cases h
        · rename_i hsub
          split at h
          · cases h
          · rename_i hdefs
            obtain ⟨rfl, rfl, rfl⟩ := h
            have hnull := not_not.mp hsub
            refine ⟨by rw [made, if_pos hnull], iff_of_false hsub hdefs, ?_⟩
            dsimp only
            rw [if_pos hnull]
            rfl
    · rintro ⟨size', next', heq, hin, rfl, hiff, hitems⟩
      obtain ⟨rfl, rfl⟩ := Prod.mk.inj (Except.ok.inj heq)
      dsimp only
      rw [if_neg (by rw [hsize, not_not]; exact hin)]
      by_cases hsub : sub = .null
      · rw [if_neg (not_not.mpr hsub), if_neg (fun hdefs => hiff.mpr hdefs hsub)]
        rw [made, if_pos hsub] at hitems
        obtain ⟨rfl, rfl⟩ := parseItems_zero.mp hitems
        rfl
      · rw [made, if_neg hsub] at hitems
        rw [if_pos hsub, if_pos (hiff.mp hsub)]
        exact map_eq_ok.mpr ⟨_, hitems, rfl⟩

/-- The items of a field, where `parse_descriptions()` is for one of them. -/
abbrev parseSub (a : Option Access) (name : Bytes) (type : StructType) (sub : Description) (home : Home) :
    Nat → Nat → Except StructureError (List Field × Nat) :=
  fun index offset => parseDescriptions a sub (home ++ [(fieldName name type, index)]) offset

theorem parse_field : parseDescriptions a (.field name type sub rest) home o = .ok (l, e) ↔
    ∃ f items x others, parseField a (parseSub a name type sub home) name type sub rest home o = .ok (f, items, x) ∧
      parseDescriptions a rest home x = .ok (others, e) ∧ l = if rest.mentions f.name then others else f :: items ++ others := by
  rw [parseDescriptions]
  cases parseField a (parseSub a name type sub home) name type sub rest home o with
  | error => simp
  | ok r =>
    dsimp only
    rw [map_eq_ok]
    constructor
    · rintro ⟨⟨others, e'⟩, hothers, heq⟩
      obtain ⟨rfl, rfl⟩ := Prod.mk.inj heq
      exact ⟨_, _, _, _, rfl, hothers, rfl⟩
    · rintro ⟨f, items, x, others, hfield, hothers, rfl⟩
      obtain rfl := Except.ok.inj hfield
      exact ⟨_, hothers, rfl⟩

end Ok

/-! ### Places -/

/-- The fields have their bytes between two places. -/
structure Bounded (o e : Nat) (l : List Field) : Prop where
  le : o ≤ e
  fields : ∀ f ∈ l, o ≤ f.offset ∧ f.offset + f.width ≤ e

section Places
variable {a : Option Access} {p : Nat → Nat → Except StructureError (List Field × Nat)} {name : Bytes} {type : StructType}
  {sub rest d : Description} {home : Home} {f : Field} {l l' items : List Field} {n k o x e size next : Nat}

theorem Bounded.nil (o : Nat) : Bounded o o [] := ⟨Nat.le_refl _, nofun⟩

theorem Bounded.append (h : Bounded o x l) (h' : Bounded x e l') : Bounded o e (l ++ l') := by
  refine ⟨h.le.trans h'.le, List.forall_mem_append.mpr ⟨fun f hf => ?_, fun f hf => ?_⟩⟩
  · exact ⟨(h.fields f hf).1, (h.fields f hf).2.trans h'.le⟩
  · exact ⟨h.le.trans (h'.fields f hf).1, (h'.fields f hf).2⟩

theorem fieldHeader_width (name : Bytes) (sub rest : Description) (home : Home) (h : fieldHeader a type o = .ok (size, next)) :
    next = o + (made name type sub rest home size o).width := by
  unfold fieldHeader at h
  unfold Field.width made
  dsimp only
  cases hshape : shape type <;> rw [hshape] at h <;> dsimp only at h ⊢
  · obtain ⟨rfl, rfl⟩ := Prod.mk.inj (Except.ok.inj h)
    rfl
  · obtain ⟨_, -, heq⟩ := map_eq_ok.mp h
    obtain ⟨rfl, rfl⟩ := Prod.mk.inj heq
    omega
  · exact (Prod.mk.inj (Except.ok.inj h)).2.symm
  · obtain ⟨_, -, heq⟩ := map_eq_ok.mp h
    exact (Prod.mk.inj heq).2.symm
  · cases h

theorem parseItems_bounded (hp : ∀ {k o l e}, p k o = .ok (l, e) → Bounded o e l) (h : parseItems p n k o = .ok (l, e)) : Bounded o e l := by
  induction n generalizing k o l with
  | zero =>
    obtain ⟨rfl, rfl⟩ := parseItems_zero.mp h
    exact .nil _
  | succ n ih =>
    obtain ⟨item, x, others, hitem, hothers, rfl⟩ := parseItems_succ.mp h
    exact (hp hitem).append (ih hothers)

theorem parseField_bounded (hp : ∀ {k o l e}, p k o = .ok (l, e) → Bounded o e l)
    (h : parseField a p name type sub rest home o = .ok (f, items, x)) : Bounded o x (f :: items) ∧ f.offset = o ∧
      Bounded (o + f.width) x items := by
  obtain ⟨size, next, hheader, -, rfl, -, hitems⟩ := parseField_ok.mp h
  obtain rfl := fieldHeader_width name sub rest home hheader
  have hbelow := parseItems_bounded hp hitems
  refine ⟨Bounded.append (l := [_]) ⟨Nat.le_add_right .., fun g hg => ?_⟩ hbelow, rfl, hbelow⟩
  rw [List.mem_singleton.mp hg]
  exact ⟨Nat.le_refl _, Nat.le_refl _⟩

theorem parse_bounded (h : parseDescriptions a d home o = .ok (l, e)) : Bounded o e l := by
  induction d generalizing home o l e with
  | null => cases h
  | typeEnd =>
    obtain ⟨rfl, rfl⟩ := Prod.mk.inj (Except.ok.inj h)
    exact .nil _
  | field name type sub rest ihsub ihrest =>
    obtain ⟨f, items, x, others, hfield, hothers, rfl⟩ := parse_field.mp h
    have hall := (parseField_bounded ihsub hfield).1.append (ihrest hothers)
    split
    · exact ⟨hall.le, fun g hg => hall.fields g (List.mem_append_right _ hg)⟩
    · exact hall

theorem parseItems_le {c : Bytes} (hp : ∀ {k o l e}, p k o = .ok (l, e) → o ≤ c.length → e ≤ c.length) (ho : o ≤ c.length)
    (h : parseItems p n k o = .ok (l, e)) : e ≤ c.length := by
  induction n generalizing k o l with
  | zero =>
    obtain ⟨-, rfl⟩ := parseItems_zero.mp h
    exact ho
  | succ n ih =>
    obtain ⟨item, x, others, hitem, hothers, -⟩ := parseItems_succ.mp h
    exact ih (hp hitem ho) hothers

/-- The fields end within the bytes. -/
theorem parse_le {c : Bytes} (h : parseDescriptions (some (.ofBytes c)) d home o = .ok (l, e)) (ho : o ≤ c.length) : e ≤ c.length := by
  induction d generalizing home o l e with
  | null => cases h
  | typeEnd =>
    obtain ⟨-, rfl⟩ := Prod.mk.inj (Except.ok.inj h)
    exact ho
  | field name type sub rest ihsub ihrest =>
    obtain ⟨f, items, x, others, hfield, hothers, -⟩ := parse_field.mp h
    obtain ⟨size, next, -, hin, -, -, hitems⟩ := parseField_ok.mp hfield
    exact ihrest hothers (parseItems_le ihsub (hin _ rfl) hitems)

end Places

/-! ### Other places -/

/-- The field that stands at another place. -/
def Field.move (o o' : Nat) (f : Field) : Field := { f with offset := o' + (f.offset - o) }

section Move
variable {c c' : Bytes} {p p' : Nat → Nat → Except StructureError (List Field × Nat)} {name : Bytes} {type : StructType}
  {sub rest d : Description} {home : Home} {f : Field} {l items : List Field} {n k o o' x e size next : Nat}

theorem map_move (h : Bounded x e l) (ho : o ≤ x) : l.map (Field.move x (o' + (x - o))) = l.map (Field.move o o') := by
  refine List.map_congr_left fun f hf => ?_
  have hle := (h.fields f hf).1
  have hoffset : o' + (x - o) + (f.offset - x) = o' + (f.offset - o) := by omega
  rw [Field.move, Field.move, hoffset]

theorem map_move_self (h : Bounded o e l) : l.map (Field.move o o) = l := by
  refine (List.map_congr_left fun f hf => ?_).trans (List.map_id l)
  rw [Field.move, Nat.add_sub_cancel' (h.fields f hf).1]
  rfl

theorem fieldHeader_moved (h : fieldHeader (some (.ofBytes c)) type o = .ok (size, next)) (hs : SameBytes c c' o o' n)
    (hn : next ≤ o + n) : fieldHeader (some (.ofBytes c')) type o' = .ok (size, o' + (next - o)) := by
  have hread : ∀ {w : Nat}, w ≤ n → readSize (some (.ofBytes c')) w o' = readSize (some (.ofBytes c)) w o := fun hw => by
    unfold readSize
    dsimp only
    rw [hs.pread hw]
  unfold fieldHeader at h ⊢
  cases hshape : shape type <;> rw [hshape] at h <;> dsimp only at h ⊢
  · obtain ⟨rfl, rfl⟩ := Prod.mk.inj (Except.ok.inj h)
    rw [Nat.add_sub_cancel_left]
  · obtain ⟨_, hnumber, heq⟩ := map_eq_ok.mp h
    obtain ⟨rfl, rfl⟩ := Prod.mk.inj heq
    rw [hread (by omega), hnumber]
    exact congrArg Except.ok (Prod.ext rfl (by dsimp only; omega))
  · obtain ⟨rfl, rfl⟩ := Prod.mk.inj (Except.ok.inj h)
    rw [Nat.sub_self, Nat.add_zero]
  · obtain ⟨_, hnumber, heq⟩ := map_eq_ok.mp h
    obtain ⟨rfl, rfl⟩ := Prod.mk.inj heq
    rw [hread (by omega), hnumber, Nat.add_sub_cancel_left]
    rfl
  · cases h

/-- What a parser makes of some bytes, another one makes of the same bytes at another place. -/
def Moves (c c' : Bytes) (p p' : Nat → Nat → Except StructureError (List Field × Nat)) : Prop :=
  ∀ {k o o' l e}, p k o = .ok (l, e) → SameBytes c c' o o' (e - o) → p' k o' = .ok (l.map (Field.move o o'), o' + (e - o))

theorem parseItems_moved (hb : ∀ {k o l e}, p k o = .ok (l, e) → Bounded o e l) (hp : Moves c c' p p')
    (h : parseItems p n k o = .ok (l, e)) (hs : SameBytes c c' o o' (e - o)) :
    parseItems p' n k o' = .ok (l.map (Field.move o o'), o' + (e - o)) := by
  induction n generalizing k o o' l with
  | zero =>
    obtain ⟨rfl, rfl⟩ := parseItems_zero.mp h
    exact parseItems_zero.mpr ⟨rfl, by omega⟩
  | succ n ih =>
    obtain ⟨item, x, others, hitem, hothers, rfl⟩ := parseItems_succ.mp h
    have hfirst := hb hitem
    have hbehind := parseItems_bounded hb hothers
    have hle := hfirst.le
    have hle' := hbehind.le
    have hx : o + (x - o) = x := by omega
    have hs' := hs.sub (k := x - o) (w := e - x) (by omega)
    rw [hx] at hs'
    refine parseItems_succ.mpr ⟨_, _, others.map (Field.move o o'), hp hitem (hs.sub (k := 0) (by omega)), ?_, List.map_append⟩
    rw [ih hothers hs', map_move hbehind hle]
    exact congrArg Except.ok (Prod.ext rfl (by dsimp only; omega))

theorem parseField_moved (hb : ∀ {k o l e}, p k o = .ok (l, e) → Bounded o e l) (hp : Moves c c' p p')
    (h : parseField (some (.ofBytes c)) p name type sub rest home o = .ok (f, items, x)) (hs : SameBytes c c' o o' (x - o)) :
    parseField (some (.ofBytes c')) p' name type sub rest home o' = .ok (f.move o o', items.map (Field.move o o'), o' + (x - o)) := by
  obtain ⟨size, next, hheader, -, rfl, hiff, hitems⟩ := parseField_ok.mp h
  have hbelow := parseItems_bounded hb hitems
  have hle := hbelow.le
  have hnext : o ≤ next := by
    rw [fieldHeader_width name sub rest home hheader]
    exact Nat.le_add_right ..
  have hx : o + (next - o) = next := by omega
  have hs' := hs.sub (k := next - o) (w := x - next) (by omega)
  rw [hx] at hs'
  have hright := hs.right
  refine parseField_ok.mpr ⟨size, o' + (next - o), fieldHeader_moved hheader hs (by omega), fun b hb => ?_, ?_, hiff, ?_⟩
  · obtain rfl := Option.some.inj hb
    show o' + (next - o) ≤ c'.length
    omega
  · rw [Field.move, made, made, Nat.sub_self, Nat.add_zero]
  · rw [← map_move hbelow hnext, show o' + (x - o) = o' + (next - o) + (x - next) by omega]
    exact parseItems_moved hb hp hitems hs'

/-- The same bytes at another place are the same fields there. -/
theorem parse_moved (h : parseDescriptions (some (.ofBytes c)) d home o = .ok (l, e)) (hs : SameBytes c c' o o' (e - o)) :
    parseDescriptions (some (.ofBytes c')) d home o' = .ok (l.map (Field.move o o'), o' + (e - o)) := by
  induction d generalizing home o o' l e with
  | null => cases h
  | typeEnd =>
    obtain ⟨rfl, rfl⟩ := Prod.mk.inj (Except.ok.inj h)
    rw [Nat.sub_self]
    rfl
  | field name type sub rest ihsub ihrest =>
    obtain ⟨f, items, x, others, hfield, hothers, rfl⟩ := parse_field.mp h
    have hfirst := (parseField_bounded parse_bounded hfield).1.le
    have hbehind := parse_bounded hothers
    have hle := hbehind.le
    have hx : o + (x - o) = x := by omega
    have hs' := hs.sub (k := x - o) (w := e - x) (by omega)
    rw [hx] at hs'
    refine parse_field.mpr ⟨_, _, _, others.map (Field.move o o'),
      parseField_moved parse_bounded (fun h hs => ihsub h hs) hfield (hs.sub (k := 0) (by omega)), ?_, ?_⟩
    · rw [ihrest hothers hs', map_move hbehind hfirst]
      exact congrArg Except.ok (Prod.ext rfl (by dsimp only; omega))
    · show _ = if rest.mentions f.name then _ else _
      split
      · rfl
      · rw [List.map_append, List.map_cons]

theorem parseSub_moves : Moves c c' (parseSub (some (.ofBytes c)) name type sub home) (parseSub (some (.ofBytes c')) name type sub home) :=
  fun h hs => parse_moved h hs

end Move

/-! ### Ways from the root -/

section Homes
variable {a : Option Access} {p : Nat → Nat → Except StructureError (List Field × Nat)} {name : Bytes} {type : StructType}
  {sub rest d : Description} {home : Home} {f g : Field} {l items : List Field} {n k o x e w : Nat}

theorem parseItems_forall {q : Field → Prop} (hp : ∀ {k o l e}, p k o = .ok (l, e) → ∀ g ∈ l, q g) (h : parseItems p n k o = .ok (l, e)) :
    ∀ g ∈ l, q g := by
  induction n generalizing k o l with
  | zero =>
    obtain ⟨rfl, -⟩ := parseItems_zero.mp h
    exact nofun
  | succ n ih =>
    obtain ⟨item, x, others, hitem, hothers, rfl⟩ := parseItems_succ.mp h
    exact List.forall_mem_append.mpr ⟨hp hitem, ih hothers⟩

theorem parseItems_head {q : Field → Prop} (hp : ∀ {k o l e}, p k o = .ok (l, e) → ∀ g ∈ l.head?, q g) (h : parseItems p n k o = .ok (l, e)) :
    ∀ g ∈ l.head?, q g := by
  induction n generalizing k o l with
  | zero =>
    obtain ⟨rfl, -⟩ := parseItems_zero.mp h
    exact nofun
  | succ n ih =>
    obtain ⟨item, x, others, hitem, hothers, rfl⟩ := parseItems_succ.mp h
    intro g hg
    rw [List.head?_append] at hg
    rcases Option.or_eq_some_iff.mp hg with hg | ⟨-, hg⟩
    · exact hp hitem g hg
    · exact ih hothers g hg

theorem parseField_made (h : parseField a p name type sub rest home o = .ok (f, items, x)) : ∃ size, f = made name type sub rest home size o := by
  obtain ⟨size, _, _, _, hf, _⟩ := parseField_ok.mp h
  exact ⟨size, hf⟩

/-- The way to a field goes through the structure that it is found in. -/
theorem parse_prefix_home (h : parseDescriptions a d home o = .ok (l, e)) : ∀ g ∈ l, home <+: g.home := by
  induction d generalizing home o l e with
  | null => cases h
  | typeEnd =>
    obtain ⟨rfl, -⟩ := Prod.mk.inj (Except.ok.inj h)
    exact nofun
  | field name type sub rest ihsub ihrest =>
    obtain ⟨f, items, x, others, hfield, hothers, rfl⟩ := parse_field.mp h
    obtain ⟨size, next, -, -, rfl, -, hitems⟩ := parseField_ok.mp hfield
    have hbelow : ∀ g ∈ items, home <+: g.home :=
      parseItems_forall (fun hp g hg => (List.prefix_append ..).trans (ihsub hp g hg)) hitems
    have hbehind := ihrest hothers
    split
    · exact hbehind
    · exact List.forall_mem_append.mpr ⟨List.forall_mem_cons.mpr ⟨List.prefix_rfl, hbelow⟩, hbehind⟩

theorem parse_length_home (h : parseDescriptions a d home o = .ok (l, e)) : ∀ g ∈ l, home.length ≤ g.home.length :=
  fun g hg => (parse_prefix_home h g hg).length_le

theorem parse_head (h : parseDescriptions a d home o = .ok (l, e)) : ∀ g ∈ l.head?, g.home = home := by
  induction d generalizing home o l e with
  | null => cases h
  | typeEnd =>
    obtain ⟨rfl, -⟩ := Prod.mk.inj (Except.ok.inj h)
    exact nofun
  | field name type sub rest ihsub ihrest =>
    obtain ⟨f, items, x, others, hfield, hothers, rfl⟩ := parse_field.mp h
    obtain ⟨size, rfl⟩ := parseField_made hfield
    split
    · exact ihrest hothers
    · intro g hg
      obtain rfl := Option.some.inj hg
      rfl

/-- The fields of the items of a field are farther from the root than it is. -/
theorem parseField_below (h : parseField a (parseSub a name type sub home) name type sub rest home o = .ok (f, items, x)) :
    ∀ g ∈ items, f.below g = true := by
  obtain ⟨size, next, -, -, rfl, -, hitems⟩ := parseField_ok.mp h
  refine parseItems_forall (fun hp g hg => ?_) hitems
  have hle := parse_length_home hp g hg
  rw [List.length_append] at hle
  exact decide_eq_true hle

end Homes

/-! ### One field among the others -/

/-- The field that a description starts with, and those below it. -/
def parseOne (c : Bytes) : Description → Home → Nat → Except StructureError (Field × List Field × Nat)
  | .field name type sub rest, home, o =>
    parseField (some (.ofBytes c)) (parseSub (some (.ofBytes c)) name type sub home) name type sub rest home o
  | _, _, _ => .error .logicError

/-- Where a field is in what a parser finds, and that what is around it stays when the field is replaced. -/
structure Around (run : Bytes → Except StructureError (List Field × Nat)) (c : Bytes) (o e : Nat) (l : List Field) (f : Field)
    (front items back : List Field) (x : Nat) : Prop where
  eq : l = front ++ f :: items ++ back
  before : Bounded o f.offset front
  below : Bounded (f.offset + f.width) x items
  behind : Bounded x e back
  one : parseOne c f.description f.home f.offset = .ok (f, items, x)
  rest : ∃ others y back', back = others ++ back' ∧ parseDescriptions (some (.ofBytes c)) f.description.rest f.home x = .ok (others, y)
  after : ∀ g ∈ back.head?, g.home.length ≤ f.home.length
  again : ∀ {c' f' items' x'}, SameBytes c c' o o (f.offset - o) → SameBytes c c' x x' (e - x) →
    parseOne c' f.description f.home f.offset = .ok (f', items', x') →
      run c' = .ok (front ++ f' :: items' ++ back.map (Field.move x x'), x' + (e - x))

section Around
variable {c c' : Bytes} {run run' : Bytes → Except StructureError (List Field × Nat)} {name : Bytes} {type : StructType}
  {sub rest d : Description} {home : Home} {f : Field} {l l' front items back : List Field} {n k o o' x y e size next j : Nat}

/-- A parser goes on behind the list. -/
theorem Around.left (h : Around run c o y l f front items back x) (hb : Bounded y e l')
    (hl : ∀ g ∈ l'.head?, g.home.length ≤ f.home.length)
    (hrun : ∀ {c' r y'}, run c' = .ok (r, y') → SameBytes c c' y y' (e - y) → run' c' = .ok (r ++ l'.map (Field.move y y'), y' + (e - y))) :
    Around run' c o e (l ++ l') f front items (back ++ l') x where
  eq := by rw [h.eq, List.append_assoc]
  before := h.before
  below := h.below
  behind := h.behind.append hb
  one := h.one
  rest := by
    obtain ⟨others, z, back', rfl, hothers⟩ := h.rest
    exact ⟨others, z, back' ++ l', List.append_assoc .., hothers⟩
  after g hg := by
    rw [List.head?_append] at hg
    rcases Option.or_eq_some_iff.mp hg with hg | ⟨-, hg⟩
    · exact h.after g hg
    · exact hl g hg
  again := fun {c' f' items' x'} hfront hback hone => by
    have hxy := h.behind.le
    have hye := hb.le
    have hy : x + (y - x) = y := by omega
    have hbehind := hback.sub (k := y - x) (w := e - y) (by omega)
    rw [hy] at hbehind
    rw [hrun (h.again hfront (hback.sub (k := 0) (by omega)) hone) hbehind, map_move hb hxy, List.map_append, List.append_assoc]
    exact congrArg Except.ok (Prod.ext rfl (by dsimp only; omega))

/-- A parser goes over a list first. -/
theorem Around.right (h : Around run c y e l f front items back x) (hb : Bounded o y l')
    (hrun : ∀ {c' r e'}, SameBytes c c' o o (y - o) → run c' = .ok (r, e') → run' c' = .ok (l' ++ r, e')) :
    Around run' c o e (l' ++ l) f (l' ++ front) items back x where
  eq := by rw [h.eq]; simp only [List.append_assoc]
  before := hb.append h.before
  below := h.below
  behind := h.behind
  one := h.one
  rest := h.rest
  after := h.after
  again := fun {c' f' items' x'} hfront hback hone => by
    have hoy := hb.le
    have hyf := h.before.le
    have hy : o + (y - o) = y := by omega
    have hbefore := hfront.sub (k := y - o) (w := f.offset - y) (by omega)
    rw [hy] at hbefore
    rw [hrun (hfront.sub (k := 0) (by omega)) (h.again hbefore hback hone)]
    simp only [List.append_assoc]

theorem Around.home_le {m : Nat} (h : Around run c o e l f front items back x) (hl : ∀ g ∈ l, m ≤ g.home.length) : m ≤ f.home.length :=
  hl f (by rw [h.eq]; simp)

theorem around_items {p : Bytes → Nat → Nat → Except StructureError (List Field × Nat)} (depth : Nat)
    (hb : ∀ {k o l e}, p c k o = .ok (l, e) → Bounded o e l) (hm : ∀ {c'}, Moves c c' (p c) (p c'))
    (hdepth : ∀ {k o l e}, p c k o = .ok (l, e) → ∀ g ∈ l, depth ≤ g.home.length)
    (hhead : ∀ {k o l e}, p c k o = .ok (l, e) → ∀ g ∈ l.head?, g.home.length = depth)
    (hp : ∀ {k o l e j}, p c k o = .ok (l, e) → l[j]? = some f →
      ∃ front items back x, Around (fun c' => p c' k o) c o e l f front items back x ∧ front.length = j)
    (h : parseItems (p c) n k o = .ok (l, e)) (hj : l[j]? = some f) :
    ∃ front items back x, Around (fun c' => parseItems (p c') n k o) c o e l f front items back x ∧ front.length = j := by
  induction n generalizing k o l j with
  | zero =>
    obtain ⟨rfl, -⟩ := parseItems_zero.mp h
    cases hj
  | succ n ih =>
    obtain ⟨item, y, others, hitem, hothers, rfl⟩ := parseItems_succ.mp h
    rcases Nat.lt_or_ge j item.length with hlt | hge
    · rw [List.getElem?_append_left hlt] at hj
      obtain ⟨front, items, back, x, haround, hlength⟩ := hp hitem hj
      have hfirst : ∀ g ∈ others.head?, g.home.length ≤ f.home.length := fun g hg =>
        (parseItems_head (q := fun g => g.home.length = depth) hhead hothers g hg).trans_le (haround.home_le (hdepth hitem))
      refine ⟨_, _, _, _, haround.left (parseItems_bounded hb hothers) hfirst fun hrun hs => ?_, hlength⟩
      exact parseItems_succ.mpr ⟨_, _, _, hrun, parseItems_moved hb hm hothers hs, rfl⟩
    · rw [List.getElem?_append_right hge] at hj
      obtain ⟨front, items, back, x, haround, hlength⟩ := ih hothers hj
      refine ⟨_, _, _, _, haround.right (hb hitem) fun hs hrun => ?_, by rw [List.length_append, hlength]; omega⟩
      have hfirst := hm hitem hs
      rw [map_move_self (hb hitem), Nat.add_sub_cancel' (hb hitem).le] at hfirst
      exact parseItems_succ.mpr ⟨_, _, _, hfirst, hrun, rfl⟩

/-- The fields that a description starts with, as one list. -/
def parseOwn (c : Bytes) (d : Description) (home : Home) (o : Nat) : Except StructureError (List Field × Nat) :=
  (parseOne c d home o).map fun r => (r.1 :: r.2.1, r.2.2)

theorem around_below (hsub : ∀ {home o l e j}, parseDescriptions (some (.ofBytes c)) sub home o = .ok (l, e) → l[j]? = some f →
      ∃ front items back x, Around (fun c' => parseDescriptions (some (.ofBytes c')) sub home o) c o e l f front items back x ∧
        front.length = j)
    {g : Field} (h : parseOne c (.field name type sub rest) home o = .ok (g, l, e)) (hj : l[j]? = some f) :
    ∃ front items back x, Around (fun c' => parseOwn c' (.field name type sub rest) home o) c o e (g :: l) f front items back x ∧
      front.length = j + 1 := by
  obtain ⟨size, next, hheader, hin, rfl, hiff, hitems⟩ := parseField_ok.mp h
  have hwidth := fieldHeader_width name sub rest home hheader
  obtain ⟨front, items, back, x, haround, hlength⟩ := around_items (p := fun c' => parseSub (some (.ofBytes c')) name type sub home)
    (home.length + 1) parse_bounded parseSub_moves (fun hp g hg => by simpa using parse_length_home hp g hg)
    (fun hp g hg => by simp [parse_head hp g hg]) hsub hitems hj
  have hfirst : Bounded o next [made name type sub rest home size o] := by
    refine ⟨by omega, fun g hg => ?_⟩
    rw [List.mem_singleton.mp hg]
    exact ⟨Nat.le_refl _, Nat.le_of_eq hwidth.symm⟩
  refine ⟨_, _, _, _, haround.right hfirst fun {c' r e'} hs hrun => ?_, by rw [List.length_append, hlength]; exact Nat.add_comm ..⟩
  refine map_eq_ok.mpr ⟨(_, r, e'), parseField_ok.mpr ⟨size, next, ?_, fun b hb => ?_, rfl, hiff, hrun⟩, rfl⟩
  · have hmoved := fieldHeader_moved hheader hs (by have := hfirst.le; omega)
    rwa [Nat.add_sub_cancel' hfirst.le] at hmoved
  · obtain rfl := Option.some.inj hb
    have hright := hs.right
    have hle := hfirst.le
    show next ≤ c'.length
    omega

/-- The field that a description starts with is in front of the others. -/
theorem around_first {g : Field} {others : List Field} (h : parseOne c (.field name type sub rest) home o = .ok (g, items, y))
    (hothers : parseDescriptions (some (.ofBytes c)) rest home y = .ok (others, e)) (hname : ¬rest.mentions g.name) :
    Around (fun c' => parseDescriptions (some (.ofBytes c')) (.field name type sub rest) home o) c o e (g :: items ++ others) g [] items
      others y := by
  have hbelow := (parseField_bounded parse_bounded h).2.2
  obtain ⟨size, hg⟩ := parseField_made h
  subst hg
  refine ⟨rfl, .nil _, hbelow, parse_bounded hothers, h, ⟨others, e, [], (List.append_nil _).symm, hothers⟩, fun g hg => ?_, fun _ hs hone => ?_⟩
  · rw [parse_head hothers g hg]
    exact Nat.le_refl _
  · obtain ⟨_, hf⟩ := parseField_made hone
    subst hf
    exact parse_field.mpr ⟨_, _, _, _, hone, parse_moved hothers hs, (if_neg hname).symm⟩

/-- Every field that is parsed stands where the list says, and can be replaced. -/
theorem parse_around (h : parseDescriptions (some (.ofBytes c)) d home o = .ok (l, e)) (hj : l[j]? = some f) :
    ∃ front items back x, Around (fun c' => parseDescriptions (some (.ofBytes c')) d home o) c o e l f front items back x ∧
      front.length = j := by
  induction d generalizing home o l e j with
  | null => cases h
  | typeEnd =>
    obtain ⟨rfl, -⟩ := Prod.mk.inj (Except.ok.inj h)
    cases hj
  | field name type sub rest ihsub ihrest =>
    obtain ⟨g, items, y, others, hfield, hothers, rfl⟩ := parse_field.mp h
    have hown := (parseField_bounded parse_bounded hfield).1
    have hbehind := parse_bounded hothers
    have hfront : Bounded o y (if rest.mentions g.name then [] else g :: items) := by
      split
      · exact ⟨hown.le, nofun⟩
      · exact hown
    have hlist : ∀ r, (if rest.mentions g.name then r else g :: items ++ r) = (if rest.mentions g.name then [] else g :: items) ++ r :=
      fun r => by split <;> rfl
    rw [hlist] at hj ⊢
    rcases Nat.lt_or_ge j (if rest.mentions g.name then [] else g :: items).length with hlt | hge
    · rw [List.getElem?_append_left hlt] at hj
      by_cases hname : rest.mentions g.name
      · rw [if_pos hname] at hlt
        cases hlt
      · rw [if_neg hname] at hj ⊢
        cases j with
        | zero =>
          obtain rfl := Option.some.inj hj
          exact ⟨_, _, _, _, around_first hfield hothers hname, rfl⟩
        | succ j =>
          obtain ⟨front, items', back, x, haround, hlength⟩ := around_below ihsub hfield hj
          obtain ⟨size, hg⟩ := parseField_made hfield
          subst hg
          have hhome : home.length ≤ f.home.length := haround.home_le fun g hg => by
            rcases List.mem_cons.mp hg with rfl | hg
            · exact Nat.le_refl _
            · exact Nat.le_of_lt (of_decide_eq_true (parseField_below hfield g hg))
          refine ⟨_, _, _, _, haround.left hbehind (fun g hg => ?_) fun {c' r y'} hrun hs => ?_, hlength⟩
          · rw [parse_head hothers g hg]
            exact hhome
          · obtain ⟨⟨g', items', x'⟩, hone, heq⟩ := map_eq_ok.mp hrun
            obtain ⟨rfl, rfl⟩ := Prod.mk.inj heq
            obtain ⟨_, hg⟩ := parseField_made hone
            subst hg
            exact parse_field.mpr ⟨_, _, _, _, hone, parse_moved hothers hs, (if_neg hname).symm⟩
    · rw [List.getElem?_append_right hge] at hj
      obtain ⟨front, items, back, x, haround, hlength⟩ := ihrest hothers hj
      refine ⟨_, _, _, _, haround.right hfront fun hs hrun => ?_, by rw [List.length_append, hlength]; omega⟩
      have hsame := parseField_moved (p := parseSub (some (.ofBytes c)) name type sub home) parse_bounded parseSub_moves hfield hs
      have hself := map_move_self hown
      rw [List.map_cons] at hself
      obtain ⟨hg, hitems⟩ := List.cons.inj hself
      rw [hg, hitems, Nat.add_sub_cancel' hown.le] at hsame
      exact parse_field.mpr ⟨_, _, _, _, hsame, hrun, (hlist _).symm⟩

end Around

end Snapwebsites.Snapdatabase.Data
