import Snapwebsites.Snapdatabase.Parse

/-! # Descriptions

A description whose types are known, with sub-descriptions where they belong and names that differ, can be parsed with no buffer: that
makes the fields of an empty item, and they are the ones that are parsed in as many zeros. -/

namespace Snapwebsites.Snapdatabase.Data

open Loadavg (ofLittleEndian)

def Description.Valid : Description → Prop
  | .null => False
  | .typeEnd => True
  | .field name type sub rest =>
    shape type ≠ .none ∧ (hasSubDefs type = true → sub.Valid) ∧ (hasSubDefs type = false → sub = .null) ∧
      ¬rest.mentions (fieldName name type) ∧ rest.Valid

/-- The number of bytes of an empty field; `sub` is the one of a structure. -/
def Shape.emptySize (sub : Nat) : Shape → Nat
  | .fixed n => n
  | .counted n => n
  | .substructure => sub
  | .array n => n
  | .none => 0

/-- The number of bytes where all strings, buffers and arrays are empty. -/
def Description.emptySize : Description → Nat
  | .field _ type sub rest => (shape type).emptySize sub.emptySize + rest.emptySize
  | _ => 0

namespace Description.Valid
variable {d : Description}

theorem ne_null (h : d.Valid) : d ≠ .null := fun hnull => by
  rw [hnull] at h
  exact h

theorem sub (h : d.Valid) (hne : d.sub ≠ .null) : d.sub.Valid := by
  cases d with
  | null => exact h.elim
  | typeEnd => exact absurd rfl hne
  | field name type sub rest =>
    refine h.2.1 ?_
    cases hdefs : hasSubDefs type with
    | true => rfl
    | false => exact absurd (h.2.2.1 hdefs) hne

theorem rest (h : d.Valid) : d.rest.Valid := by
  cases d with
  | null => exact h.elim
  | typeEnd => exact h
  | field name type sub rest => exact h.2.2.2.2

end Description.Valid

section Valid
variable {a : Option Access} {p : Nat → Nat → Except StructureError (List Field × Nat)} {name : Bytes} {type : StructType}
  {sub rest d : Description} {home : Home} {f : Field} {l items item : List Field} {n k o x e w size next : Nat}

/-- The fields of a valid description are all in the list. -/
theorem parse_valid_field (hd : (Description.field name type sub rest).Valid) : parseDescriptions a (.field name type sub rest) home o = .ok (l, e) ↔
    ∃ f items x others, parseField a (parseSub a name type sub home) name type sub rest home o = .ok (f, items, x) ∧
      parseDescriptions a rest home x = .ok (others, e) ∧ l = f :: items ++ others := by
  rw [parse_field]
  refine exists₄_congr fun f items x others => and_congr_right fun hfield => and_congr_right fun _ => ?_
  obtain ⟨size, rfl⟩ := parseField_made hfield
  have hname : ¬rest.mentions (made name type sub rest home size o).name := hd.2.2.2.1
  rw [if_neg hname]

theorem parse_valid (hd : d.Valid) (h : parseDescriptions a d home o = .ok (l, e)) : ∀ g ∈ l, g.description.Valid := by
  induction d generalizing home o l e with
  | null => cases h
  | typeEnd =>
    obtain ⟨rfl, -⟩ := Prod.mk.inj (Except.ok.inj h)
    exact nofun
  | field name type sub rest ihsub ihrest =>
    obtain ⟨f, items, x, others, hfield, hothers, rfl⟩ := (parse_valid_field hd).mp h
    obtain ⟨size, next, -, -, rfl, hiff, hitems⟩ := parseField_ok.mp hfield
    have hbelow : ∀ g ∈ items, g.description.Valid := by
      by_cases hnull : sub = .null
      · rw [made, if_pos hnull] at hitems
        obtain ⟨rfl, -⟩ := parseItems_zero.mp hitems
        exact nofun
      · exact parseItems_forall (ihsub (hd.2.1 (hiff.mp hnull))) hitems
    exact List.forall_mem_append.mpr ⟨List.forall_mem_cons.mpr ⟨hd, hbelow⟩, ihrest hd.2.2.2.2 hothers⟩

/-- A structure starts with its first field. -/
theorem parse_first (hd : d.Valid) (hne : d ≠ .typeEnd) (h : parseDescriptions a d home o = .ok (l, e)) :
    ∃ g others, l = g :: others ∧ g.home = home ∧ g.offset = o := by
  cases d with
  | null => cases h
  | typeEnd => exact absurd rfl hne
  | field name type sub rest =>
    obtain ⟨f, items, x, others, hfield, -, rfl⟩ := (parse_valid_field hd).mp h
    obtain ⟨size, rfl⟩ := parseField_made hfield
    exact ⟨_, _, rfl, rfl, rfl⟩

theorem parseItems_widths (hp : ∀ {k o l e}, p k o = .ok (l, e) → o + (l.map Field.width).sum = e) (h : parseItems p n k o = .ok (l, e)) :
    o + (l.map Field.width).sum = e := by
  induction n generalizing k o l with
  | zero =>
    obtain ⟨rfl, rfl⟩ := parseItems_zero.mp h
    rfl
  | succ n ih =>
    obtain ⟨item, x, others, hitem, hothers, rfl⟩ := parseItems_succ.mp h
    rw [List.map_append, List.sum_append, ← Nat.add_assoc, hp hitem, ih hothers]

/-- The fields of a valid description have all of the bytes. -/
theorem parse_widths (hd : d.Valid) (h : parseDescriptions a d home o = .ok (l, e)) : o + (l.map Field.width).sum = e := by
  induction d generalizing home o l e with
  | null => cases h
  | typeEnd =>
    obtain ⟨rfl, rfl⟩ := Prod.mk.inj (Except.ok.inj h)
    rfl
  | field name type sub rest ihsub ihrest =>
    obtain ⟨f, items, x, others, hfield, hothers, rfl⟩ := (parse_valid_field hd).mp h
    obtain ⟨size, next, hheader, -, rfl, hiff, hitems⟩ := parseField_ok.mp hfield
    have hbelow : next + (items.map Field.width).sum = x := by
      by_cases hnull : sub = .null
      · rw [made, if_pos hnull] at hitems
        obtain ⟨rfl, rfl⟩ := parseItems_zero.mp hitems
        rfl
      · exact parseItems_widths (ihsub (hd.2.1 (hiff.mp hnull))) hitems
    have hbehind := ihrest hd.2.2.2.2 hothers
    have hwidth := fieldHeader_width name sub rest home hheader
    rw [List.map_append, List.map_cons, List.sum_append, List.sum_cons]
    omega

/-- An empty field; a structure has one item, and an array has none. -/
theorem parseField_none (hd : (Description.field name type sub rest).Valid)
    (hsub : sub.Valid → ∀ home o, ∃ l, parseDescriptions none sub home o = .ok (l, o + sub.emptySize)) (home : Home) (o : Nat) :
    ∃ f items, parseField none (parseSub none name type sub home) name type sub rest home o =
      .ok (f, items, o + (shape type).emptySize sub.emptySize) := by
  obtain ⟨hshape, hvalid, hleaf, -, -⟩ := hd
  cases htype : shape type with
  | none => exact absurd htype hshape
  | fixed n =>
    have hdefs : hasSubDefs type = false := by rw [hasSubDefs, htype]
    refine ⟨_, [], parseField_ok.mpr ⟨n, o + n, by rw [fieldHeader, htype], nofun, rfl, ?_, ?_⟩⟩
    · rw [hdefs, hleaf hdefs]
      decide
    · rw [made, if_pos (hleaf hdefs)]
      exact parseItems_zero.mpr ⟨rfl, rfl⟩
  | counted n =>
    have hdefs : hasSubDefs type = false := by rw [hasSubDefs, htype]
    refine ⟨_, [], parseField_ok.mpr ⟨0, o + n, by rw [fieldHeader, htype]; rfl, nofun, rfl, ?_, ?_⟩⟩
    · rw [hdefs, hleaf hdefs]
      decide
    · rw [made, if_pos (hleaf hdefs)]
      exact parseItems_zero.mpr ⟨rfl, rfl⟩
  | array n =>
    have hdefs : hasSubDefs type = true := by rw [hasSubDefs, htype]
    refine ⟨_, [], parseField_ok.mpr ⟨0, o + n, by rw [fieldHeader, htype]; rfl, nofun, rfl, ?_, ?_⟩⟩
    · exact iff_of_true (hvalid hdefs).ne_null hdefs
    · rw [made, if_neg (hvalid hdefs).ne_null]
      exact parseItems_zero.mpr ⟨rfl, rfl⟩
  | substructure =>
    have hdefs : hasSubDefs type = true := by rw [hasSubDefs, htype]
    obtain ⟨l, hl⟩ := hsub (hvalid hdefs) (home ++ [(fieldName name type, 0)]) o
    refine ⟨_, l ++ [], parseField_ok.mpr ⟨1, o, by rw [fieldHeader, htype], nofun, rfl, ?_, ?_⟩⟩
    · exact iff_of_true (hvalid hdefs).ne_null hdefs
    · rw [made, if_neg (hvalid hdefs).ne_null]
      exact parseItems_succ.mpr ⟨_, _, _, hl, parseItems_zero.mpr ⟨rfl, rfl⟩, rfl⟩

/-- A valid description can be parsed with no buffer. -/
theorem parse_none (hd : d.Valid) (home : Home) (o : Nat) : ∃ l, parseDescriptions none d home o = .ok (l, o + d.emptySize) := by
  induction d generalizing home o with
  | null => exact hd.elim
  | typeEnd => exact ⟨[], rfl⟩
  | field name type sub rest ihsub ihrest =>
    obtain ⟨f, items, hfield⟩ := parseField_none hd ihsub home o
    obtain ⟨others, hothers⟩ := ihrest hd.2.2.2.2 home (o + (shape type).emptySize sub.emptySize)
    refine ⟨f :: items ++ others, (parse_valid_field hd).mpr ⟨f, items, _, others, hfield, ?_, rfl⟩⟩
    rw [Description.emptySize, ← Nat.add_assoc]
    exact hothers

/-! ### Zeros -/

theorem ofLittleEndian_replicate (n : Nat) : ofLittleEndian (List.replicate n 0) = 0 := by
  induction n with
  | zero => rfl
  | succ n ih =>
    show 0 + 256 * ofLittleEndian (List.replicate n 0) = 0
    rw [ih]

theorem readSize_zeros (h : o + w ≤ n) : readSize (some (.ofBytes (List.replicate n 0))) w o = readSize none w o := by
  have hthere : o + w ≤ (List.replicate n (0 : UInt8)).length := by rw [List.length_replicate]; exact h
  unfold readSize
  dsimp only
  rw [pread_ofBytes hthere, List.drop_replicate, List.take_replicate]
  dsimp only
  rw [ofLittleEndian_replicate]

theorem fieldHeader_zeros (h : fieldHeader none type o = .ok (size, next)) (hn : next ≤ n) :
    fieldHeader (some (.ofBytes (List.replicate n 0))) type o = .ok (size, next) := by
  rw [← h]
  unfold fieldHeader at h ⊢
  cases hshape : shape type <;> rw [hshape] at h <;> dsimp only at h ⊢
  · obtain ⟨_, -, heq⟩ := map_eq_ok.mp h
    obtain ⟨rfl, rfl⟩ := Prod.mk.inj heq
    rw [readSize_zeros (by omega)]
  · obtain ⟨_, -, heq⟩ := map_eq_ok.mp h
    obtain ⟨rfl, rfl⟩ := Prod.mk.inj heq
    rw [readSize_zeros (by omega)]

theorem parseItems_congr {q : Nat → Nat → Except StructureError (List Field × Nat)} {z : Nat}
    (hb : ∀ {k o l e}, p k o = .ok (l, e) → Bounded o e l) (hq : ∀ {k o l e}, p k o = .ok (l, e) → e ≤ z → q k o = .ok (l, e))
    (h : parseItems p n k o = .ok (l, e)) (he : e ≤ z) : parseItems q n k o = .ok (l, e) := by
  induction n generalizing k o l with
  | zero => exact h
  | succ n ih =>
    obtain ⟨item, x, others, hitem, hothers, rfl⟩ := parseItems_succ.mp h
    exact parseItems_succ.mpr ⟨item, x, others, hq hitem ((parseItems_bounded hb hothers).le.trans he), ih hothers, rfl⟩

/-- Zeros are empty fields. -/
theorem parse_zeros (h : parseDescriptions none d home o = .ok (l, e)) (he : e ≤ n) :
    parseDescriptions (some (.ofBytes (List.replicate n 0))) d home o = .ok (l, e) := by
  induction d generalizing home o l e with
  | null => cases h
  | typeEnd => exact h
  | field name type sub rest ihsub ihrest =>
    obtain ⟨f, items, x, others, hfield, hothers, rfl⟩ := parse_field.mp h
    obtain ⟨size, next, hheader, -, rfl, hiff, hitems⟩ := parseField_ok.mp hfield
    have hxe := (parse_bounded hothers).le
    have hnx := (parseItems_bounded parse_bounded hitems).le
    refine parse_field.mpr ⟨_, items, x, others, parseField_ok.mpr ⟨size, next, fieldHeader_zeros hheader (by omega), fun b hb => ?_, rfl, hiff,
      parseItems_congr parse_bounded ihsub hitems (by omega)⟩, ihrest hothers he, rfl⟩
    obtain rfl := Option.some.inj hb
    show next ≤ (List.replicate n (0 : UInt8)).length
    rw [List.length_replicate]
    omega

end Valid

end Snapwebsites.Snapdatabase.Data
