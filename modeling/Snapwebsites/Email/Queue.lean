import Mathlib.Logic.Encodable.Lattice
import Mathlib.Logic.Equiv.List
import Mathlib.Tactic.DeriveEncodable
import Snapwebsites.Email.Email

/-! # Emails in the queue

An email that was serialized is read into a new one with everything but the flags of its attachments: an
attachment of the email is read without the flag, a related one with it, and where a related one has related
ones the reader stops (`unserialize_tags`). So the email compares equal exactly where each attachment has the flag of
its level (`Leveled`), which a copy of a related attachment has not when it is added to an email. -/

namespace Snapwebsites
namespace Email
open QString

variable {fold : QString → QString} {lib : Library}

/-! ### Headers -/

/-- The entries of a list, inserted one after the other. -/
def Headers.insertList (h : Headers fold) (l : List (QString × QString)) : Headers fold := l.foldl (fun h e => h.insert e.1 e.2) h

theorem Headers.map_insert_of_fresh {h : Headers fold} {name : QString} (hfresh : ∀ e ∈ h.map.entries, e.1 < fold name) (value : QString) :
    (h.insert name value).map.entries = h.map.entries ++ [(fold name, name, value)] := by
  have hfind : h.map.find? (fold name) = none := by
    cases hfind : h.map.find? (fold name) with
    | none => rfl
    | some e => exact absurd (hfresh _ (SortedMap.find?_eq_some.mp hfind)) (lt_irrefl _)
  have hspelling : h.spelling name = name := by rw [spelling, hfind]; rfl
  show (h.map.insert (fold name) (h.spelling name, value)).entries = _
  rw [hspelling, SortedMap.entries_insert_of_lt hfresh]

theorem Headers.entries_insertList {l : List (QString × QString × QString)} : ∀ {h : Headers fold},
    (∀ e ∈ l, e.1 = fold e.2.1) → (h.map.entries ++ l).Pairwise (fun a b => a.1 < b.1) →
      (h.insertList (l.map Prod.snd)).map.entries = h.map.entries ++ l := by
  induction l with
  | nil => intro h _ _; exact (List.append_nil _).symm
  | cons e l ih =>
    intro h hkeys hsorted
    obtain ⟨hkey, hkeys⟩ := List.forall_mem_cons.mp hkeys
    have hfresh : ∀ x ∈ h.map.entries, x.1 < fold e.2.1 := fun x hx =>
      hkey ▸ (List.pairwise_append.mp hsorted).2.2 x hx e List.mem_cons_self
    have he : (h.insert e.2.1 e.2.2).map.entries = h.map.entries ++ [e] := by
      rw [map_insert_of_fresh hfresh, ← hkey]
    show ((h.insert e.2.1 e.2.2).insertList (l.map Prod.snd)).map.entries = _
    rw [ih hkeys (by rw [he, List.append_assoc]; exact hsorted), he, List.append_assoc]
    rfl

/-- The names and values of a map make the map. -/
theorem Headers.insertList_list (h : Headers fold) : ({} : Headers fold).insertList h.list = h := by
  refine Headers.ext (SortedMap.ext ?_)
  exact entries_insertList h.keys h.map.sorted

/-! ### Attachments -/

namespace Attachment

/-- A related attachment as it is read back. -/
def asSub (s : Attachment fold) : Attachment fold := mk s.headers s.data true []

/-- An attachment as it is read back. -/
def relevel (a : Attachment fold) : Attachment fold := mk a.headers a.data false (a.related.map asSub)

/-- An attachment whose related ones have no related ones. -/
def Flat (a : Attachment fold) : Prop := ∀ s ∈ a.related, s.related = []

/-- The flags say which attachments are related ones. -/
structure Leveled (a : Attachment fold) : Prop where
  top : a.isSubAttachment = false
  related : ∀ s ∈ a.related, s.isSubAttachment = true ∧ s.related = []

variable (lib) in
/-- The tags inside of the tag of an attachment. -/
def inner (a : Attachment lib.fold) : Tags :=
  pairTags .header a.headers.list (serializeRelated lib a.related (.field .data (lib.toBase64 a.data) .nil))

theorem serialize_eq (isSub : Bool) (a : Attachment lib.fold) (rest : Tags) :
    a.serialize lib isSub rest = .group (if isSub then .subAttachment else .attachment) (a.inner lib) rest := by
  cases a
  rw [serialize]
  rfl

theorem readTags_pairTags (l : List (QString × QString)) (rest : Tags) : ∀ r : Attachment lib.fold × QString,
    readTags lib (pairTags .header l rest) r = readTags lib rest (r.1.withHeaders (r.1.headers.insertList l), r.2) := by
  induction l with
  | nil => intro ⟨⟨h, d, s, l⟩, text⟩; rfl
  | cons e l ih => intro r; exact ih _

theorem readTags_subAttachment (inner rest : Tags) (r : Attachment lib.fold × QString) :
    readTags lib (.group .subAttachment inner rest) r =
      (unserialize lib new inner).bind fun a => (r.1.addRelated a).bind fun b => readTags lib rest (b, r.2) := by
  rw [readTags, unserialize]
  cases readTags lib inner (new, []) <;> rfl

theorem addRelated_ok {h : Headers fold} {d : Bytes} {l : List (Attachment fold)} {a : Attachment fold} (ha : a.related = []) :
    (mk h d false l).addRelated a = .ok (mk h d false (l ++ [a.asSub])) := by
  have hsub : ¬(mk h d false l).isSubAttachment = true := Bool.false_ne_true
  rw [addRelated, if_neg hsub, if_neg (by simp [ha]), asSub, ha]
  rfl

theorem addRelated_error {h : Headers fold} {d : Bytes} {l : List (Attachment fold)} {a : Attachment fold} (ha : a.related ≠ []) :
    (mk h d false l).addRelated a = .error relatedHasRelated := by
  have hsub : ¬(mk h d false l).isSubAttachment = true := Bool.false_ne_true
  rw [addRelated, if_neg hsub, if_pos fun h => ha (List.length_eq_zero_iff.mp h)]

variable (lib) in
/-- What an attachment is read back as. -/
structure Rereads (a : Attachment lib.fold) : Prop where
  flat : a.Flat → unserialize lib new (a.inner lib) = .ok a.relevel
  deep : ¬a.Flat → unserialize lib new (a.inner lib) = .error relatedHasRelated

theorem flat_of_related {a : Attachment fold} (h : a.related = []) : a.Flat := fun s hs => by
  rw [h] at hs
  cases hs

/-- One related attachment is read. -/
theorem readTags_sub {s : Attachment lib.fold} (hs : Rereads lib s) (h : Headers lib.fold) (d : Bytes) (l : List (Attachment lib.fold))
    (text : QString) (rest : Tags) :
    (s.related = [] → readTags lib (s.serialize lib true rest) (mk h d false l, text) =
      readTags lib rest (mk h d false (l ++ [s.asSub]), text)) ∧
    (s.related ≠ [] → readTags lib (s.serialize lib true rest) (mk h d false l, text) = .error relatedHasRelated) := by
  rw [serialize_eq, if_pos rfl, readTags_subAttachment]
  constructor
  · intro hrelated
    have hadd : (mk h d false l).addRelated s.relevel = .ok (mk h d false (l ++ [s.asSub])) := by
      have hnone : s.relevel.related = [] := List.map_eq_nil_iff.mpr hrelated
      rw [addRelated_ok hnone]
      rfl
    simp only [hs.flat (flat_of_related hrelated), Except.bind, hadd]
  · intro hrelated
    by_cases hflat : s.Flat
    · have hadd : (mk h d false l).addRelated s.relevel = .error relatedHasRelated :=
        addRelated_error fun h => hrelated (List.map_eq_nil_iff.mp h)
      simp only [hs.flat hflat, Except.bind, hadd]
    · simp only [hs.deep hflat, Except.bind]

/-- The related attachments are read one after the other. -/
theorem readTags_related (h : Headers lib.fold) (d : Bytes) (text : QString) (rest : Tags) :
    ∀ {todo : List (Attachment lib.fold)} (l : List (Attachment lib.fold)), (∀ s ∈ todo, Rereads lib s) →
    ((∀ s ∈ todo, s.related = []) → readTags lib (serializeRelated lib todo rest) (mk h d false l, text) =
      readTags lib rest (mk h d false (l ++ todo.map asSub), text)) ∧
    ((¬∀ s ∈ todo, s.related = []) → readTags lib (serializeRelated lib todo rest) (mk h d false l, text) = .error relatedHasRelated)
  | [], l, _ => ⟨fun _ => by simp [serializeRelated], fun hnot => absurd (fun _ hs => by cases hs) hnot⟩
  | s :: todo, l, hread => by
    obtain ⟨hs, hread⟩ := List.forall_mem_cons.mp hread
    have hstep := readTags_sub hs h d l text (serializeRelated lib todo rest)
    have hrest := readTags_related h d text rest (l ++ [s.asSub]) hread
    rw [serializeRelated, List.forall_mem_cons]
    constructor
    · rintro ⟨hrelated, hall⟩
      rw [hstep.1 hrelated, hrest.1 hall, List.map_cons, List.append_assoc]
      rfl
    · intro hnot
      by_cases hrelated : s.related = []
      · rw [hstep.1 hrelated, hrest.2 fun hall => hnot ⟨hrelated, hall⟩]
      · exact hstep.2 hrelated

/-- Every attachment is read back, level by level. -/
theorem rereads (hlib : lib.Inverse) : ∀ a : Attachment lib.fold, Rereads lib a
  | mk h d s l => by
    have hread : ∀ b ∈ l, Rereads lib b := fun b _ => rereads hlib b
    have hloop := readTags_related h [] [] (.field .data (lib.toBase64 d) .nil) [] hread
    have hheaders : unserialize lib new ((mk h d s l).inner lib) =
        (readTags lib (serializeRelated lib l (.field .data (lib.toBase64 d) .nil)) (mk h [] false [], [])).map
          fun r => r.1.withData (lib.fromBase64 r.2) := by
      rw [unserialize, inner, readTags_pairTags]
      show (readTags lib _ (mk (({} : Headers lib.fold).insertList h.list) [] false [], [])).map _ = _
      rw [Headers.insertList_list]
      rfl
    constructor
    · intro hflat
      rw [hheaders, hloop.1 hflat]
      simp only [readTags, Except.map, List.nil_append]
      rw [hlib.fromBase64_toBase64]
      rfl
    · intro hdeep
      rw [hheaders, hloop.2 hdeep]
      rfl

/-! ### Comparing -/

theorem equalAll_map {f : Attachment fold → Attachment fold} {p : Attachment fold → Prop} {l : List (Attachment fold)}
    (hf : ∀ a ∈ l, (f a).equal a = true ↔ p a) : equalAll (l.map f) l = true ↔ ∀ a ∈ l, p a := by
  induction l with
  | nil => simp [equalAll]
  | cons a l ih =>
    obtain ⟨ha, hl⟩ := List.forall_mem_cons.mp hf
    rw [List.map_cons, equalAll, Bool.and_eq_true, ha, ih hl, List.forall_mem_cons]

theorem equal_asSub (s : Attachment fold) (hs : s.related = []) : s.asSub.equal s = true ↔ s.isSubAttachment = true := by
  obtain ⟨h, d, sub, l⟩ := s
  obtain rfl : l = [] := hs
  cases sub <;> simp [asSub, equal, equalAll, headers, data, isSubAttachment, Headers.equal_self]

/-- What is read back is equal where the flags are those of the levels. -/
theorem equal_relevel {a : Attachment fold} (hflat : a.Flat) : a.relevel.equal a = true ↔ a.Leveled := by
  obtain ⟨h, d, sub, l⟩ := a
  have hrelated : equalAll (l.map asSub) l = true ↔ ∀ s ∈ l, s.isSubAttachment = true :=
    equalAll_map fun s hs => equal_asSub s (hflat s hs)
  rw [relevel, equal, Bool.and_eq_true, Bool.and_eq_true, Bool.and_eq_true, headers, data]
  simp only [Headers.equal_self, decide_true, true_and, decide_eq_true_eq]
  constructor
  · rintro ⟨hsub, hl⟩
    exact ⟨hsub.symm, fun s hs => ⟨hrelated.mp hl s hs, hflat s hs⟩⟩
  · intro hlevel
    exact ⟨hlevel.top.symm, hrelated.mpr fun s hs => (hlevel.related s hs).1⟩

theorem Leveled.flat {a : Attachment fold} (h : a.Leveled) : a.Flat := fun s hs => (h.related s hs).2

end Attachment

/-! ### Emails -/

open Attachment

/-- Each attachment has the flag of its level. -/
def Leveled (e : Email fold) : Prop := ∀ a ∈ e.attachments, a.Leveled

theorem readTags_header (l : List (QString × QString)) (rest : Tags) : ∀ e : Email lib.fold,
    readTags lib (pairTags .header l rest) e = readTags lib rest { e with headers := e.headers.insertList l } := by
  induction l with
  | nil => intro e; rfl
  | cons p l ih => intro e; exact ih _

theorem readTags_parameter (l : List (QString × QString)) : ∀ e : Email lib.fold,
    readTags lib (pairTags .parameter l .nil) e = .ok { e with parameters := e.parameters.insertAll l } := by
  induction l with
  | nil => intro e; rfl
  | cons p l ih => intro e; exact ih _

theorem readTags_attachment (a : Attachment lib.fold) (rest : Tags) (e : Email lib.fold) :
    readTags lib (a.serialize lib false rest) e =
      (Attachment.unserialize lib .new (a.inner lib)).bind fun a => readTags lib rest (e.addAttachment a) := by
  rw [serialize_eq, if_neg Bool.false_ne_true, readTags]
  rfl

/-- The attachments are read one after the other. -/
theorem readTags_attachments (hlib : lib.Inverse) (rest : Tags) : ∀ (todo : List (Attachment lib.fold)) (e : Email lib.fold),
    ((∀ a ∈ todo, a.Flat) → readTags lib (attachmentTags lib todo rest) e =
      readTags lib rest { e with attachments := e.attachments ++ todo.map relevel }) ∧
    ((¬∀ a ∈ todo, a.Flat) → readTags lib (attachmentTags lib todo rest) e = .error relatedHasRelated)
  | [], e => ⟨fun _ => by simp [attachmentTags], fun hnot => absurd (fun _ ha => by cases ha) hnot⟩
  | a :: todo, e => by
    have hread := readTags_attachment a (attachmentTags lib todo rest) e
    have hrest := readTags_attachments hlib rest todo (e.addAttachment a.relevel)
    rw [List.forall_mem_cons]
    constructor
    · rintro ⟨hflat, hall⟩
      rw [(rereads hlib a).flat hflat] at hread
      refine hread.trans ((hrest.1 hall).trans ?_)
      rw [addAttachment, List.append_assoc]
      rfl
    · intro hnot
      by_cases hflat : a.Flat
      · rw [(rereads hlib a).flat hflat] at hread
        exact hread.trans (hrest.2 fun hall => hnot ⟨hflat, hall⟩)
      · rw [(rereads hlib a).deep hflat] at hread
        exact hread

/-- An email as it is read back. -/
def relevelEmail (e : Email fold) (time : Int) : Email fold := { e with time, attachments := e.attachments.map relevel }

theorem readArchive_email (inner : Tags) (e : Email lib.fold) :
    readArchive lib (.group .email inner .nil) e = readTags lib inner e := by
  rw [readArchive]
  cases readTags lib inner e <;> rfl

/-- The tags in front of the attachments are read whatever the attachments are. -/
theorem readArchive_tags (e : Email lib.fold) (time : Int) : readArchive lib (tags lib e) { time } =
    readTags lib (attachmentTags lib e.attachments (pairTags .parameter e.parameters.entries .nil))
      { e with time, attachments := [], parameters := ∅ } := by
  have hheaders := Headers.insertList_list e.headers
  rw [tags, readArchive_email]
  by_cases hcumulative : e.cumulative = []
  · rw [if_pos (List.isEmpty_iff.mpr hcumulative)]
    refine (readTags_header e.headers.list _ _).trans ?_
    simp only [hheaders, hcumulative]
  · rw [if_neg fun h => hcumulative (List.isEmpty_iff.mp h)]
    refine (readTags_header e.headers.list _ _).trans ?_
    simp only [hheaders]

/-- An archive gives the email back but for the flags, or is refused for the levels. -/
theorem unserialize_tags (hlib : lib.Inverse) (e : Email lib.fold) (time : Int) :
    ((∀ a ∈ e.attachments, a.Flat) → readArchive lib (tags lib e) { time } = .ok (relevelEmail e time)) ∧
    ((¬∀ a ∈ e.attachments, a.Flat) → readArchive lib (tags lib e) { time } = .error relatedHasRelated) := by
  have hparameters : (∅ : SortedMap QString QString).insertAll e.parameters.entries = e.parameters :=
    SortedMap.insertAll_of_perm (List.Perm.refl _)
  have hloop := readTags_attachments hlib (pairTags .parameter e.parameters.entries .nil) e.attachments
    { e with time, attachments := [], parameters := ∅ }
  rw [readArchive_tags]
  refine ⟨fun hflat => ?_, hloop.2⟩
  rw [hloop.1 hflat, readTags_parameter, hparameters]
  rfl

theorem unserialize_serialize (hlib : lib.Inverse) (e : Email lib.fold) (time : Int) :
    unserialize lib { time } (serialize lib e) = readArchive lib (tags lib e) { time } := by
  obtain ⟨s, hwrite, hnul, hbom⟩ := hlib.text (tags lib e)
  rw [unserialize, serialize, hwrite, fromCString_utf8 hnul, fromUtf8_eq_self hbom, takeWhile_ne_zero (zero_notMem_utf8 hnul),
    ← hwrite, hlib.read_write]

theorem equal_relevelEmail {e : Email fold} (time : Int) (hflat : ∀ a ∈ e.attachments, a.Flat) :
    (relevelEmail e time).equal e = true ↔ Leveled e := by
  have hattachments : equalAll (e.attachments.map relevel) e.attachments = true ↔ Leveled e :=
    equalAll_map fun a ha => equal_relevel (hflat a ha)
  simp [equal, relevelEmail, Headers.equal_self, hattachments]

/-- An email survives the queue: it is read into a new email, and compares equal. -/
def Survives (lib : Library) (e : Email lib.fold) (time : Int) : Prop :=
  ∃ e', unserialize lib { time } (serialize lib e) = .ok e' ∧ e'.equal e = true

/-- An attachment built with the functions of the class, and with no copy of a related one. -/
inductive Attachment.Made : Attachment fold → Prop
  | new : Made .new
  | headers {a : Attachment fold} (h : Headers fold) : Made a → Made (a.withHeaders h)
  | data {a : Attachment fold} (d : Bytes) : Made a → Made (a.withData d)
  | addRelated {a b c : Attachment fold} : Made a → Made b → a.addRelated b = .ok c → Made c

theorem Attachment.Made.leveled {a : Attachment fold} (h : a.Made) : a.Leveled := by
  induction h with
  | new => exact ⟨rfl, fun s hs => by cases hs⟩
  | headers h _ ih => exact ⟨ih.top, ih.related⟩
  | data d _ ih => exact ⟨ih.top, ih.related⟩
  | @addRelated a b c _ _ hadd iha _ =>
    rw [Attachment.addRelated] at hadd
    split at hadd
    · cases hadd
    · split at hadd
      · cases hadd
      · rename_i hcount
        cases hadd
        refine ⟨iha.top, fun s hs => ?_⟩
        rcases List.mem_append.mp hs with hs | hs
        · exact iha.related s hs
        · obtain rfl := List.mem_singleton.mp hs
          exact ⟨rfl, List.length_eq_zero_iff.mp (not_not.mp hcount)⟩

/-- An email built of such attachments; what else the functions change is not an attachment. -/
inductive Made : Email fold → Prop
  | new (time : Int) : Made { time }
  | change {e e' : Email fold} : Made e → e'.attachments = e.attachments → Made e'
  | setBodyAttachment {e : Email fold} {a : Attachment fold} : Made e → a.Made → Made (e.setBodyAttachment a)
  | addAttachment {e : Email fold} {a : Attachment fold} : Made e → a.Made → Made (e.addAttachment a)

/-- Such emails have the flags of their levels. -/
theorem Made.leveled {e : Email fold} (h : Made e) : Leveled e := by
  induction h with
  | new => exact fun a ha => by cases ha
  | change _ heq ih => exact fun a ha => ih a (heq ▸ ha)
  | setBodyAttachment _ ha ih => exact List.forall_mem_cons.mpr ⟨ha.leveled, ih⟩
  | addAttachment _ ha ih =>
    intro b hb
    rcases List.mem_append.mp hb with hb | hb
    · exact ih b hb
    · obtain rfl := List.mem_singleton.mp hb
      exact ha.leveled

/-- An email that is built so is the same behind the queue. -/
theorem survives_of_made (hlib : lib.Inverse) {e : Email lib.fold} (h : Made e) (time : Int) : Survives lib e time := by
  have hflat : ∀ a ∈ e.attachments, a.Flat := fun a ha => (h.leveled a ha).flat
  refine ⟨relevelEmail e time, ?_, (equal_relevelEmail time hflat).mpr h.leveled⟩
  rw [unserialize_serialize hlib e time, (unserialize_tags hlib e time).1 hflat]

/-! ### An archive of numbers -/

instance instEncodableChar : Encodable Char := Encodable.ofLeftInjection Char.toNat (fun n => some (Char.ofNat n)) (by simp)

deriving instance Encodable for TagName, Tags

/-- An archive that is a number, and bytes as characters of the same code. -/
def numbered : Library where
  fold := id
  write := fun tags => utf8 (number (Encodable.encode tags))
  read := fun b => (digits (decodeUtf8 0 b)).bind Encodable.decode
  toBase64 := List.map fun x => Char.ofNat x.toNat
  fromBase64 := List.map fun c => UInt8.ofNat c.toNat

theorem numbered_inverse : numbered.Inverse where
  read_write tags := by
    show (digits (decodeUtf8 0 (utf8 (number (Encodable.encode tags))))).bind Encodable.decode = some tags
    rw [decodeUtf8_utf8, digits_number, Option.bind_some, Encodable.encodek]
  fromBase64_toBase64 b := by
    show (b.map fun x => Char.ofNat x.toNat).map (fun c => UInt8.ofNat c.toNat) = b
    simp [Function.comp_def, SnapUri.toNat_ofNat_byte]
  text tags := by
    refine ⟨number (Encodable.encode tags), rfl, fun h => ?_, fun h => ?_⟩
    · exact absurd (isDigit_of_mem_number h) (by decide)
    · exact absurd (isDigit_of_mem_number (List.mem_of_mem_head? h)) (by decide)

/-- A page with an image, the image on its own, and an email with the image attached again. -/
def image : Attachment numbered.fold := Attachment.new.setData (fun _ => []) [0x89] "image/png".toList

def page : Attachment numbered.fold := .mk {} [] false [.mk image.headers image.data true []]

def emailOfImage : Email numbered.fold := ({ time := 0 } : Email numbered.fold).addAttachment (.mk image.headers image.data true [])

/-- An email with a page that has an image. -/
theorem survives_of_made_page : Survives numbered (({ time := 0 } : Email numbered.fold).addAttachment page) 1 := by
  refine survives_of_made numbered_inverse ?_ 1
  exact .addAttachment (.new 0) (.addRelated .new (.headers image.headers (.data [0x89] .new)) rfl)

end Email
end Snapwebsites
