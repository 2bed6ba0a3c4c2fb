import Mathlib.Data.List.Nodup
import Snapwebsites.HttpStrings.Reread
import Snapwebsites.SnapManager.StatusTransport

/-! # Statuses in a file

The file holds the lines of the header, up to the first other field behind one, then those of the other fields
(`written`). A line is read whole, but for the carriage returns and the byte order mark in front of it
(`stored`); reading the header first only reads a part of the lines earlier (`readHeaderFrom_lines`). A field of
the header is left out exactly where another plugin has a key between two keys of the header
(`header_written_iff`). -/

namespace Snapwebsites
namespace SnapManager
open QString HttpStrings

variable {L : Type} {qt : Qt L}

namespace ServerStatus
open Status Statuses

/-! ### Writing -/

def isHeader (s : Status) : Bool := s.pluginName = "header".toList

theorem isHeader_iff {s : Status} : isHeader s = true ↔ s.pluginName = "header".toList := decide_eq_true_iff

/-- A field that is not of the header. -/
def isField (s : Status) : Bool := !isHeader s

theorem isField_iff {s : Status} : isField s = true ↔ s.pluginName ≠ "header".toList := by
  rw [isField, Bool.not_eq_true', isHeader, decide_eq_false_iff_not]

/-- The fields of the header that the first loop comes by. -/
def headerOf (l : List Status) : List Status := (l.dropWhile isField).takeWhile isHeader

/-- The statuses in the order of the file. -/
def written (l : List Status) : List Status := headerOf l ++ l.filter isField

def bytesOf (s : Status) : Bytes := (lineOf (sent s)).utf8 ++ [0x0A]

theorem writeStatus_eq {s : Status} (h : Written s) : writeStatus s = .ok (bytesOf s) := by
  rw [writeStatus, Status.toString_eq h]
  rfl

theorem writeHeader_true {l : List Status} (h : ∀ s ∈ l, Written s) :
    writeHeader true l = .ok ((l.takeWhile isHeader).flatMap bytesOf) := by
  induction l with
  | nil => rfl
  | cons s l ih =>
    rw [List.forall_mem_cons] at h
    by_cases hs : s.pluginName = "header".toList
    · rw [writeHeader, if_pos hs, writeStatus_eq h.1, ih h.2, List.takeWhile_cons_of_pos (isHeader_iff.mpr hs)]
      rfl
    · rw [writeHeader, if_neg hs, if_pos rfl, List.takeWhile_cons_of_neg fun h => hs (isHeader_iff.mp h)]
      rfl

theorem writeHeader_false {l : List Status} (h : ∀ s ∈ l, Written s) :
    writeHeader false l = .ok ((headerOf l).flatMap bytesOf) := by
  unfold headerOf
  induction l with
  | nil => rfl
  | cons s l ih =>
    rw [List.forall_mem_cons] at h
    by_cases hs : s.pluginName = "header".toList
    · rw [writeHeader, if_pos hs, writeStatus_eq h.1, writeHeader_true h.2,
        List.dropWhile_cons_of_neg fun h => isField_iff.mp h hs, List.takeWhile_cons_of_pos (isHeader_iff.mpr hs)]
      rfl
    · rw [writeHeader, if_neg hs, if_neg Bool.false_ne_true, ih h.2, List.dropWhile_cons_of_pos (isField_iff.mpr hs)]

theorem writeFields_eq {l : List Status} (h : ∀ s ∈ l, Written s) :
    writeFields l = .ok ((l.filter isField).flatMap bytesOf) := by
  induction l with
  | nil => rfl
  | cons s l ih =>
    rw [List.forall_mem_cons] at h
    by_cases hs : s.pluginName = "header".toList
    · rw [writeFields, if_neg (not_not.mpr hs), ih h.2, List.filter_cons_of_neg fun h => isField_iff.mp h hs]
    · rw [writeFields, if_pos hs, writeStatus_eq h.1, ih h.2, List.filter_cons_of_pos (isField_iff.mpr hs)]
      rfl

def contentOf (l : List Status) : Bytes := statusFileMagic.utf8 ++ 0x0A :: (written l).flatMap bytesOf

theorem write_eq (disk : Disk) {s : ServerStatus qt} (h : ∀ status ∈ s.statuses.values, Written status) (hname : s.filename ≠ []) :
    s.write disk = .ok (fun name => if name = s.filename then some (contentOf s.statuses.values) else disk name, s.close, true) := by
  have hempty : ¬s.close.filename.isEmpty := by
    rw [List.isEmpty_iff]
    exact hname
  have hcontent : statusFileMagic.utf8 ++ [0x0A] ++ (headerOf s.statuses.values).flatMap bytesOf ++
      (s.statuses.values.filter isField).flatMap bytesOf = contentOf s.statuses.values := by
    rw [contentOf, written, List.flatMap_append]
    simp only [List.append_assoc, List.nil_append, List.cons_append]
  rw [write, if_neg hempty]
  show (writeHeader false s.statuses.values).bind (fun header => (writeFields s.statuses.values).bind fun fields => _) = _
  rw [writeHeader_false h, writeFields_eq h]
  show Except.ok (fun name => if name = s.filename then some _ else disk name, s.close, true) = _
  rw [hcontent]

/-! ### Reading -/

/-- A status as it is read back from the file. -/
def stored (s : Status) : Status where
  state := s.state
  pluginName := fromUtf8 (withoutReturns s.pluginName)
  fieldName := withoutReturns s.fieldName
  value := fromUtf8 (fromUtf8 s.value)

theorem mem_withoutReturns {c : Char} {t : QString} (h : c ∈ withoutReturns t) : c ∈ t := (List.mem_filter.mp h).1

theorem fromString_stored {s : Status} (h : Written s) (hlines : Lines s) :
    Status.fromString (lineOf { sent s with
      pluginName := fromUtf8 (withoutReturns s.pluginName)
      fieldName := withoutReturns s.fieldName }) = some (stored s, true) := by
  have hplugin : Clean (· == ':') (fromUtf8 (withoutReturns s.pluginName)) := fun c hc =>
    clean_of_notMem h.pluginName.2 hlines.pluginName.2 c (mem_withoutReturns ((fromUtf8_sublist _).subset hc))
  have hfield : Clean (fun c => c == '[' || c == '=') (withoutReturns s.fieldName) := fun c hc =>
    clean_of_not_stops (not_stops h) hlines.fieldName c (mem_withoutReturns hc)
  exact fromString_lineOf hplugin hfield h.state (nul_notMem_fromUtf8 h.value)

theorem readline_sent {s : Status} (h : Written s) (hlines : Lines s) (rest : Bytes) :
    readline [] (bytesOf s ++ rest) = (lineOf { sent s with
      pluginName := fromUtf8 (withoutReturns s.pluginName)
      fieldName := withoutReturns s.fieldName }, true, rest) := by
  have hnul : nul ∉ lineOf (sent s) := nul_notMem_lineOf (s := sent s) hlines.pluginName.2 hlines.fieldName (nul_notMem_fromUtf8 h.value)
  rw [bytesOf, List.append_assoc, List.singleton_append, readline_lineOf (newline_notMem_sent h hlines) hnul]
  rfl

section
variable {l : List Status}

/-- `read_all()` goes over all the lines. -/
theorem readAllFrom_lines (hl : ∀ s ∈ l, Written s ∧ Lines s) (s : ServerStatus qt) :
    readAllFrom s (l.flatMap bytesOf) =
      some ({ s with statuses := s.statuses.setAll (l.map stored), file := some [] }, !s.hasError) := by
  induction l generalizing s with
  | nil =>
    rw [List.flatMap_nil, readAllFrom]
    rfl
  | cons status l ih =>
    rw [List.forall_mem_cons] at hl
    have hline := readline_sent hl.1.1 hl.1.2 (l.flatMap bytesOf)
    have hne := lineOf_ne_nil { sent status with
      pluginName := fromUtf8 (withoutReturns status.pluginName)
      fieldName := withoutReturns status.fieldName }
    rw [List.flatMap_cons, readAllFrom]
    simp only [hline, List.isEmpty_eq_false_iff.mpr hne, fromString_stored hl.1.1 hl.1.2, Bool.not_false, if_true, dite_true]
    exact ih hl.2 _

/-- `read_header()` goes over some of the lines and leaves the others. -/
theorem readHeaderFrom_lines (hl : ∀ s ∈ l, Written s ∧ Lines s) (s : ServerStatus qt) :
    ∃ l₁ l₂, l = l₁ ++ l₂ ∧ readHeaderFrom s (l.flatMap bytesOf) =
      some ({ s with statuses := s.statuses.setAll (l₁.map stored), file := some (l₂.flatMap bytesOf) }, true) := by
  induction l generalizing s with
  | nil =>
    refine ⟨[], [], rfl, ?_⟩
    rw [List.flatMap_nil, readHeaderFrom]
    rfl
  | cons status l ih =>
    rw [List.forall_mem_cons] at hl
    have hline := readline_sent hl.1.1 hl.1.2 (l.flatMap bytesOf)
    have hne := lineOf_ne_nil { sent status with
      pluginName := fromUtf8 (withoutReturns status.pluginName)
      fieldName := withoutReturns status.fieldName }
    rw [List.flatMap_cons, readHeaderFrom]
    simp only [hline, List.isEmpty_eq_false_iff.mpr hne, fromString_stored hl.1.1 hl.1.2, Bool.not_false, if_true, true_and]
    split
    · obtain ⟨l₁, l₂, rfl, hread⟩ := ih hl.2 (({ s with file := some (l.flatMap bytesOf) } : ServerStatus qt).setField (stored status))
      exact ⟨status :: l₁, l₂, rfl, hread⟩
    · exact ⟨[status], l, rfl, rfl⟩

end

/-- A file that was written is opened up to its first line. -/
theorem openForRead_content {disk : Disk} {s : ServerStatus qt} {b : Bytes}
    (h : disk s.filename = some (statusFileMagic.utf8 ++ 0x0A :: b)) : openForRead disk s = ({ s.close with file := some b }, true) := by
  have hline : readline [] (statusFileMagic.utf8 ++ 0x0A :: b) = (statusFileMagic, true, b) := by
    rw [readline_utf8 (by decide) (by decide), List.nil_append, fromCString_utf8 (by decide)]
    rfl
  have hdisk : disk s.close.filename = some (statusFileMagic.utf8 ++ 0x0A :: b) := h
  simp only [openForRead, hdisk, hline, Bool.not_true, Bool.false_eq_true, if_false, ne_eq, not_true_eq_false]

section
variable {m : Statuses qt} {disk : Disk} {filename : QString}

theorem mem_written {s : Status} {l : List Status} (h : s ∈ written l) : s ∈ l := by
  rcases List.mem_append.mp h with h | h
  · exact (List.dropWhile_sublist _).subset ((List.takeWhile_sublist _).subset h)
  · exact (List.mem_filter.mp h).1

theorem readAll_content (h : ∀ status ∈ m.values, Written status) (hlines : ∀ status ∈ m.values, Lines status)
    (hname : filename ≠ []) (hdisk : disk filename = some (contentOf m.values)) :
    readAll disk ({ filename } : ServerStatus qt) =
      some ({ filename, statuses := (∅ : Statuses qt).setAll ((written m.values).map stored), file := some [] }, true) := by
  have hopen := openForRead_content (s := ({ filename } : ServerStatus qt)) hdisk
  have hempty : ¬filename.isEmpty := by rwa [List.isEmpty_iff]
  have hread := readAllFrom_lines (l := written m.values)
    (fun s hs => ⟨h s (mem_written hs), hlines s (mem_written hs)⟩)
    ({ filename, file := some ((written m.values).flatMap bytesOf) } : ServerStatus qt)
  simp only [readAll, hempty, Bool.false_eq_true, if_false, hopen, Bool.not_true, Option.getD_some]
  exact hread

/-- The header first, then the rest: the same statuses. -/
theorem readHeader_content (h : ∀ status ∈ m.values, Written status) (hlines : ∀ status ∈ m.values, Lines status)
    (hname : filename ≠ []) (hdisk : disk filename = some (contentOf m.values)) :
    ∃ other, readHeader disk ({ filename } : ServerStatus qt) = some (other, true) ∧ readAll disk other =
      some ({ filename, statuses := (∅ : Statuses qt).setAll ((written m.values).map stored), file := some [] }, true) := by
  have hwritten : ∀ s ∈ written m.values, Written s ∧ Lines s := fun s hs => ⟨h s (mem_written hs), hlines s (mem_written hs)⟩
  have hopen := openForRead_content (s := ({ filename } : ServerStatus qt)) hdisk
  have hempty : ¬filename.isEmpty := by rwa [List.isEmpty_iff]
  obtain ⟨l₁, l₂, hl, hread⟩ := readHeaderFrom_lines hwritten
    ({ filename, file := some ((written m.values).flatMap bytesOf) } : ServerStatus qt)
  refine ⟨{ filename, statuses := (∅ : Statuses qt).setAll (l₁.map stored), file := some (l₂.flatMap bytesOf) }, ?_, ?_⟩
  · simp only [readHeader, hempty, Bool.false_eq_true, if_false, hopen, Bool.not_true, Option.getD_some]
    exact hread
  · have hrest := readAllFrom_lines (fun s hs => hwritten s (by rw [hl]; exact List.mem_append_right l₁ hs))
      ({ filename, statuses := (∅ : Statuses qt).setAll (l₁.map stored), file := some (l₂.flatMap bytesOf) } : ServerStatus qt)
    rw [hl, List.map_append, setAll_append]
    exact hrest

end

/-! ### The header -/

/-- All the fields of the header are written exactly where no other plugin has a key between two of theirs. -/
theorem header_written_iff (m : Statuses qt) :
    HeaderTogether m ↔ ∀ s ∈ m.values, isHeader s = true → s ∈ headerOf m.values := by
  have hsplit : m.values = m.values.takeWhile isField ++
      (headerOf m.values ++ (m.values.dropWhile isField).dropWhile isHeader) := by
    rw [headerOf, List.takeWhile_append_dropWhile, List.takeWhile_append_dropWhile]
  have hsorted : m.values.Pairwise fun a b => key qt a < key qt b := List.pairwise_map.mp m.sorted_keys
  have hfront : ∀ s ∈ m.values.takeWhile isField, isHeader s = false := fun s hs => by
    simpa [isField] using List.mem_takeWhile_imp hs
  constructor
  · intro htogether s hs hheader
    rw [hsplit, List.mem_append, List.mem_append] at hs
    rcases hs with hs | hs | hs
    · rw [hfront s hs] at hheader
      cases hheader
    · exact hs
    · -- the field behind the header comes between the two
      exfalso
      obtain ⟨b, v, hv⟩ := List.exists_cons_of_ne_nil (List.ne_nil_of_mem hs)
      have hb : isHeader b = false := by
        have hhead := List.head?_dropWhile_not isHeader (m.values.dropWhile isField)
        rw [hv] at hhead
        simpa using hhead
      obtain ⟨a, w, ha⟩ : ∃ a w, headerOf m.values = a :: w := by
        refine List.exists_cons_of_ne_nil fun hnil => ?_
        have hfirst := List.head?_dropWhile_not isField m.values
        have hback : m.values.dropWhile isField = b :: v := by
          rw [← hv, ← List.takeWhile_append_dropWhile (p := isHeader) (l := m.values.dropWhile isField),
            ← headerOf, hnil, List.nil_append]
          simp [List.dropWhile_idempotent]
        rw [hback] at hfirst
        simp [isField, hb] at hfirst
      have haheader : isHeader a = true := List.mem_takeWhile_imp (ha ▸ List.mem_cons_self : a ∈ headerOf m.values)
      rw [ha, hv] at hsplit
      rw [hv, List.mem_cons] at hs
      have hs' : s ∈ v := hs.resolve_left fun hsb => by
        rw [hsb, hb] at hheader
        cases hheader
      rw [hsplit] at hsorted
      obtain ⟨-, hsorted, -⟩ := List.pairwise_append.mp hsorted
      obtain ⟨-, hbv, hab⟩ := List.pairwise_append.mp hsorted
      have hmem : ∀ x ∈ a :: w ++ b :: v, x ∈ m.values := fun x hx => by
        rw [hsplit]
        exact List.mem_append_right _ hx
      have hbetween := htogether _ (entry_of_mem (hmem a (by simp))) _ (entry_of_mem (hmem b (by simp))) _
        (entry_of_mem (hmem s (by simp [hs']))) (hab a List.mem_cons_self b List.mem_cons_self)
        ((List.pairwise_cons.mp hbv).1 s hs') (isHeader_iff.mp haheader) (isHeader_iff.mp hheader)
      rw [isHeader_iff.mpr hbetween] at hb
      cases hb
  · intro hwritten a ha b hb c hc hab hbc haheader hcheader
    have haw := hwritten a.2 (mem_values ha) (isHeader_iff.mpr haheader)
    have hcw := hwritten c.2 (mem_values hc) (isHeader_iff.mpr hcheader)
    have hbm := mem_values hb
    rw [m.keyed a ha, m.keyed b hb] at hab
    rw [m.keyed b hb, m.keyed c hc] at hbc
    rw [hsplit] at hsorted
    obtain ⟨-, hback, hfar⟩ := List.pairwise_append.mp hsorted
    obtain ⟨-, -, hbehind⟩ := List.pairwise_append.mp hback
    rw [hsplit, List.mem_append, List.mem_append] at hbm
    rcases hbm with hbm | hbm | hbm
    · exact absurd hab (hfar _ hbm _ (List.mem_append_left _ haw)).asymm
    · exact isHeader_iff.mp (List.mem_takeWhile_imp hbm)
    · exact absurd hbc (hbehind _ hcw _ hbm).asymm

theorem written_perm {l : List Status} (h : ∀ s ∈ l, isHeader s = true → s ∈ headerOf l) (hl : l.Nodup) : (written l).Perm l := by
  have hnodup : (written l).Nodup := by
    refine List.nodup_append'.mpr ⟨((List.takeWhile_sublist _).trans (List.dropWhile_sublist _)).nodup hl, hl.filter _, ?_⟩
    intro s hs hs'
    have hheader : isHeader s = true := List.mem_takeWhile_imp hs
    simp [isField, hheader] at hs'
  refine (List.perm_ext_iff_of_nodup hnodup hl).mpr fun s => ⟨mem_written, fun hs => ?_⟩
  cases hheader : isHeader s with
  | true => exact List.mem_append_left _ (h s hs hheader)
  | false => exact List.mem_append_right _ (List.mem_filter.mpr ⟨hs, by rw [isField, hheader]; rfl⟩)

/-! ### Both ways -/

/-- Names that all come from names of the list, less a byte order mark, have none. -/
theorem bom_notMem {l : List Status} (hreturn : ∀ s ∈ l, '\r' ∉ s.pluginName)
    (h : ∀ s ∈ l, ∃ x ∈ l, s.pluginName = fromUtf8 (withoutReturns x.pluginName)) : ∀ s ∈ l, s.pluginName.head? ≠ some bom := by
  intro s hs hbom
  have hmem : s.pluginName.length ∈ (l.filter fun s => s.pluginName.head? = some bom).map fun s => s.pluginName.length :=
    List.mem_map_of_mem (List.mem_filter.mpr ⟨hs, decide_eq_true hbom⟩)
  -- the longest of these names comes from a longer one
  obtain ⟨x, hx, hlongest⟩ := List.mem_map.mp (List.max_mem (List.ne_nil_of_mem hmem))
  obtain ⟨hx, hxbom⟩ := List.mem_filter.mp hx
  obtain ⟨y, hy, hxy⟩ := h x hx
  rw [withoutReturns_eq_self (hreturn y hy)] at hxy
  obtain ⟨t, ht⟩ := List.head?_eq_some_iff.mp (of_decide_eq_true hxbom)
  have hyname : y.pluginName = bom :: x.pluginName := by
    cases hname : y.pluginName with
    | nil =>
      rw [hname, ht] at hxy
      cases hxy
    | cons c name =>
      rw [hname] at hxy
      by_cases hc : c.toNat = 0xFEFF
      · have hcbom : c = bom := Char.toNat_inj.mp hc
        rw [hcbom] at hxy ⊢
        rw [hxy, fromUtf8_bom]
      · rw [fromUtf8, if_neg hc, ht] at hxy
        exact absurd (congrArg Char.toNat (List.cons.inj hxy).1).symm hc
  have hymem : y.pluginName.length ∈ (l.filter fun s => s.pluginName.head? = some bom).map fun s => s.pluginName.length :=
    List.mem_map_of_mem (List.mem_filter.mpr ⟨hy, decide_eq_true (by rw [hyname]; rfl)⟩)
  have hle := List.le_max_of_mem hymem
  rw [← hlongest, hyname, List.length_cons] at hle
  omega

theorem stored_eq_self {s : Status} (h : Plain s) : stored s = s := by
  rw [stored, withoutReturns_eq_self h.pluginName.2.1, withoutReturns_eq_self h.fieldName.1, fromUtf8_eq_self h.pluginName.2.2.2,
    fromUtf8_eq_self h.value, fromUtf8_eq_self h.value]

/-- The file gives the statuses back unless a name is changed or a field of the header is left out. -/
theorem setAll_stored_iff {m : Statuses qt} (hlines : ∀ status ∈ m.values, Lines status ∧ status.value.head? ≠ some bom) :
    (∅ : Statuses qt).setAll ((written m.values).map stored) = m ↔ (∀ status ∈ m.values, Plain status) ∧ HeaderTogether m := by
  have hnodup : m.values.Nodup := List.Nodup.of_map _ m.nodup_keys
  constructor
  · intro hsame
    have hfrom : ∀ s ∈ m.values, ∃ x ∈ written m.values, s = stored x := fun s hs => by
      have hentry := entry_of_mem hs
      rw [← hsame] at hentry
      obtain ⟨x, hx, hxs⟩ := List.mem_map.mp (mem_of_mem_setAll hentry)
      exact ⟨x, hx, hxs.symm⟩
    have hreturn : ∀ s ∈ m.values, '\r' ∉ s.pluginName ∧ '\r' ∉ s.fieldName := fun s hs => by
      obtain ⟨x, -, rfl⟩ := hfrom s hs
      have hfilter : ∀ t, '\r' ∉ withoutReturns t := fun t ht => by simp [withoutReturns] at ht
      exact ⟨fun hr => hfilter _ ((fromUtf8_sublist _).subset hr), hfilter _⟩
    have hbom := bom_notMem (fun s hs => (hreturn s hs).1) fun s hs => by
      obtain ⟨x, hx, rfl⟩ := hfrom s hs
      exact ⟨x, mem_written hx, rfl⟩
    have hplain : ∀ status ∈ m.values, Plain status := fun s hs =>
      ⟨⟨(hlines s hs).1.pluginName.1, (hreturn s hs).1, (hlines s hs).1.pluginName.2, hbom s hs⟩,
        ⟨(hreturn s hs).2, (hlines s hs).1.fieldName⟩, (hlines s hs).2⟩
    refine ⟨hplain, (header_written_iff m).mpr fun s hs hheader => ?_⟩
    have hkey : key qt s ∈ (written m.values).map (key qt) := by
      by_contra hnot
      have hnone := find?_setAll_of_notMem (g := stored) (fun x hx => by rw [stored_eq_self (hplain x (mem_written hx))]) hnot
      rw [hsame, find?_of_mem hs] at hnone
      cases hnone
    obtain ⟨x, hx, hxs⟩ := List.mem_map.mp hkey
    have hxeq : x = s := List.inj_on_of_nodup_map m.nodup_keys (mem_written hx) hs hxs
    rw [hxeq] at hx
    refine (List.mem_append.mp hx).resolve_right fun hother => ?_
    simp [isField, hheader] at hother
  · rintro ⟨hplain, htogether⟩
    have hmap : (written m.values).map stored = written m.values :=
      (List.map_congr_left fun s hs => stored_eq_self (hplain s (mem_written hs))).trans (List.map_id _)
    rw [hmap]
    exact setAll_of_perm (written_perm ((header_written_iff m).mp htogether) hnodup)

/-- All the statuses survive unless one of the texts is not plain or a field of the header is left out. -/
theorem statuses_survive_iff (s : ServerStatus qt) (h : ∀ status ∈ s.statuses.values, Written status) : Survives s ↔ Kept s := by
  constructor
  · intro hsurvives
    have hlines := (transport_iff h).mp hsurvives.transport
    obtain ⟨disk, s', other, hwrite, hread, hsame⟩ := hsurvives.storage fun _ => none
    have hname : s.filename ≠ [] := fun hempty => by
      have hclosed : s.close.filename.isEmpty = true := List.isEmpty_iff.mpr hempty
      rw [write, if_pos hclosed] at hwrite
      cases hwrite
    rw [write_eq _ h hname] at hwrite
    cases hwrite
    rw [readAll_content h (fun status hs => (hlines status hs).1) hname (if_pos rfl)] at hread
    cases hread
    obtain ⟨hplain, htogether⟩ := (setAll_stored_iff hlines).mp hsame
    exact ⟨hname, hplain, htogether⟩
  · intro hkept
    have hlines : ∀ status ∈ s.statuses.values, Lines status ∧ status.value.head? ≠ some bom := fun status hs =>
      have hplain := hkept.plain status hs
      ⟨⟨⟨hplain.pluginName.1, hplain.pluginName.2.2.1⟩, hplain.fieldName.2⟩, hplain.value⟩
    have hsame := (setAll_stored_iff hlines).mpr ⟨hkept.plain, hkept.header⟩
    refine ⟨(transport_iff h).mpr hlines, fun disk => ?_, fun disk => ?_⟩
    · exact ⟨_, _, _, write_eq disk h hkept.filename,
        readAll_content h (fun status hs => (hlines status hs).1) hkept.filename (if_pos rfl), hsame⟩
    · have hwrite := write_eq disk h hkept.filename
      generalize hdisk : (fun name => if name = s.filename then some (contentOf s.statuses.values) else disk name) = disk' at hwrite
      have hfile : disk' s.filename = some (contentOf s.statuses.values) := by
        rw [← hdisk]
        exact if_pos rfl
      obtain ⟨other, hheader, hread⟩ := readHeader_content h (fun status hs => (hlines status hs).1) hkept.filename hfile
      exact ⟨disk', _, other, _, hwrite, hheader, hread, hsame⟩

/-! ### Examples -/

/-- One status. -/
def single (status : Status) : ServerStatus wholeNumbers where
  filename := ['f']
  statuses := (∅ : Statuses wholeNumbers).set status

theorem kept_single {status : Status} (h : Plain status) : Kept (single status) where
  filename := List.cons_ne_nil _ _
  plain s hs := by
    rw [List.mem_singleton.mp hs]
    exact h
  header a ha b hb _ _ hab := by
    rw [List.mem_singleton.mp ha, List.mem_singleton.mp hb] at hab
    exact absurd hab (lt_irrefl _)

theorem written_up : Written { pluginName := ['s'], fieldName := ['u'], value := ['1'] } :=
  ⟨by decide, by decide, by decide, by decide⟩

/-- A server that is up. -/
theorem survives_up : Survives (single { pluginName := ['s'], fieldName := ['u'], value := ['1'] }) :=
  (statuses_survive_iff (single { pluginName := ['s'], fieldName := ['u'], value := ['1'] }) fun status hs => by
    rw [List.mem_singleton.mp hs]
    exact written_up).mpr (kept_single ⟨by decide, by decide, by decide⟩)

/-- A value that is a byte order mark does not come back. -/
theorem not_survives_bom : Written { pluginName := ['s'], fieldName := ['u'], value := [bom] } ∧
    ¬Survives (single { pluginName := ['s'], fieldName := ['u'], value := [bom] }) := by
  have hwritten : Written { pluginName := ['s'], fieldName := ['u'], value := [bom] } :=
    ⟨by decide, by decide, by decide, by decide⟩
  refine ⟨hwritten, fun h => ?_⟩
  have hall : ∀ status ∈ (single { pluginName := ['s'], fieldName := ['u'], value := [bom] }).statuses.values, Written status :=
    fun status hs => by
      rw [List.mem_singleton.mp hs]
      exact hwritten
  exact ((transport_iff hall).mp h.transport _ (List.mem_singleton_self _)).2 rfl

end ServerStatus
end SnapManager
end Snapwebsites
