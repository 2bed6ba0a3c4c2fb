import Snapwebsites.SnapChild.Form
import Snapwebsites.SnapChild.Domain
import Snapwebsites.SnapUri.Shrink

/-! # Reading a form line by line

The lines of a part are put together again with their line ends, so the content in front of the next boundary is what was sent
(`readPost_content`). What a part then adds to what is stored is `FormPart.store`, and a form adds its parts in their order
(`processPost_body`). -/

namespace Snapwebsites
open QString SnapUri

namespace SnapChild

/-! ### Texts and bytes -/

theorem mem_utf8 {x : UInt8} (hx : x.toNat < 128) (s : QString) : x ∈ s.utf8 ↔ Char.ofNat x.toNat ∈ s := by
  rw [← List.count_pos_iff, count_utf8 hx, List.count_pos_iff]

theorem utf8_append (s t : QString) : utf8 (s ++ t) = s.utf8 ++ t.utf8 := List.flatMap_append

theorem toLatin1_ascii {s : QString} (hs : ∀ c ∈ s, c.toNat < 128) : ReadEnv.toLatin1 s = s.utf8 := by
  rw [utf8_ascii hs, ReadEnv.toLatin1]
  induction s with
  | nil => rfl
  | cons c s ih =>
    have hc : c.toNat < 128 := hs c List.mem_cons_self
    have hunit : utf16 c = [c.toNat] := if_pos (by omega)
    rw [List.flatMap_cons, hunit, List.singleton_append, List.map_cons, List.map_cons, if_pos (by omega),
      ih fun d hd => hs d (List.mem_cons_of_mem _ hd)]

/-- Every byte of a text of ASCII is one. -/
theorem utf8_lt_iff {s : QString} : (∀ x ∈ s.utf8, x < 0x80) ↔ ∀ c ∈ s, c.toNat < 128 := by
  constructor
  · intro h c hc
    by_contra hge
    obtain ⟨x, hx⟩ : ∃ x, x ∈ String.utf8EncodeChar c := by
      refine List.exists_mem_of_ne_nil _ fun hnil => ?_
      have hlength := String.length_utf8EncodeChar c
      rw [hnil] at hlength
      exact c.utf8Size_pos.ne hlength
    have hlt : x.toNat < 128 := UInt8.lt_iff_toNat_lt.mp (h x (List.mem_flatMap.mpr ⟨c, hc, hx⟩))
    have := toNat_eq_of_mem hx hlt
    omega
  · intro h x hx
    rw [utf8_ascii h] at hx
    obtain ⟨c, hc, rfl⟩ := List.mem_map.mp hx
    have := h c hc
    rw [UInt8.lt_iff_toNat_lt, UInt8.toNat_ofNat']
    show c.toNat % 256 < 128
    omega

/-! ### Lines -/

section Lines
variable {L : Library} {r : ReadEnv} {boundary : Boundary} {line content : Bytes}

namespace ReadEnv

/-- A line is read up to its end and processed. -/
theorem readPost_line (hline : 0x0A ∉ line) (s : Bytes) : readPost L r (line ++ 0x0A :: s) =
    match processPostLine L { r with postLine := r.postLine ++ line } with
    | .error e => .error e
    | .ok (true, r) => .ok (r, s)
    | .ok (false, r) => readPost L { r with postLine := [] } s := by
  induction line generalizing r with
  | nil =>
    have hline : r.postLine ++ [] = r.postLine := List.append_nil _
    rw [List.nil_append, readPost, if_pos rfl]
    generalize r.postLine ++ [] = l at hline
    subst hline
    rfl
  | cons c line ih =>
    have hc : c ≠ 0x0A := fun h => hline (h ▸ List.mem_cons_self)
    rw [List.cons_append, readPost, if_neg hc, ih fun h => hline (List.mem_cons_of_mem _ h), List.append_assoc]
    rfl

/-- The reader knows the boundary and is at the beginning of a line of a part. -/
structure Started (boundary : Boundary) (r : ReadEnv) : Prop where
  first : r.postFirst = false
  line : r.postLine = []
  endBoundary : r.endBoundary = boundary.close ++ [0x0D]
  boundary : r.boundary = boundary.delimiter ++ [0x0D]

theorem processPostLine_content (h : Started boundary r) (hheader : r.postHeader = false)
    (hline : line ≠ boundary.delimiter ++ [0x0D] ∧ line ≠ boundary.close ++ [0x0D]) :
    processPostLine L { r with postLine := line } =
      .ok (false, { r with postLine := line, postContent := r.postContent ++ line ++ [0x0A] }) := by
  simp [processPostLine, h.first, h.boundary, h.endBoundary, hheader, hline]

/-- Lines that are not a boundary are put behind the content. -/
theorem readPost_lines (h : Started boundary r) (hheader : r.postHeader = false) {lines : List Bytes}
    (hlines : ∀ line ∈ lines, 0x0A ∉ line ∧ line ≠ boundary.delimiter ++ [0x0D] ∧ line ≠ boundary.close ++ [0x0D]) (s : Bytes) :
    readPost L r (lines.flatMap (· ++ [0x0A]) ++ s) =
      readPost L { r with postContent := r.postContent ++ lines.flatMap (· ++ [0x0A]) } s := by
  induction lines generalizing r with
  | nil => rw [List.flatMap_nil, List.nil_append, List.append_nil]
  | cons line lines ih =>
    obtain ⟨hend, hline⟩ := hlines line List.mem_cons_self
    have hrest : Started boundary { r with postContent := r.postContent ++ line ++ [0x0A] } :=
      ⟨h.first, h.line, h.endBoundary, h.boundary⟩
    rw [List.flatMap_cons, List.append_assoc, List.append_assoc, List.singleton_append, readPost_line hend, h.line,
      List.nil_append, processPostLine_content h hheader hline]
    have ih := ih hrest hheader fun l hl => hlines l (List.mem_cons_of_mem _ hl)
    simpa only [h.line, List.append_assoc] using ih

theorem intercalate_append (x : UInt8) : ∀ {l : List Bytes}, l ≠ [] → [x].intercalate l ++ [x] = l.flatMap (· ++ [x])
  | [], h => absurd rfl h
  | [a], _ => by simp
  | a :: b :: l, _ => by
    rw [List.intercalate_cons_cons, List.append_assoc, intercalate_append x (List.cons_ne_nil b l)]
    rfl

/-- The content and its line end are put behind the content. -/
theorem readPost_content (h : Started boundary r) (hheader : r.postHeader = false) (hcontent : boundary.NotLine content)
    (s : Bytes) : readPost L r (content ++ crlf ++ s) = readPost L { r with postContent := r.postContent ++ (content ++ crlf) } s := by
  have hlines : content ++ crlf = ((content ++ [0x0D]).splitOn 0x0A).flatMap (· ++ [0x0A]) := by
    rw [← intercalate_append _ (List.splitOn_ne_nil _ _), List.intercalate_splitOn, List.append_assoc]
    rfl
  rw [hlines]
  exact readPost_lines h hheader (fun line hline => ⟨notMem_of_mem_splitOn hline, hcontent line hline⟩) s

/-! ### The header of a part -/

/-- What is stored of the value of a header: the text up to a NUL, without the blanks around it and the line end. -/
def headerValue (value : QString) : QString := trimmed (constData (value ++ ['\r']))

/-- A name of a header is printable and has neither a colon nor a dash in front. -/
structure HeaderName (name : QString) : Prop where
  ne_nil : name ≠ []
  dash : name.head? ≠ some '-'
  printable : ∀ c ∈ name, 0x20 < c.toNat ∧ c.toNat < 0x7F ∧ c ≠ ':'

theorem isSpace_printable {c : Char} (hc : 0x20 < c.toNat ∧ c.toNat < 0x7F) : isSpace c = false := by
  simp only [isSpace, Bool.or_eq_false_iff, Bool.and_eq_false_iff, decide_eq_false_iff_not]
  omega

theorem trimmed_printable {s : QString} (hs : ∀ c ∈ s, 0x20 < c.toNat ∧ c.toNat < 0x7F) : trimmed s = s :=
  trimmed_eq_self (fun c hc => isSpace_printable (hs c (List.mem_of_mem_head? hc)))
    fun c hc => isSpace_printable (hs c (List.mem_of_getLast? hc))

variable {name value : QString}

theorem HeaderName.nul_notMem (h : HeaderName name) : nul ∉ name := fun hmem => by
  have := (h.printable nul hmem).1
  simp [nul] at this

/-- What a `QString` takes of the line of a header. -/
theorem constData_field (h : HeaderName name) : constData (name ++ ':' :: value ++ ['\r']) = name ++ ':' :: constData (value ++ ['\r']) := by
  rw [List.append_assoc, constData, takeWhile_ne_append h.nul_notMem, List.cons_append, List.takeWhile_cons_of_pos (by decide)]
  rfl

theorem fromCString_field (h : HeaderName name) :
    fromCString (utf8 (name ++ ':' :: value) ++ [0x0D]) = name ++ ':' :: constData (value ++ ['\r']) := by
  have hline : utf8 (name ++ ':' :: value) ++ [0x0D] = utf8 (name ++ ':' :: value ++ ['\r']) := by
    rw [utf8_append _ ['\r']]
    rfl
  rw [hline, fromCString, takeWhile_utf8, decodeUtf8_utf8, constData_field h]
  refine fromUtf8_eq_self fun hbom => ?_
  rw [List.head?_append_of_ne_nil _ h.ne_nil] at hbom
  have := (h.printable bom (List.mem_of_mem_head? hbom)).2.1
  simp [bom] at this

theorem processPostHeader_field (h : HeaderName name) (hline : r.postLine = utf8 (name ++ ':' :: value) ++ [0x0D]) :
    processPostHeader L r =
      if ∀ c ∈ constData (value ++ ['\r']), c.toNat < 128 then
        .ok { r with
          name := name.map Char.toUpper
          postLine := r.postLine ++ [0]
          postEnvironment := r.postEnvironment.insert (name.map Char.toUpper) (headerValue value) }
      else .error (.badRequest "Your multi-part form header includes characters that are not compatible with the ASCII encoding.".toList
        "is_valid_ascii() returned false against a line of the user's multipart form header".toList) := by
  have hbytes : r.postLine.takeWhile (· ≠ 0) = utf8 (name ++ ':' :: constData (value ++ ['\r'])) := by
    have hline' : r.postLine = utf8 (name ++ ':' :: value ++ ['\r']) := by
      rw [hline, utf8_append _ ['\r']]
      rfl
    rw [hline', takeWhile_utf8, constData_field h]
  have hascii : L.isValidAscii (r.postLine.takeWhile (· ≠ 0)) = true ↔ ∀ c ∈ constData (value ++ ['\r']), c.toNat < 128 := by
    rw [L.isValidAscii_iff, hbytes, utf8_lt_iff]
    constructor
    · exact fun hall c hc => hall c (List.mem_append_right _ (List.mem_cons_of_mem _ hc))
    · intro hall c hc
      rcases List.mem_append.mp hc with hc | hc
      · exact (h.printable c hc).2.1.trans (by decide)
      · rcases List.mem_cons.mp hc with rfl | hc
        · decide
        · exact hall c hc
  have hcolon : ':' ∉ name := fun hmem => (h.printable ':' hmem).2.2 rfl
  have hspace : (((name ++ ':' :: constData (value ++ ['\r'])).head?.map isSpace).getD false) = false := by
    obtain ⟨c, rest, rfl⟩ := List.exists_cons_of_ne_nil h.ne_nil
    have hc := h.printable c List.mem_cons_self
    exact isSpace_printable ⟨hc.1, hc.2.1⟩
  have htrim : trimmed name = name := trimmed_printable fun c hc => ⟨(h.printable c hc).1, (h.printable c hc).2.1⟩
  rw [processPostHeader, hline, fromCString_field h, ← hline]
  have hmem : ':' ∈ name ++ ':' :: constData (value ++ ['\r']) := List.mem_append_right _ List.mem_cons_self
  have hvalid : (!L.isValidAscii (r.postLine.takeWhile (· ≠ 0))) = true ↔ ¬∀ c ∈ constData (value ++ ['\r']), c.toNat < 128 := by
    rw [Bool.not_eq_true', ← Bool.not_eq_true, hascii]
  simp only [hspace, hvalid, hmem, not_true_eq_false, if_false, takeWhile_ne_append hcolon, takeWhile_ne_cons,
    dropWhile_ne_append hcolon, dropWhile_ne_cons, List.append_nil, htrim, ite_not, Bool.false_eq_true]
  rfl

/-! ### From line to line -/

/-- The reader is in the header or in the content of a part. -/
structure Inside (boundary : Boundary) (header : Bool) (environment : SortedMap QString QString) (content : Bytes) (d : Posted)
    (r : ReadEnv) : Prop extends Started boundary r where
  header : r.postHeader = header
  environment : r.postEnvironment = environment
  content : r.postContent = content
  posted : r.posted = d

variable {environment : SortedMap QString QString} {d : Posted}

theorem delimiter_eq (boundary : Boundary) : boundary.delimiter ++ [0x0D] = utf8 ("--".toList ++ boundary.text ++ ['\r']) := by
  rw [utf8_append _ ['\r']]
  rfl

theorem close_eq (boundary : Boundary) : boundary.close ++ [0x0D] = utf8 ("--".toList ++ boundary.text ++ "--\r".toList) := by
  rw [utf8_append, Boundary.close, List.append_assoc]
  rfl

/-- A line that does not begin with a dash is not a boundary. -/
theorem notBoundary {s : QString} (hs : s.head? ≠ some '-') (boundary : Boundary) :
    s.utf8 ≠ boundary.delimiter ++ [0x0D] ∧ s.utf8 ≠ boundary.close ++ [0x0D] := by
  constructor
  · intro h
    rw [delimiter_eq] at h
    exact hs (utf8_inj h ▸ rfl)
  · intro h
    rw [close_eq] at h
    exact hs (utf8_inj h ▸ rfl)

theorem processPostLine_header (h : Inside boundary true environment content d r) {s : QString} (hs : s.head? ≠ some '-') (hne : s ≠ [])
    (hcr : s ≠ ['\r']) : processPostLine L { r with postLine := s.utf8 } =
      (processPostHeader L { r with postLine := s.utf8 }).map fun r => (false, r) := by
  have hnil : s.utf8 ≠ [] := fun heq => hne (utf8_inj heq)
  have hline : s.utf8 ≠ [0x0D] := fun heq => hcr (utf8_inj heq)
  simp [processPostLine, h.first, h.boundary, h.endBoundary, h.header, notBoundary hs boundary, hnil, hline]

theorem readPost_next {r' : ReadEnv} (h : r.postLine = []) (hline : 0x0A ∉ line)
    (hp : processPostLine L { r with postLine := line } = .ok (false, r')) (s : Bytes) :
    readPost L r (line ++ 0x0A :: s) = readPost L { r' with postLine := [] } s := by
  rw [readPost_line hline, h, List.nil_append, hp]

theorem readPost_stop {e : Stop} (h : r.postLine = []) (hline : 0x0A ∉ line)
    (hp : processPostLine L { r with postLine := line } = .error e) (s : Bytes) : readPost L r (line ++ 0x0A :: s) = .error e := by
  rw [readPost_line hline, h, List.nil_append, hp]

theorem readPost_last {r' : ReadEnv} (h : r.postLine = []) (hline : 0x0A ∉ line)
    (hp : processPostLine L { r with postLine := line } = .ok (true, r')) (s : Bytes) :
    readPost L r (line ++ 0x0A :: s) = .ok (r', s) := by
  rw [readPost_line hline, h, List.nil_append, hp]

/-- A blank line ends the header. -/
theorem readPost_blank (h : Inside boundary true environment content d r) (s : Bytes) :
    ∃ r', readPost L r (crlf ++ s) = readPost L r' s ∧ Inside boundary false environment content d r' := by
  have hcr : ['\r'].head? ≠ some '-' := by decide
  have hline : [0x0D] ≠ boundary.delimiter ++ [0x0D] ∧ [0x0D] ≠ boundary.close ++ [0x0D] := notBoundary hcr boundary
  have hblank : processPostLine L { r with postLine := [0x0D] } = .ok (false, { r with postLine := [0x0D], postHeader := false }) := by
    simp [processPostLine, h.first, h.boundary, h.endBoundary, h.header, hline]
  exact ⟨_, readPost_next h.line (by decide) hblank s, ⟨⟨h.first, rfl, h.endBoundary, h.boundary⟩, rfl, h.environment, h.content,
    h.posted⟩⟩

theorem notMem_lineEnd {s : QString} (hs : '\n' ∉ s) : 0x0A ∉ s.utf8 := fun hmem => hs ((mem_utf8 (by decide) s).mp hmem)

theorem field_line (name value : QString) (s : Bytes) :
    utf8 (name ++ ':' :: value) ++ crlf ++ s = utf8 (name ++ ':' :: value ++ ['\r']) ++ 0x0A :: s := by
  rw [utf8_append _ ['\r'], crlf, List.append_assoc, List.append_assoc]
  rfl

/-- A line of the header is stored when it is of ASCII, and the reader stops at another one. -/
theorem readPost_field (h : Inside boundary true environment content d r) (hname : HeaderName name) (hn : '\n' ∉ name)
    (hvalue : '\n' ∉ value) (s : Bytes) :
    if ∀ c ∈ constData (value ++ ['\r']), c.toNat < 128 then
      ∃ r', readPost L r (utf8 (name ++ ':' :: value) ++ crlf ++ s) = readPost L r' s ∧
        Inside boundary true (environment.insert (name.map Char.toUpper) (headerValue value)) content d r'
    else ∃ e, readPost L r (utf8 (name ++ ':' :: value) ++ crlf ++ s) = .error e := by
  have hend : 0x0A ∉ utf8 (name ++ ':' :: value ++ ['\r']) := notMem_lineEnd (by simp [hn, hvalue])
  have hdash : (name ++ ':' :: value ++ ['\r']).head? ≠ some '-' := by
    rw [List.append_assoc, List.head?_append_of_ne_nil _ hname.ne_nil]
    exact hname.dash
  have hcr : name ++ ':' :: value ++ ['\r'] ≠ ['\r'] := fun heq => by
    have hcolon : ':' ∈ name ++ ':' :: value ++ ['\r'] := by simp
    rw [heq] at hcolon
    exact absurd hcolon (by decide)
  have hprocess := processPostLine_header (L := L) h hdash (by simp) hcr
  have hfield := processPostHeader_field (L := L) (r := { r with postLine := utf8 (name ++ ':' :: value ++ ['\r']) }) hname
    (utf8_append (name ++ ':' :: value) ['\r'])
  rw [hfield] at hprocess
  rw [field_line]
  split
  · rename_i hascii
    rw [if_pos hascii] at hprocess
    refine ⟨_, readPost_next h.line hend hprocess s, ⟨⟨h.first, rfl, h.endBoundary, h.boundary⟩, h.header, ?_, h.content, h.posted⟩⟩
    rw [← h.environment]
  · rename_i hascii
    rw [if_neg hascii] at hprocess
    exact ⟨_, readPost_stop h.line hend hprocess s⟩

end ReadEnv

end Lines

/-! ### Parts -/

namespace FormPart

/-- What the reader takes of the disposition is of ASCII. -/
def Ascii (p : FormPart) : Prop := ∀ c ∈ constData (p.disposition ++ ['\r']), c.toNat < 128

instance decidableAscii (p : FormPart) : Decidable p.Ascii :=
  inferInstanceAs (Decidable (∀ c ∈ constData (p.disposition ++ ['\r']), c.toNat < 128))

/-- The header of a part, as it is stored. -/
def environment (p : FormPart) : SortedMap QString QString :=
  let disposition := SortedMap.insert ∅ "CONTENT-DISPOSITION".toList (ReadEnv.headerValue p.disposition)
  match p.data with
  | .field _ => disposition
  | .file f => disposition.insert "CONTENT-TYPE".toList (ReadEnv.headerValue (' ' :: f.contentType))

/-- What is stored once a part is read, unless the reader refuses it. -/
def store (L : Library) (d : Posted) (p : FormPart) : Option Posted :=
  if p.Ascii then
    (ReadEnv.readParams p.environment).toOption.bind fun params => (ReadEnv.storeVariable L p.environment params p.content d).toOption
  else none

/-- What a browser writes of a name: its own characters, or an escape. -/
theorem mem_escapeName {s : QString} {c : Char} (hc : c ∈ escapeName s) :
    c ∈ s ∧ c ≠ '"' ∧ c ≠ '\r' ∧ c ≠ '\n' ∨ c ∈ "%0DA2".toList := by
  have hquote : ∀ c ∈ "%22".toList, c ∈ "%0DA2".toList := by decide
  have hcr : ∀ c ∈ "%0D".toList, c ∈ "%0DA2".toList := by decide
  have hlf : ∀ c ∈ "%0A".toList, c ∈ "%0DA2".toList := by decide
  obtain ⟨x, hx, hc⟩ := List.mem_flatMap.mp hc
  split at hc
  · exact .inr (hquote c hc)
  · rename_i hxquote
    split at hc
    · exact .inr (hcr c hc)
    · rename_i hxcr
      split at hc
      · exact .inr (hlf c hc)
      · rename_i hxlf
        rw [List.mem_singleton.mp hc]
        exact .inl ⟨hx, hxquote, hxcr, hxlf⟩

theorem lineEnds_escapeName {s : QString} {c : Char} (hc : c ∈ escapeName s) : c ≠ '\r' ∧ c ≠ '\n' := by
  have hescape : ∀ c ∈ "%0DA2".toList, c ≠ '\r' ∧ c ≠ '\n' := by decide
  exact (mem_escapeName hc).elim (fun h => h.2.2) (hescape c)

/-- What is in a disposition besides the names. -/
theorem mem_disposition {p : FormPart} {c : Char} (hc : c ∈ p.disposition) :
    c ∈ " form-data; name=\"; filename=\"".toList ∨ c ∈ escapeName p.name ∨ ∃ f, p.data = .file f ∧ c ∈ escapeName f.filename := by
  have hfront : ∀ c ∈ " form-data; name=\"".toList, c ∈ " form-data; name=\"; filename=\"".toList := by decide
  have hfilename : ∀ c ∈ "; filename=\"".toList, c ∈ " form-data; name=\"; filename=\"".toList := by decide
  have hquote : '"' ∈ " form-data; name=\"; filename=\"".toList := by decide
  rcases List.mem_append.mp hc with hc | hc
  · rcases List.mem_append.mp hc with hc | hc
    · exact .inl (hfront c hc)
    · exact .inr (.inl hc)
  · rcases List.mem_cons.mp hc with rfl | hc
    · exact .inl hquote
    · split at hc
      · exact absurd hc List.not_mem_nil
      · rename_i f hf
        rcases List.mem_append.mp hc with hc | hc
        · rcases List.mem_append.mp hc with hc | hc
          · exact .inl (hfilename c hc)
          · exact .inr (.inr ⟨f, hf, hc⟩)
        · exact .inl (List.mem_singleton.mp hc ▸ hquote)

/-- A disposition is on one line. -/
theorem lineEnds_disposition {p : FormPart} {c : Char} (hc : c ∈ p.disposition) : c ≠ '\r' ∧ c ≠ '\n' := by
  have hline : ∀ c ∈ " form-data; name=\"; filename=\"".toList, c ≠ '\r' ∧ c ≠ '\n' := by decide
  rcases mem_disposition hc with hc | hc | ⟨f, -, hc⟩
  · exact hline c hc
  · exact lineEnds_escapeName hc
  · exact lineEnds_escapeName hc

end FormPart

namespace ReadEnv

variable {L : Library} {r : ReadEnv} {boundary : Boundary} {d : Posted} {p : FormPart}

theorem headerName_disposition : HeaderName "Content-Disposition".toList := ⟨by decide, by decide, by decide⟩

theorem headerName_type : HeaderName "Content-Type".toList := ⟨by decide, by decide, by decide⟩

theorem ascii_contentType (f : FormFile) : ∀ c ∈ constData (' ' :: f.contentType ++ ['\r']), c.toNat < 128 := by
  intro c hc
  rcases List.mem_append.mp ((constData_sublist _).subset hc) with hc | hc
  · rcases List.mem_cons.mp hc with rfl | hc
    · decide
    · have := (f.printable c hc).2
      omega
  · rw [List.mem_singleton.mp hc]
    decide

theorem lineEnd_notMem_contentType (f : FormFile) : '\n' ∉ ' ' :: f.contentType := by
  intro hmem
  rcases List.mem_cons.mp hmem with heq | hmem
  · exact absurd heq (by decide)
  · exact absurd (f.printable _ hmem).1 (by decide)

theorem disposition_line (s : QString) : "Content-Disposition:".toList ++ s = "Content-Disposition".toList ++ ':' :: s := by
  have hcolon : "Content-Disposition:".toList = "Content-Disposition".toList ++ [':'] := by decide
  rw [hcolon, List.append_assoc, List.singleton_append]

theorem contentType_line (s : QString) : "Content-Type: ".toList ++ s = "Content-Type".toList ++ ':' :: ' ' :: s := by
  have hcolon : "Content-Type: ".toList = "Content-Type".toList ++ [':', ' '] := by decide
  rw [hcolon, List.append_assoc, List.cons_append, List.singleton_append]

theorem encoded_field {text : QString} (hp : p.data = .field text) (s : Bytes) : p.encoded ++ s =
    utf8 ("Content-Disposition".toList ++ ':' :: p.disposition) ++ crlf ++ (crlf ++ (p.content ++ crlf ++ s)) := by
  simp only [FormPart.encoded, FormPart.headerLines, hp, disposition_line, List.flatMap_cons, List.flatMap_nil, List.append_nil,
    List.append_assoc]

theorem encoded_file {f : FormFile} (hp : p.data = .file f) (s : Bytes) : p.encoded ++ s =
    utf8 ("Content-Disposition".toList ++ ':' :: p.disposition) ++ crlf ++
      (utf8 ("Content-Type".toList ++ ':' :: ' ' :: f.contentType) ++ crlf ++ (crlf ++ (p.content ++ crlf ++ s))) := by
  simp only [FormPart.encoded, FormPart.headerLines, hp, disposition_line, contentType_line, List.flatMap_cons, List.flatMap_nil, List.append_nil,
    List.append_assoc]

/-- The content is put together, with the line end behind it. -/
theorem readPost_text {environment : SortedMap QString QString} {content : Bytes} (h : Inside boundary true environment [] d r)
    (hcontent : boundary.NotLine content) (s : Bytes) : ∃ r', readPost L r (crlf ++ (content ++ crlf ++ s)) = readPost L r' s ∧
      Inside boundary false environment (content ++ crlf) d r' := by
  obtain ⟨r₁, hread, h₁⟩ := readPost_blank (L := L) h (content ++ crlf ++ s)
  refine ⟨_, hread.trans (readPost_content h₁.toStarted h₁.header hcontent s),
    ⟨⟨h₁.first, h₁.line, h₁.endBoundary, h₁.boundary⟩, h₁.header, h₁.environment, ?_, h₁.posted⟩⟩
  rw [h₁.content, List.nil_append]

/-- A part is read up to its end when its header is of ASCII, and the reader stops otherwise. -/
theorem readPost_part (h : Inside boundary true ∅ [] d r) (hcontent : boundary.NotLine p.content) (s : Bytes) :
    if p.Ascii then ∃ r', readPost L r (p.encoded ++ s) = readPost L r' s ∧
      Inside boundary false p.environment (p.content ++ crlf) d r'
    else ∃ e, readPost L r (p.encoded ++ s) = .error e := by
  have hend : '\n' ∉ p.disposition := fun hmem => (FormPart.lineEnds_disposition hmem).2 rfl
  have hfirst : ∀ rest, _ := readPost_field (L := L) h headerName_disposition (by decide) hend
  cases hp : p.data with
  | field text =>
    rw [encoded_field hp]
    split
    · rename_i hascii
      obtain ⟨r₁, hread, h₁⟩ := (if_pos hascii).mp (hfirst (crlf ++ (p.content ++ crlf ++ s)))
      obtain ⟨r₂, hread', h₂⟩ := readPost_text (L := L) h₁ hcontent s
      refine ⟨r₂, hread.trans hread', ?_⟩
      rw [FormPart.environment, hp]
      exact h₂
    · rename_i hascii
      exact (if_neg hascii).mp (hfirst _)
  | file f =>
    rw [encoded_file hp]
    split
    · rename_i hascii
      obtain ⟨r₁, hread, h₁⟩ := (if_pos hascii).mp (hfirst _)
      have hsecond := readPost_field (L := L) h₁ headerName_type (by decide) (lineEnd_notMem_contentType f)
        (crlf ++ (p.content ++ crlf ++ s))
      rw [if_pos (ascii_contentType f)] at hsecond
      obtain ⟨r₂, hread', h₂⟩ := hsecond
      obtain ⟨r₃, hread'', h₃⟩ := readPost_text (L := L) h₂ hcontent s
      refine ⟨r₃, hread.trans (hread'.trans hread''), ?_⟩
      rw [FormPart.environment, hp]
      exact h₃
    · rename_i hascii
      exact (if_neg hascii).mp (hfirst _)

/-! ### The end of a part -/

theorem withoutLineEnd_crlf (content : Bytes) : withoutLineEnd (content ++ crlf) = content := by
  rw [crlf, withoutLineEnd, if_pos (List.suffix_append content _)]
  simp [List.dropLast_append_of_ne_nil]

/-- At its end a part is stored, and nothing else changes that the next part needs. -/
theorem processPostVariable_part (h : Inside boundary false p.environment (p.content ++ crlf) d r) (hascii : p.Ascii) (line : Bytes) :
    (∃ r', processPostVariable L { r with postLine := line } = .ok r' ∧ p.store L d = some r'.posted ∧ r'.postFirst = false ∧
      r'.endBoundary = boundary.close ++ [0x0D] ∧ r'.boundary = boundary.delimiter ++ [0x0D]) ∨
    ∃ e, processPostVariable L { r with postLine := line } = .error e ∧ p.store L d = none := by
  simp only [processPostVariable, FormPart.store, if_pos hascii, h.environment, h.content, h.posted, withoutLineEnd_crlf]
  cases readParams p.environment with
  | error e => exact .inr ⟨e, rfl, rfl⟩
  | ok params =>
    simp only [Except.toOption, Option.bind_some]
    cases hstore : storeVariable L p.environment params p.content d with
    | error e => exact .inr ⟨e, rfl, rfl⟩
    | ok d' => exact .inl ⟨_, rfl, rfl, h.first, h.endBoundary, h.boundary⟩

theorem boundary_line (boundary : Boundary) : 0x0A ∉ boundary.delimiter ++ [0x0D] ∧ 0x0A ∉ boundary.close ++ [0x0D] := by
  have htext : '\n' ∉ boundary.text := fun hmem => absurd (boundary.plain _ hmem).1 (by decide)
  rw [delimiter_eq, close_eq]
  exact ⟨notMem_lineEnd (by simp [htext]), notMem_lineEnd (by simp [htext])⟩

/-- Behind the next boundary the reader is in the header of the next part. -/
theorem readPost_delimiter (h : Inside boundary false p.environment (p.content ++ crlf) d r) (hascii : p.Ascii) (s : Bytes) :
    (∃ d' r', p.store L d = some d' ∧ readPost L r (boundary.delimiter ++ crlf ++ s) = readPost L r' s ∧
      Inside boundary true ∅ [] d' r') ∨
    p.store L d = none ∧ ∃ e, readPost L r (boundary.delimiter ++ crlf ++ s) = .error e := by
  have hline : boundary.delimiter ++ crlf ++ s = (boundary.delimiter ++ [0x0D]) ++ 0x0A :: s := by
    rw [crlf, List.append_assoc, List.append_assoc]
    rfl
  rw [hline]
  have hprocess : processPostLine L { r with postLine := boundary.delimiter ++ [0x0D] } =
      (processPostVariable L { r with postLine := boundary.delimiter ++ [0x0D] }).map fun r =>
        (false, { r with postHeader := true, postEnvironment := ∅, postContent := [] }) := by
    simp [processPostLine, h.first, h.boundary, h.endBoundary, Boundary.close]
  rcases processPostVariable_part (L := L) h hascii (boundary.delimiter ++ [0x0D]) with
    ⟨r', hr', hstore, hfirst, hend, hboundary⟩ | ⟨e, he, hstore⟩
  · rw [hr'] at hprocess
    exact .inl ⟨_, _, hstore, readPost_next h.line (boundary_line boundary).1 hprocess s, ⟨⟨hfirst, rfl, hend, hboundary⟩, rfl, rfl,
      rfl, rfl⟩⟩
  · rw [he] at hprocess
    exact .inr ⟨hstore, _, readPost_stop h.line (boundary_line boundary).1 hprocess s⟩

/-- The reader is done behind the last boundary. -/
theorem readPost_close (h : Inside boundary false p.environment (p.content ++ crlf) d r) (hascii : p.Ascii) (s : Bytes) :
    (∃ d' r', p.store L d = some d' ∧ readPost L r (boundary.close ++ crlf ++ s) = .ok (r', s) ∧ r'.posted = d') ∨
    p.store L d = none ∧ ∃ e, readPost L r (boundary.close ++ crlf ++ s) = .error e := by
  have hline : boundary.close ++ crlf ++ s = (boundary.close ++ [0x0D]) ++ 0x0A :: s := by
    rw [crlf, List.append_assoc, List.append_assoc]
    rfl
  rw [hline]
  have hprocess : processPostLine L { r with postLine := boundary.close ++ [0x0D] } =
      (processPostVariable L { r with postLine := boundary.close ++ [0x0D] }).map fun r => (true, r) := by
    simp [processPostLine, h.first, h.boundary, h.endBoundary, Boundary.close]
  rcases processPostVariable_part (L := L) h hascii (boundary.close ++ [0x0D]) with ⟨r', hr', hstore, -, -, -⟩ | ⟨e, he, hstore⟩
  · rw [hr'] at hprocess
    exact .inl ⟨_, _, hstore, readPost_last h.line (boundary_line boundary).2 hprocess s, rfl⟩
  · rw [he] at hprocess
    exact .inr ⟨hstore, _, readPost_stop h.line (boundary_line boundary).2 hprocess s⟩

/-! ### A form -/

theorem store_of_not_ascii (h : ¬p.Ascii) : p.store L d = none := if_neg h

/-- A part that is not the last one. -/
theorem readPost_nextPart (h : Inside boundary true ∅ [] d r) (hcontent : boundary.NotLine p.content) (s : Bytes) :
    (∃ d' r', p.store L d = some d' ∧ readPost L r (p.encoded ++ (boundary.delimiter ++ crlf ++ s)) = readPost L r' s ∧
      Inside boundary true ∅ [] d' r') ∨
    p.store L d = none ∧ ∃ e, readPost L r (p.encoded ++ (boundary.delimiter ++ crlf ++ s)) = .error e := by
  have hpart := readPost_part (L := L) h hcontent (boundary.delimiter ++ crlf ++ s)
  split at hpart
  · rename_i hascii
    obtain ⟨r₁, hread, h₁⟩ := hpart
    rw [hread]
    exact readPost_delimiter h₁ hascii s
  · rename_i hascii
    exact .inr ⟨store_of_not_ascii hascii, hpart⟩

/-- The last part. -/
theorem readPost_lastPart (h : Inside boundary true ∅ [] d r) (hcontent : boundary.NotLine p.content) (s : Bytes) :
    (∃ d' r', p.store L d = some d' ∧ readPost L r (p.encoded ++ (boundary.close ++ crlf ++ s)) = .ok (r', s) ∧ r'.posted = d') ∨
    p.store L d = none ∧ ∃ e, readPost L r (p.encoded ++ (boundary.close ++ crlf ++ s)) = .error e := by
  have hpart := readPost_part (L := L) h hcontent (boundary.close ++ crlf ++ s)
  split at hpart
  · rename_i hascii
    obtain ⟨r₁, hread, h₁⟩ := hpart
    rw [hread]
    exact readPost_close h₁ hascii s
  · rename_i hascii
    exact .inr ⟨store_of_not_ascii hascii, hpart⟩

/-- What follows the first boundary of a form. -/
def behindFirst (boundary : Boundary) (p : FormPart) (parts : List FormPart) (s : Bytes) : Bytes :=
  p.encoded ++ (parts.flatMap (fun q => boundary.delimiter ++ crlf ++ q.encoded) ++ (boundary.close ++ crlf ++ s))

theorem behindFirst_cons (boundary : Boundary) (p q : FormPart) (parts : List FormPart) (s : Bytes) :
    behindFirst boundary p (q :: parts) s = p.encoded ++ (boundary.delimiter ++ crlf ++ behindFirst boundary q parts s) := by
  simp only [behindFirst, List.flatMap_cons, List.append_assoc]

/-- The parts are read one after the other, up to the end of the form or up to one that is refused. -/
theorem readPost_parts {parts : List FormPart} (h : Inside boundary true ∅ [] d r)
    (hcontent : ∀ q ∈ p :: parts, boundary.NotLine q.content) (s : Bytes) :
    (∃ d' r', (p :: parts).foldlM (FormPart.store L) d = some d' ∧ readPost L r (behindFirst boundary p parts s) = .ok (r', s) ∧
      r'.posted = d') ∨
    (p :: parts).foldlM (FormPart.store L) d = none ∧ ∃ e, readPost L r (behindFirst boundary p parts s) = .error e := by
  have hp := hcontent p List.mem_cons_self
  induction parts generalizing p d r with
  | nil =>
    have hfold : [p].foldlM (FormPart.store L) d = p.store L d := by
      rw [List.foldlM_cons]
      exact bind_pure _
    rw [hfold]
    exact readPost_lastPart h hp s
  | cons q parts ih =>
    rw [behindFirst_cons, List.foldlM_cons]
    rcases readPost_nextPart (L := L) h hp (behindFirst boundary q parts s) with ⟨d', r', hstore, hread, h'⟩ | ⟨hstore, he⟩
    · rw [hread, hstore]
      exact ih h' (fun q' hq' => hcontent q' (List.mem_cons_of_mem _ hq')) (hcontent q (List.mem_cons_of_mem _ List.mem_cons_self))
    · rw [hstore]
      exact .inr ⟨rfl, he⟩

theorem trimmed_blank (s : QString) : trimmed (' ' :: s) = trimmed s := by
  have hblank : isSpace ' ' = true := by decide
  rw [trimmed, List.dropWhile_cons_of_pos hblank]
  rfl

theorem contentType_eq (boundary : Boundary) :
    boundary.contentType = "multipart/form-data".toList ++ ';' :: ' ' :: ("boundary=".toList ++ boundary.text) := by
  have htype : "multipart/form-data; boundary=".toList = "multipart/form-data".toList ++ ';' :: ' ' :: "boundary=".toList := rfl
  exact (congrArg (· ++ boundary.text) htype).trans (List.append_assoc _ _ _)

theorem boundaryOf_contentType (boundary : Boundary) : boundaryOf boundary.contentType = boundary.text := by
  have hprint : ∀ c ∈ boundary.text, 0x20 < c.toNat ∧ c.toNat < 0x7F := fun c hc => ⟨(boundary.plain c hc).1, (boundary.plain c hc).2.1⟩
  have hname : ∀ c ∈ "boundary=".toList, 0x20 < c.toNat ∧ c.toNat < 0x7F ∧ c ≠ ';' := by decide
  have hsemicolon : ';' ∉ ' ' :: ("boundary=".toList ++ boundary.text) := fun hmem => by
    rcases List.mem_append.mp (List.mem_of_ne_of_mem (by decide) hmem) with hmem | hmem
    · exact (hname _ hmem).2.2 rfl
    · exact (boundary.plain _ hmem).2.2 rfl
  have hsplit : boundary.contentType.splitOn ';' = ["multipart/form-data".toList, ' ' :: ("boundary=".toList ++ boundary.text)] := by
    have hplain : ';' ∉ "multipart/form-data".toList := by decide
    rw [contentType_eq]
    exact (List.splitOn_append_cons_self_of_not_mem hplain _).trans (congrArg _ (List.splitOn_eq_singleton hsemicolon))
  have hparam : trimmed (' ' :: ("boundary=".toList ++ boundary.text)) = "boundary=".toList ++ boundary.text := by
    refine (trimmed_blank _).trans (trimmed_printable fun c hc => ?_)
    rcases List.mem_append.mp hc with hc | hc
    · exact ⟨(hname c hc).1, (hname c hc).2.1⟩
    · exact hprint c hc
  have hfront : "boundary=".toList.isPrefixOf ("boundary=".toList ++ boundary.text) = true :=
    List.isPrefixOf_iff_prefix.mpr (List.prefix_append _ _)
  have hlength : "boundary=".toList.length = 9 := by decide
  simp only [boundaryOf, hsplit, List.drop_succ_cons, List.drop_zero, List.find?_cons, hparam, hfront, List.drop_left' hlength,
    trimmed_printable hprint]

/-- The reader that looks for the first boundary of a form. -/
structure AtForm (boundary : Boundary) (r : ReadEnv) : Prop where
  first : r.postFirst = true
  header : r.postHeader = true
  line : r.postLine = []
  environment : r.postEnvironment = ∅
  content : r.postContent = []
  posted : r.posted = {}
  endBoundary : r.endBoundary = boundary.close ++ [0x0D]
  boundary : r.boundary = boundary.delimiter ++ [0x0D]

theorem processPost_form (h : BeforePost boundary r) (s : Bytes) :
    ∃ r', processPost L r s = readPost L r' s ∧ AtForm boundary r' := by
  have hascii : ∀ c ∈ "--".toList ++ boundary.text, c.toNat < 128 := fun c hc => by
    have hdashes : ∀ c ∈ "--".toList, c.toNat < 128 := by decide
    rcases List.mem_append.mp hc with hc | hc
    · exact hdashes c hc
    · have := (boundary.plain c hc).2.1
      omega
  have htype : "multipart/form-data".toList.isPrefixOf boundary.contentType = true := by
    rw [contentType_eq]
    exact List.isPrefixOf_iff_prefix.mpr (List.prefix_append _ _)
  have hempty : boundary.text.isEmpty = false := by
    rw [List.isEmpty_eq_false_iff]
    exact boundary.nonempty
  have hclose : boundary.delimiter ++ [0x2D, 0x2D, 0x0D] = boundary.close ++ [0x0D] := by
    rw [Boundary.close, List.append_assoc]
    rfl
  refine ⟨{ r with hasPost := true, boundary := boundary.delimiter ++ [0x0D], endBoundary := boundary.close ++ [0x0D] }, ?_,
    ⟨h.first, h.header, h.line, h.environment, h.content, h.posted, rfl, rfl⟩⟩
  rw [processPost, h.noPost, h.contentType]
  simp only [Bool.false_eq_true, if_false, htype, Bool.not_true, boundaryOf_contentType, hempty, toLatin1_ascii hascii]
  rw [← hclose]
  rfl

theorem readPost_first (h : AtForm boundary r) (s : Bytes) :
    ∃ r', readPost L r (boundary.delimiter ++ crlf ++ s) = readPost L r' s ∧ Inside boundary true ∅ [] {} r' := by
  have hline : boundary.delimiter ++ crlf ++ s = (boundary.delimiter ++ [0x0D]) ++ 0x0A :: s := by
    rw [crlf, List.append_assoc, List.append_assoc]
    rfl
  have hprocess : processPostLine L { r with postLine := boundary.delimiter ++ [0x0D] } =
      .ok (false, { r with postLine := boundary.delimiter ++ [0x0D], postFirst := false }) := by
    simp [processPostLine, h.first, h.boundary, h.endBoundary, Boundary.close]
  rw [hline]
  exact ⟨_, readPost_next h.line (boundary_line boundary).1 hprocess s, ⟨⟨rfl, rfl, h.endBoundary, h.boundary⟩, h.header, h.environment,
    h.content, h.posted⟩⟩

/-- A form without parts is refused. -/
theorem readPost_empty (h : AtForm boundary r) (s : Bytes) : ∃ e, readPost L r (boundary.close ++ crlf ++ s) = .error e := by
  have hline : boundary.close ++ crlf ++ s = (boundary.close ++ [0x0D]) ++ 0x0A :: s := by
    rw [crlf, List.append_assoc, List.append_assoc]
    rfl
  have hprocess : processPostLine L { r with postLine := boundary.close ++ [0x0D] } = die "got end boundary without a start" := by
    simp [processPostLine, h.first, h.boundary, h.endBoundary, Boundary.close]
  rw [hline]
  exact ⟨_, readPost_stop h.line (boundary_line boundary).2 hprocess s⟩

end ReadEnv

/-- A form is decoded when it has a part, no part is refused and what is stored is what was sent. -/
theorem decoded_iff_store {L : Library} {boundary : Boundary} {r : ReadEnv} {parts : List FormPart} (hr : BeforePost boundary r)
    (hcontent : ∀ p ∈ parts, boundary.NotLine p.content) (s : Bytes) :
    Decoded L boundary r s parts ↔ parts ≠ [] ∧ ∃ d, parts.foldlM (FormPart.store L) {} = some d ∧ Stores parts d := by
  obtain ⟨r₀, hpost, h₀⟩ := ReadEnv.processPost_form (L := L) hr (body boundary parts ++ s)
  rw [Decoded, hpost]
  cases parts with
  | nil =>
    obtain ⟨e, he⟩ := ReadEnv.readPost_empty (L := L) h₀ s
    rw [body, List.flatMap_nil, List.nil_append, he]
    simp
  | cons p parts =>
    obtain ⟨r₁, hread, h₁⟩ := ReadEnv.readPost_first (L := L) h₀ (ReadEnv.behindFirst boundary p parts s)
    have hbody : body boundary (p :: parts) ++ s = boundary.delimiter ++ crlf ++ ReadEnv.behindFirst boundary p parts s := by
      simp only [body, ReadEnv.behindFirst, List.flatMap_cons, List.append_assoc]
    rw [hbody, hread]
    rcases ReadEnv.readPost_parts (L := L) h₁ hcontent s with ⟨d, r', hfold, hok, rfl⟩ | ⟨hfold, e, he⟩
    · rw [hfold, hok]
      simp
    · rw [hfold, he]
      simp

end SnapChild
end Snapwebsites
