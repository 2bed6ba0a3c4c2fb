import Snapwebsites.SnapChild.Multipart

/-! # Dispositions

A disposition is split at semicolons and at equal characters, within quotes too. A value that is read of it is a piece without them
(`readDisposition_inside`), and the names of a form are read as they were written when they have none (`readDisposition_field`,
`readDisposition_file`). -/

namespace Snapwebsites
open QString SnapUri

namespace SnapChild

/-! ### Texts -/

theorem trimmed_concat {c : Char} (hc : isSpace c = true) (s : QString) : trimmed (s ++ [c]) = trimmed s := by
  rw [trimmed, List.dropWhile_append]
  split
  · rename_i hempty
    rw [List.isEmpty_iff] at hempty
    rw [List.dropWhile_cons_of_pos hc, trimmed, hempty]
    rfl
  · exact List.rdropWhile_concat_pos _ _ _ hc

/-- The line end of a header does not count. -/
theorem headerValue_eq (s : QString) : ReadEnv.headerValue s = trimmed (constData s) := by
  have hcr : isSpace '\r' = true := by decide
  rw [ReadEnv.headerValue, constData, List.takeWhile_append]
  split
  · rename_i hlength
    have hself : constData s = s := (List.takeWhile_prefix _).eq_of_length hlength
    rw [hself]
    exact trimmed_concat hcr s
  · rfl

namespace ReadEnv

variable {disposition : QString} {pieces : List QString} {params params' : SortedMap QString QString} {i : Nat} {k v : QString}

theorem mem_withoutQuotes {s : QString} {c : Char} (hc : c ∈ withoutQuotes s) : c ∈ s := by
  rw [withoutQuotes] at hc
  split at hc
  · exact List.mem_of_mem_drop (List.mem_of_mem_take hc)
  · exact hc

theorem mem_of_mem_splitOn {x c : Char} {s t : QString} (ht : t ∈ s.splitOn x) (hc : c ∈ t) : c ∈ s := by
  have hjoin : c ∈ join x (s.splitOn x) := mem_join_of_mem hc ht
  rwa [join, List.intercalate_splitOn] at hjoin

/-- A value of a parameter is in it, behind its equal character. -/
theorem readParameters_inside (h : readParameters disposition i pieces params = .ok params') (hv : params'.find? k = some v) :
    params.find? k = some v ∨ ∃ piece ∈ pieces, ∀ c ∈ v, c ∈ piece ∧ c ≠ '=' := by
  induction pieces generalizing i params with
  | nil =>
    cases h
    exact .inl hv
  | cons piece pieces ih =>
    rw [readParameters] at h
    split at h
    · rename_i n w hsplit
      rcases ih h with hfind | ⟨q, hq, hin⟩
      · by_cases hk : k = (trimmed n).map Char.toLower
        · right
          rw [hk, SortedMap.find?_insert_self] at hfind
          refine ⟨piece, List.mem_cons_self, fun c hc => ?_⟩
          rw [← Option.some.inj hfind] at hc
          have hw : w ∈ piece.splitOn '=' := by simp [hsplit]
          have hcw : c ∈ w := (trimmed_inside w).subset (mem_withoutQuotes hc)
          exact ⟨mem_of_mem_splitOn hw hcw, fun heq => notMem_of_mem_splitOn hw (heq ▸ hcw)⟩
        · rw [SortedMap.find?_insert_of_ne hk] at hfind
          exact .inl hfind
      · exact .inr ⟨q, List.mem_cons_of_mem _ hq, hin⟩
    · cases h

/-- A value that is read of a disposition is in it, between its separators. -/
theorem readDisposition_inside (h : readDisposition disposition = .ok params) (hv : params.find? k = some v) :
    ∀ c ∈ v, c ∈ disposition ∧ c ≠ ';' ∧ c ≠ '=' := by
  rw [readDisposition] at h
  split at h
  · rename_i type parameter rest hsplit
    split at h
    · cases h
    · split at h
      · cases h
      · rename_i params' hread
        split at h
        · cases h
        · cases h
          rcases readParameters_inside hread hv with hfind | ⟨piece, hpiece, hin⟩
          · cases hfind
          · have hmem : piece ∈ disposition.splitOn ';' := hsplit ▸ List.mem_cons_of_mem _ hpiece
            intro c hc
            obtain ⟨hcp, heq⟩ := hin c hc
            exact ⟨mem_of_mem_splitOn hmem hcp, fun hsemi => notMem_of_mem_splitOn hmem (hsemi ▸ hcp), heq⟩
  · cases h

/-! ### Names between quotes -/

theorem withoutQuotes_quoted (s : QString) : withoutQuotes ('"' :: (s ++ ['"'])) = s := by
  have hlast : ('"' :: (s ++ ['"'])).getLast? = some '"' := by rw [← List.cons_append, List.getLast?_concat]
  rw [withoutQuotes, if_pos ⟨rfl, hlast⟩]
  simp

/-- A parameter of a disposition, as a browser writes it. -/
def quoted (a n : QString) : QString := ' ' :: (a ++ '=' :: '"' :: (n ++ ['"']))

/-- The name of a parameter. -/
structure Attribute (a : QString) : Prop where
  printable : ∀ c ∈ a, 0x20 < c.toNat ∧ c.toNat < 0x7F
  lower : a.map Char.toLower = a
  plain : '=' ∉ a ∧ ';' ∉ a

theorem attribute_name : Attribute "name".toList := ⟨by decide, by decide, by decide⟩

theorem attribute_filename : Attribute "filename".toList := ⟨by decide, by decide, by decide⟩

theorem notMem_quoted {a n : QString} (ha : Attribute a) (hn : ∀ c ∈ n, c ≠ ';' ∧ c ≠ '=') : ';' ∉ quoted a n := by
  have hsemi : ';' ∉ n := fun hmem => (hn _ hmem).1 rfl
  simp [quoted, ha.plain.2, hsemi]

theorem readParameters_quoted {a n : QString} {rest : List QString} (ha : Attribute a) (hn : ∀ c ∈ n, c ≠ ';' ∧ c ≠ '=') :
    readParameters disposition i (quoted a n :: rest) params = readParameters disposition (i + 1) rest (params.insert a n) := by
  have heq : '=' ∉ n := fun hmem => (hn _ hmem).2 rfl
  have hvalue : '=' ∉ '"' :: (n ++ ['"']) := by simp [heq]
  have hname : '=' ∉ ' ' :: a := by simp [ha.plain.1]
  have hsplit : (quoted a n).splitOn '=' = [' ' :: a, '"' :: (n ++ ['"'])] := by
    rw [quoted, ← List.cons_append, List.splitOn_append_cons_self_of_not_mem hname, List.splitOn_eq_singleton hvalue]
  have htrim : trimmed ('"' :: (n ++ ['"'])) = '"' :: (n ++ ['"']) := by
    have hspace : isSpace '"' = false := by decide
    refine trimmed_eq_self (fun c hc => ?_) fun c hc => ?_
    · rw [← Option.some.inj hc, hspace]
    · rw [← List.cons_append, List.getLast?_concat] at hc
      rw [← Option.some.inj hc, hspace]
  rw [readParameters, hsplit]
  simp only [trimmed_blank, trimmed_printable ha.printable, ha.lower, htrim, withoutQuotes_quoted]

theorem formData_plain : ';' ∉ "form-data".toList ∧ trimmed "form-data".toList = "form-data".toList := by decide

/-- The disposition of a field. -/
theorem readDisposition_field {n : QString} (hn : ∀ c ∈ n, c ≠ ';' ∧ c ≠ '=') :
    readDisposition ("form-data".toList ++ ';' :: quoted "name".toList n) = .ok (SortedMap.insert ∅ "name".toList n) := by
  have hsplit := List.splitOn_append_cons_self_of_not_mem formData_plain.1 (quoted "name".toList n)
  rw [List.splitOn_eq_singleton (notMem_quoted attribute_name hn)] at hsplit
  have hread : ∀ disposition, readParameters disposition 1 [quoted "name".toList n] ∅ = .ok (SortedMap.insert ∅ "name".toList n) :=
    fun disposition => readParameters_quoted attribute_name hn
  simp only [readDisposition, hsplit, formData_plain.2, ne_eq, not_true_eq_false, if_false, hread, SortedMap.find?_insert_self,
    Option.isNone_some, Bool.false_eq_true]

/-- The disposition of a file. -/
theorem readDisposition_file {n m : QString} (hn : ∀ c ∈ n, c ≠ ';' ∧ c ≠ '=') (hm : ∀ c ∈ m, c ≠ ';' ∧ c ≠ '=') :
    readDisposition ("form-data".toList ++ ';' :: (quoted "name".toList n ++ ';' :: quoted "filename".toList m)) =
      .ok ((SortedMap.insert ∅ "name".toList n).insert "filename".toList m) := by
  have hsplit := List.splitOn_append_cons_self_of_not_mem formData_plain.1
    (quoted "name".toList n ++ ';' :: quoted "filename".toList m)
  rw [List.splitOn_append_cons_self_of_not_mem (notMem_quoted attribute_name hn),
    List.splitOn_eq_singleton (notMem_quoted attribute_filename hm)] at hsplit
  have hread : ∀ disposition, readParameters disposition 1 [quoted "name".toList n, quoted "filename".toList m] ∅ =
      .ok ((SortedMap.insert ∅ "name".toList n).insert "filename".toList m) := fun disposition =>
    (readParameters_quoted attribute_name hn).trans (readParameters_quoted attribute_filename hm)
  have hne : "name".toList ≠ "filename".toList := by decide
  simp only [readDisposition, hsplit, formData_plain.2, ne_eq, not_true_eq_false, if_false, hread, SortedMap.find?_insert_of_ne hne,
    SortedMap.find?_insert_self, Option.isNone_some, Bool.false_eq_true]

end ReadEnv

/-! ### The names of a part -/

/-- A name of ASCII on one line that has no separator of a disposition. -/
def Separate (s : QString) : Prop := ∀ c ∈ s, c.toNat < 128 ∧ c ≠ nul ∧ c ≠ ';' ∧ c ≠ '=' ∧ c ≠ '\r' ∧ c ≠ '\n'

theorem plain_iff {s : QString} : Plain s ↔ Separate s ∧ '"' ∉ s := by
  constructor
  · intro h
    refine ⟨fun c hc => ?_, fun hquote => (h _ hquote).2.2.2.2.1 rfl⟩
    obtain ⟨hascii, hnul, hsemi, heq, -, hcr, hlf⟩ := h c hc
    exact ⟨hascii, hnul, hsemi, heq, hcr, hlf⟩
  · rintro ⟨h, hquote⟩ c hc
    obtain ⟨hascii, hnul, hsemi, heq, hcr, hlf⟩ := h c hc
    exact ⟨hascii, hnul, hsemi, heq, fun hc' => hquote (hc' ▸ hc), hcr, hlf⟩

theorem plain_escapeName {s : QString} (h : Separate s) : Plain (escapeName s) := fun c hc => by
  have hescape : ∀ c ∈ "%0DA2".toList, c.toNat < 128 ∧ c ≠ nul ∧ c ≠ ';' ∧ c ≠ '=' ∧ c ≠ '"' ∧ c ≠ '\r' ∧ c ≠ '\n' := by decide
  rcases FormPart.mem_escapeName hc with ⟨hcs, hquote, hcr, hlf⟩ | hc
  · obtain ⟨hascii, hnul, hsemi, heq, -, -⟩ := h c hcs
    exact ⟨hascii, hnul, hsemi, heq, hquote, hcr, hlf⟩
  · exact hescape c hc

theorem escapeName_plain {s : QString} (h : Plain s) : escapeName s = s := by
  induction s with
  | nil => rfl
  | cons c s ih =>
    obtain ⟨-, -, -, -, hquote, hcr, hlf⟩ := h c List.mem_cons_self
    rw [escapeName, List.flatMap_cons, if_neg hquote, if_neg hcr, if_neg hlf, ← escapeName, ih fun d hd => h d (List.mem_cons_of_mem _ hd)]
    rfl

namespace FormPart

variable {L : Library} {p : FormPart} {d d' : Posted}

theorem readParams_environment (p : FormPart) :
    ReadEnv.readParams p.environment = ReadEnv.readDisposition (ReadEnv.headerValue p.disposition) := by
  have hne : "CONTENT-DISPOSITION".toList ≠ "CONTENT-TYPE".toList := by decide
  have hfind : p.environment.find? "CONTENT-DISPOSITION".toList = some (ReadEnv.headerValue p.disposition) := by
    rw [environment]
    split
    · exact SortedMap.find?_insert_self _ _ _
    · exact (SortedMap.find?_insert_of_ne hne).trans (SortedMap.find?_insert_self _ _ _)
  rw [ReadEnv.readParams, hfind]

/-- The values that are read of a part have no separators. -/
theorem separate_of_readParams {params : SortedMap QString QString} {k v : QString} (hascii : p.Ascii)
    (h : ReadEnv.readParams p.environment = .ok params) (hv : params.find? k = some v) : Separate v := by
  rw [readParams_environment] at h
  intro c hc
  obtain ⟨hmem, hsemi, heq⟩ := ReadEnv.readDisposition_inside h hv c hc
  have hdata : c ∈ constData (p.disposition ++ ['\r']) := (trimmed_inside _).subset hmem
  rw [headerValue_eq] at hmem
  have hdisposition : c ∈ p.disposition := (constData_sublist _).subset ((trimmed_inside _).subset hmem)
  exact ⟨hascii c hdata, fun hnul => nul_notMem_constData _ (hnul ▸ hdata), hsemi, heq, lineEnds_disposition hdisposition⟩

/-- The names of a part are read. -/
structure Separated (p : FormPart) : Prop where
  name : Separate p.name
  file : ∀ f, p.data = .file f → Separate f.filename

theorem append_quoted (front a n t : QString) :
    front ++ ' ' :: (a ++ ['=', '"']) ++ n ++ '"' :: t = front ++ (ReadEnv.quoted a n ++ t) := by
  simp [ReadEnv.quoted]

theorem disposition_front (n t : QString) : " form-data; name=\"".toList ++ n ++ '"' :: t =
    ' ' :: ("form-data".toList ++ ';' :: (ReadEnv.quoted "name".toList n ++ t)) := by
  have hfront : " form-data; name=\"".toList = ' ' :: ("form-data".toList ++ [';']) ++ ' ' :: ("name".toList ++ ['=', '"']) := by decide
  refine (congrArg (· ++ n ++ '"' :: t) hfront).trans ((append_quoted _ _ n t).trans ?_)
  rw [List.cons_append, List.append_assoc, List.singleton_append]

theorem disposition_field {text : QString} (hp : p.data = .field text) :
    p.disposition = ' ' :: ("form-data".toList ++ ';' :: ReadEnv.quoted "name".toList (escapeName p.name)) := by
  obtain ⟨name, data⟩ := p
  cases hp
  exact (disposition_front (escapeName name) []).trans (by rw [List.append_nil])

theorem disposition_file {f : FormFile} (hp : p.data = .file f) :
    p.disposition = ' ' :: ("form-data".toList ++ ';' :: (ReadEnv.quoted "name".toList (escapeName p.name) ++
      ';' :: ReadEnv.quoted "filename".toList (escapeName f.filename))) := by
  have hfront : "; filename=\"".toList = [';'] ++ ' ' :: ("filename".toList ++ ['=', '"']) := by decide
  have hfile : "; filename=\"".toList ++ escapeName f.filename ++ ['"'] = ';' :: ReadEnv.quoted "filename".toList (escapeName f.filename) := by
    refine (congrArg (· ++ escapeName f.filename ++ ['"']) hfront).trans ((append_quoted _ _ _ []).trans ?_)
    rw [List.append_nil, List.singleton_append]
  obtain ⟨name, data⟩ := p
  cases hp
  exact (disposition_front (escapeName name) _).trans (congrArg (fun t => ' ' :: ("form-data".toList ++ ';' ::
    (ReadEnv.quoted "name".toList (escapeName name) ++ t))) hfile)

theorem plain_disposition (h : p.Separated) {c : Char} (hc : c ∈ p.disposition) : c.toNat < 128 ∧ c ≠ nul := by
  have hline : ∀ c ∈ " form-data; name=\"; filename=\"".toList, c.toNat < 128 ∧ c ≠ nul := by decide
  have hescape : ∀ {s : QString}, Separate s → c ∈ escapeName s → c.toNat < 128 ∧ c ≠ nul := fun hs hc =>
    ⟨(plain_escapeName hs c hc).1, (plain_escapeName hs c hc).2.1⟩
  rcases mem_disposition hc with hc | hc | ⟨f, hf, hc⟩
  · exact hline c hc
  · exact hescape h.name hc
  · exact hescape (h.file f hf) hc

theorem Separated.ascii (h : p.Separated) : p.Ascii := fun c hc => by
  rcases List.mem_append.mp ((constData_sublist _).subset hc) with hc | hc
  · exact (plain_disposition h hc).1
  · rw [List.mem_singleton.mp hc]
    decide

/-- The header of a part with its names is read as it was written. -/
theorem headerValue_disposition {t : QString} (h : p.Separated) (hp : p.disposition = ' ' :: ("form-data".toList ++ ';' :: t))
    (hlast : t.getLast? = some '"') : ReadEnv.headerValue p.disposition = "form-data".toList ++ ';' :: t := by
  have hnul : nul ∉ p.disposition := fun hmem => (plain_disposition h hmem).2 rfl
  have hspace : ∀ c ∈ "f\"".toList, isSpace c = false := by decide
  rw [headerValue_eq, constData_eq_self hnul, hp, ReadEnv.trimmed_blank]
  refine trimmed_eq_self (fun c hc => ?_) fun c hc => ?_
  · have hf : c = 'f' := (Option.some.inj hc).symm
    exact hspace c (hf ▸ List.mem_cons_self)
  · have hquote : ("form-data".toList ++ ';' :: t).getLast? = some '"' := by
      rw [List.getLast?_append, List.getLast?_cons, hlast]
      rfl
    rw [hquote] at hc
    exact hspace c (Option.some.inj hc ▸ by decide)

theorem getLast?_quoted (a n : QString) : (ReadEnv.quoted a n).getLast? = some '"' := by
  have happend : ReadEnv.quoted a n = ' ' :: (a ++ '=' :: '"' :: n) ++ ['"'] := by simp [ReadEnv.quoted]
  rw [happend, List.getLast?_concat]

theorem readParams_field {text : QString} (h : p.Separated) (hp : p.data = .field text) :
    ReadEnv.readParams p.environment = .ok (SortedMap.insert ∅ "name".toList (escapeName p.name)) := by
  have hname : ∀ c ∈ escapeName p.name, c ≠ ';' ∧ c ≠ '=' := fun c hc =>
    ⟨(plain_escapeName h.name c hc).2.2.1, (plain_escapeName h.name c hc).2.2.2.1⟩
  rw [readParams_environment, headerValue_disposition h (disposition_field hp) (getLast?_quoted _ _)]
  exact ReadEnv.readDisposition_field hname

theorem readParams_file {f : FormFile} (h : p.Separated) (hp : p.data = .file f) : ReadEnv.readParams p.environment =
    .ok ((SortedMap.insert ∅ "name".toList (escapeName p.name)).insert "filename".toList (escapeName f.filename)) := by
  have hname : ∀ {s : QString}, Separate s → ∀ c ∈ escapeName s, c ≠ ';' ∧ c ≠ '=' := fun hs c hc =>
    ⟨(plain_escapeName hs c hc).2.2.1, (plain_escapeName hs c hc).2.2.2.1⟩
  have hlast : (ReadEnv.quoted "name".toList (escapeName p.name) ++ ';' :: ReadEnv.quoted "filename".toList (escapeName f.filename)).getLast? =
      some '"' := by
    rw [List.getLast?_append, List.getLast?_cons, getLast?_quoted]
    rfl
  rw [readParams_environment, headerValue_disposition h (disposition_file hp) hlast]
  exact ReadEnv.readDisposition_file (hname h.name) (hname (h.file f hp))

end FormPart

end SnapChild
end Snapwebsites
