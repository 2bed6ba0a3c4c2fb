import Snapwebsites.Lib.Loops
import Snapwebsites.SnapChild.Disposition

/-! # Forms that are decoded

Each part of a form adds one entry to what is stored (`store_adds`), and an entry that is stored stays. The keys and the file names
are pieces of the dispositions, so a form is decoded only when its names are such pieces themselves, and then they are read as
they were written (`decoded_iff`). -/

namespace Snapwebsites
open QString SnapUri

namespace SnapChild

variable {L : Library} {p : FormPart} {parts done : List FormPart} {d d' : Posted}
  {environment params : SortedMap QString QString} {content : Bytes}

/-! ### What a part adds -/

/-- A new entry under the name that is read. -/
structure Adds (params : SortedMap QString QString) (content : Bytes) (d d' : Posted) : Prop where
  fresh : d.post.find? ((params.find? "name".toList).getD []) = none
  post : ∃ value, d'.post = d.post.insert ((params.find? "name".toList).getD []) value ∧
    (params.find? "filename".toList = none → value = fromUtf8 (decodeUtf8 0 content))
  files : d'.files = d.files ∨ ∃ file, params.find? "filename".toList = some file.filename ∧ file.filename ≠ [] ∧
    d'.files = d.files.insert ((params.find? "name".toList).getD []) file

theorem storeVariable_adds (h : ReadEnv.storeVariable L environment params content d = .ok d') : Adds params content d d' := by
  rw [ReadEnv.storeVariable] at h
  split at h
  · rename_i filename hfilename
    split at h
    · cases h
    · rename_i hfresh
      have hfresh := Option.not_isSome_iff_eq_none.mp hfresh
      split at h
      · cases h
        exact ⟨hfresh, ⟨_, rfl, fun hnone => by rw [hfilename] at hnone; cases hnone⟩, .inl rfl⟩
      · rename_i hne
        rw [List.isEmpty_iff] at hne
        cases h
        exact ⟨hfresh, ⟨_, rfl, fun hnone => by rw [hfilename] at hnone; cases hnone⟩, .inr ⟨_, hfilename, hne, rfl⟩⟩
  · split at h
    · cases h
    · split at h
      · cases h
      · rename_i hfresh
        have hfresh := Option.not_isSome_iff_eq_none.mp hfresh
        split at h
        · cases h
        · cases h
          exact ⟨hfresh, ⟨_, rfl, fun _ => rfl⟩, .inl rfl⟩

theorem store_adds (h : p.store L d = some d') :
    p.Ascii ∧ ∃ params, ReadEnv.readParams p.environment = .ok params ∧ Adds params p.content d d' := by
  rw [FormPart.store] at h
  split at h
  · rename_i hascii
    refine ⟨hascii, ?_⟩
    cases hparams : ReadEnv.readParams p.environment with
    | error e =>
      rw [hparams] at h
      cases h
    | ok params =>
      rw [hparams] at h
      cases hstore : ReadEnv.storeVariable L p.environment params p.content d with
      | error e =>
        simp [Except.toOption, hstore] at h
      | ok d'' =>
        simp [Except.toOption, hstore] at h
        exact ⟨params, rfl, storeVariable_adds (h ▸ hstore)⟩
  · cases h

/-- What is stored stays. -/
theorem store_kept {k v : QString} (hk : d.post.find? k = some v) (h : p.store L d = some d') : d'.post.find? k = some v := by
  obtain ⟨-, params, -, hadds⟩ := store_adds h
  obtain ⟨value, hpost, -⟩ := hadds.post
  have hne : k ≠ (params.find? "name".toList).getD [] := fun heq => by
    rw [heq, hadds.fresh] at hk
    cases hk
  rw [hpost, SortedMap.find?_insert_of_ne hne, hk]

/-! ### The names that are stored -/

/-- The keys and the file names have no separators, and no file is without a name. -/
structure Clean (d : Posted) : Prop where
  post : ∀ name value, d.post.find? name = some value → Separate name
  files : ∀ name file, d.files.find? name = some file → Separate file.filename ∧ file.filename ≠ []

theorem clean_empty : Clean {} := ⟨fun _ _ h => (by cases h), fun _ _ h => (by cases h)⟩

theorem clean_store (hd : Clean d) (h : p.store L d = some d') : Clean d' := by
  obtain ⟨hascii, params, hparams, hadds⟩ := store_adds h
  have hname : Separate ((params.find? "name".toList).getD []) := by
    cases hfind : params.find? "name".toList with
    | none => exact fun c hc => absurd hc List.not_mem_nil
    | some name => exact FormPart.separate_of_readParams hascii hparams hfind
  constructor
  · intro name value hfind
    obtain ⟨stored, hpost, -⟩ := hadds.post
    rw [hpost, SortedMap.find?_insert] at hfind
    split at hfind
    · rename_i heq
      exact heq ▸ hname
    · exact hd.post name value hfind
  · intro name file hfind
    rcases hadds.files with hsame | ⟨added, hfilename, hne, hfiles⟩
    · exact hd.files name file (hsame ▸ hfind)
    · rw [hfiles, SortedMap.find?_insert] at hfind
      split at hfind
      · cases hfind
        exact ⟨FormPart.separate_of_readParams hascii hparams hfilename, hne⟩
      · exact hd.files name file hfind

/-- When the right entries are stored, the names of the parts have no separators. -/
theorem separated_of_stores (hd : Clean d) (h : Stores parts d) (hp : p ∈ parts) :
    p.Separated ∧ ∀ f, p.data = .file f → f.filename ≠ [] := by
  have hfile : ∀ f, p.data = .file f → Separate f.filename ∧ f.filename ≠ [] := fun f hf => by
    obtain ⟨file, hfind, hname, -⟩ := (h.files p.name f.filename f.content).mpr ⟨p, hp, rfl, f, hf, rfl, rfl⟩
    exact hname ▸ hd.files _ _ hfind
  exact ⟨⟨hd.post _ _ ((h.post p.name p.posted).mpr ⟨p, hp, rfl, rfl⟩), fun f hf => (hfile f hf).1⟩, fun f hf => (hfile f hf).2⟩

/-- A part whose names are read is stored under the name that was written. -/
theorem store_name (hp : p.Separated) (h : p.store L d = some d') :
    ∃ value, d'.post = d.post.insert (escapeName p.name) value ∧ ∀ text, p.data = .field text → value = fromUtf8 text := by
  obtain ⟨-, params, hparams, hadds⟩ := store_adds h
  obtain ⟨value, hpost, hvalue⟩ := hadds.post
  cases hdata : p.data with
  | field text =>
    rw [FormPart.readParams_field hp hdata] at hparams
    cases hparams
    have hne : "filename".toList ≠ "name".toList := by decide
    have hcontent : p.content = text.utf8 := by rw [FormPart.content, hdata]
    have hnone : (SortedMap.insert ∅ "name".toList (escapeName p.name)).find? "filename".toList = none :=
      SortedMap.find?_insert_of_ne hne
    rw [SortedMap.find?_insert_self] at hpost
    rw [hcontent, decodeUtf8_utf8] at hvalue
    exact ⟨value, hpost, fun t ht => by cases ht; exact hvalue hnone⟩
  | file f =>
    rw [FormPart.readParams_file hp hdata] at hparams
    cases hparams
    have hne : "name".toList ≠ "filename".toList := by decide
    rw [SortedMap.find?_insert_of_ne hne, SortedMap.find?_insert_self] at hpost
    exact ⟨value, hpost, fun t ht => by cases ht⟩

/-- Every key is a name as a browser writes it. -/
theorem keys_escaped (hparts : ∀ p ∈ parts, p.Separated) (h : parts.foldlM (FormPart.store L) {} = some d) {name value : QString}
    (hfind : d.post.find? name = some value) : ∃ p ∈ parts, name = escapeName p.name := by
  refine foldlM_invariant (P := fun d => ∀ name value, d.post.find? name = some value → ∃ p ∈ parts, name = escapeName p.name)
    (fun p hp d d' hd hstore name value hfind => ?_) (fun name value hfind => by cases hfind) h name value hfind
  obtain ⟨stored, hpost, -⟩ := store_name (hparts p hp) hstore
  rw [hpost, SortedMap.find?_insert] at hfind
  split at hfind
  · rename_i heq
    exact ⟨p, hp, heq⟩
  · exact hd name value hfind

/-- A form that is decoded has readable parts. -/
theorem readable_of_stores (h : parts.foldlM (FormPart.store L) {} = some d) (hd : Stores parts d) (hp : p ∈ parts) : p.Readable := by
  have hclean : Clean d := foldlM_invariant (fun _ _ _ _ => clean_store) clean_empty h
  have hseparated : ∀ p ∈ parts, p.Separated := fun p hp => (separated_of_stores hclean hd hp).1
  have hplain : Plain p.name := by
    refine plain_iff.mpr ⟨(hseparated p hp).name, fun hquote => ?_⟩
    obtain ⟨q, hq, hname⟩ := keys_escaped hseparated h ((hd.post p.name p.posted).mpr ⟨p, hp, rfl, rfl⟩)
    rw [hname] at hquote
    exact (plain_escapeName (hseparated q hq).name _ hquote).2.2.2.2.1 rfl
  refine ⟨hplain, fun text htext hbom => ?_, fun f hf => ?_⟩
  · obtain ⟨rest, c, c', hstore, hrest⟩ := foldlM_mem h hp
    obtain ⟨value, hpost, hvalue⟩ := store_name (hseparated p hp) hstore
    have hfind : c'.post.find? p.name = some (fromUtf8 text) := by
      rw [hpost, escapeName_plain hplain, SortedMap.find?_insert_self, hvalue text htext]
    have hkept : d.post.find? p.name = some (fromUtf8 text) :=
      foldlM_invariant (P := fun d => d.post.find? p.name = some (fromUtf8 text)) (fun _ _ _ _ hk => store_kept hk) hfind hrest
    have hposted : d.post.find? p.name = some text := (hd.post p.name text).mpr ⟨p, hp, rfl, by rw [FormPart.posted, htext]⟩
    rw [hkept] at hposted
    obtain ⟨t, rfl⟩ := List.head?_eq_some_iff.mp hbom
    have hlength := congrArg List.length (Option.some.inj hposted)
    rw [fromUtf8_bom, List.length_cons] at hlength
    omega
  · exact ⟨plain_iff.mpr ⟨(hseparated p hp).file f hf, f.noQuote⟩, (separated_of_stores hclean hd hp).2 f hf⟩

/-! ### Readable parts -/

theorem FormPart.Readable.separated (h : p.Readable) : p.Separated :=
  ⟨(plain_iff.mp h.name).1, fun f hf => (plain_iff.mp (h.file f hf).1).1⟩

/-- A new part is stored under its name. -/
theorem post_insert (hd : Stores done d) (hnew : ∀ q ∈ done, q.name ≠ p.name) (name value : QString) :
    (d.post.insert p.name p.posted).find? name = some value ↔ ∃ q ∈ done ++ [p], q.name = name ∧ q.posted = value := by
  rw [SortedMap.find?_insert]
  split
  · rename_i heq
    subst heq
    constructor
    · intro h
      exact ⟨p, List.mem_append_right _ (List.mem_singleton_self p), rfl, Option.some.inj h⟩
    · rintro ⟨q, hq, hname, rfl⟩
      rcases List.mem_append.mp hq with hq | hq
      · exact absurd hname (hnew q hq)
      · rw [List.mem_singleton.mp hq]
  · rename_i hne
    rw [hd.post]
    constructor
    · rintro ⟨q, hq, hname, hvalue⟩
      exact ⟨q, List.mem_append_left _ hq, hname, hvalue⟩
    · rintro ⟨q, hq, hname, hvalue⟩
      rcases List.mem_append.mp hq with hq | hq
      · exact ⟨q, hq, hname, hvalue⟩
      · rw [List.mem_singleton.mp hq] at hname
        exact absurd hname.symm hne

theorem stores_field {text : QString} (hd : Stores done d) (hnew : ∀ q ∈ done, q.name ≠ p.name) (hp : p.data = .field text) :
    Stores (done ++ [p]) { d with post := d.post.insert p.name p.posted } := by
  refine ⟨post_insert hd hnew, fun name filename bytes => (hd.files name filename bytes).trans ?_⟩
  constructor
  · rintro ⟨q, hq, hrest⟩
    exact ⟨q, List.mem_append_left _ hq, hrest⟩
  · rintro ⟨q, hq, hname, f, hf, hrest⟩
    rcases List.mem_append.mp hq with hq | hq
    · exact ⟨q, hq, hname, f, hf, hrest⟩
    · rw [List.mem_singleton.mp hq, hp] at hf
      cases hf

theorem stores_file {f : FormFile} {file : PostFile} {n : Nat} (hd : Stores done d) (hnew : ∀ q ∈ done, q.name ≠ p.name)
    (hp : p.data = .file f) (hfilename : file.filename = f.filename) (hdata : file.data = f.content) :
    Stores (done ++ [p]) { post := d.post.insert p.name p.posted, files := d.files.insert p.name file, postIndex := n } := by
  refine ⟨post_insert hd hnew, fun name filename bytes => ?_⟩
  simp only [SortedMap.find?_insert]
  split
  · rename_i heq
    subst heq
    constructor
    · rintro ⟨file', h, rfl, rfl⟩
      cases h
      exact ⟨p, List.mem_append_right _ (List.mem_singleton_self p), rfl, f, hp, hfilename.symm, hdata.symm⟩
    · rintro ⟨q, hq, hname, f', hf', rfl, rfl⟩
      rcases List.mem_append.mp hq with hq | hq
      · exact absurd hname (hnew q hq)
      · rw [List.mem_singleton.mp hq, hp] at hf'
        cases hf'
        exact ⟨file, rfl, hfilename, hdata⟩
  · rename_i hne
    rw [hd.files]
    constructor
    · rintro ⟨q, hq, hrest⟩
      exact ⟨q, List.mem_append_left _ hq, hrest⟩
    · rintro ⟨q, hq, hname, hrest⟩
      rcases List.mem_append.mp hq with hq | hq
      · exact ⟨q, hq, hname, hrest⟩
      · rw [List.mem_singleton.mp hq] at hname
        exact absurd hname.symm hne

theorem store_field {text : QString} (hp : p.Readable) (hdata : p.data = .field text) (hfresh : d.post.find? p.name = none) :
    p.store L d = some { d with post := d.post.insert p.name p.posted } := by
  have hne : "filename".toList ≠ "name".toList := by decide
  have htype : "CONTENT-TYPE".toList ≠ "CONTENT-DISPOSITION".toList := by decide
  have hcontent : p.content = text.utf8 := by rw [FormPart.content, hdata]
  have hposted : p.posted = fromUtf8 text := by rw [FormPart.posted, hdata, fromUtf8_eq_self (hp.field text hdata)]
  have henvironment : p.environment.find? "CONTENT-TYPE".toList = none := by
    rw [FormPart.environment, hdata]
    exact SortedMap.find?_insert_of_ne htype
  have hfilename : (SortedMap.insert ∅ "name".toList p.name).find? "filename".toList = none := SortedMap.find?_insert_of_ne hne
  have hvalid : L.isValidUtf8 (text.utf8.takeWhile (· ≠ 0)) = true := by rw [takeWhile_utf8, L.isValidUtf8_utf8]
  rw [FormPart.store, if_pos hp.separated.ascii, FormPart.readParams_field hp.separated hdata, escapeName_plain hp.name]
  simp only [Except.toOption, Option.bind_some, ReadEnv.storeVariable, hfilename, henvironment, SortedMap.find?_insert_self,
    Option.getD_some, hfresh, Option.isSome_none, Bool.false_eq_true, if_false, hcontent, hvalid, Bool.not_true, decodeUtf8_utf8, hposted]

theorem store_file {f : FormFile} (hp : p.Readable) (hdata : p.data = .file f) (hfresh : d.post.find? p.name = none) :
    ∃ file : PostFile, file.filename = f.filename ∧ file.data = f.content ∧ p.store L d =
      some { post := d.post.insert p.name p.posted, files := d.files.insert p.name file, postIndex := d.postIndex + 1 } := by
  obtain ⟨hplain, hne⟩ := hp.file f hdata
  have hname : "name".toList ≠ "filename".toList := by decide
  have hcontent : p.content = f.content := by rw [FormPart.content, hdata]
  have hposted : p.posted = f.filename := by rw [FormPart.posted, hdata]
  have hempty : f.filename.isEmpty = false := by
    rw [List.isEmpty_eq_false_iff]
    exact hne
  rw [FormPart.store, if_pos hp.separated.ascii, FormPart.readParams_file hp.separated hdata, escapeName_plain hp.name,
    escapeName_plain hplain]
  simp only [Except.toOption, Option.bind_some, ReadEnv.storeVariable, SortedMap.find?_insert_of_ne hname, SortedMap.find?_insert_self,
    Option.getD_some, hfresh, Option.isSome_none, Bool.false_eq_true, if_false, hempty, hcontent, hposted]
  exact ⟨_, rfl, rfl, rfl⟩

/-- A readable part with a new name is stored. -/
theorem stores_store (hp : p.Readable) (hd : Stores done d) (hnew : ∀ q ∈ done, q.name ≠ p.name) :
    ∃ d', p.store L d = some d' ∧ Stores (done ++ [p]) d' := by
  have hfresh : d.post.find? p.name = none := by
    cases hfind : d.post.find? p.name with
    | none => rfl
    | some value =>
      obtain ⟨q, hq, hname, -⟩ := (hd.post p.name value).mp hfind
      exact absurd hname (hnew q hq)
  cases hdata : p.data with
  | field text => exact ⟨_, store_field hp hdata hfresh, stores_field hd hnew hdata⟩
  | file f =>
    obtain ⟨file, hfilename, hcontent, hstore⟩ := store_file (L := L) hp hdata hfresh
    exact ⟨_, hstore, stores_file hd hnew hdata hfilename hcontent⟩

theorem stores_foldlM (hparts : ∀ p ∈ parts, p.Readable) (hnames : ((done ++ parts).map FormPart.name).Nodup) (hd : Stores done d) :
    ∃ d', parts.foldlM (FormPart.store L) d = some d' ∧ Stores (done ++ parts) d' := by
  induction parts generalizing done d with
  | nil => exact ⟨d, rfl, by rwa [List.append_nil]⟩
  | cons p parts ih =>
    have hnew : ∀ q ∈ done, q.name ≠ p.name := fun q hq heq => by
      rw [List.map_append, List.nodup_append] at hnames
      exact hnames.2.2 _ (List.mem_map_of_mem hq) _ (List.mem_map_of_mem List.mem_cons_self) heq
    obtain ⟨d', hstore, hd'⟩ := stores_store (L := L) (hparts p List.mem_cons_self) hd hnew
    rw [List.append_cons] at hnames ⊢
    rw [List.foldlM_cons, hstore]
    exact ih (fun q hq => hparts q (List.mem_cons_of_mem _ hq)) hnames hd'

theorem stores_empty : Stores [] {} := by
  constructor
  · intro name value
    constructor
    · intro h
      cases h
    · rintro ⟨p, hp, -⟩
      cases hp
  · intro name filename bytes
    constructor
    · rintro ⟨file, h, -⟩
      cases h
    · rintro ⟨p, hp, -⟩
      cases hp

/-! ### Decoding -/

theorem readable_of_decoded {boundary : Boundary} {r : ReadEnv} {s : Bytes} (hr : BeforePost boundary r)
    (hcontent : ∀ p ∈ parts, boundary.NotLine p.content) (h : Decoded L boundary r s parts) :
    parts ≠ [] ∧ ∀ p ∈ parts, p.Readable := by
  obtain ⟨hne, d, hfold, hd⟩ := (decoded_iff_store hr hcontent s).mp h
  exact ⟨hne, fun p hp => readable_of_stores hfold hd hp⟩

/-- A form whose parts have different names is decoded exactly when it has parts and each one is readable. -/
theorem decoded_iff_readable {boundary : Boundary} {r : ReadEnv} (hr : BeforePost boundary r) (hnames : (parts.map FormPart.name).Nodup)
    (hcontent : ∀ p ∈ parts, boundary.NotLine p.content) (s : Bytes) :
    Decoded L boundary r s parts ↔ parts ≠ [] ∧ ∀ p ∈ parts, p.Readable := by
  constructor
  · exact readable_of_decoded hr hcontent
  · rintro ⟨hne, hparts⟩
    have hstores : ∃ d, parts.foldlM (FormPart.store L) {} = some d ∧ Stores ([] ++ parts) d := stores_foldlM hparts hnames stores_empty
    exact (decoded_iff_store hr hcontent s).mpr ⟨hne, hstores⟩

/-- A name that a header holds as it is: ASCII on one line, without a quote and without the end of a C string. -/
def HeaderText (s : QString) : Prop := ∀ c ∈ s, c.toNat < 128 ∧ c ≠ nul ∧ c ≠ '"' ∧ c ≠ '\r' ∧ c ≠ '\n'

/-- The separators of a disposition are in no name of the part. -/
structure FormPart.Unseparated (p : FormPart) : Prop where
  name : ∀ c ∈ p.name, c ≠ ';' ∧ c ≠ '='
  file : ∀ f, p.data = .file f → ∀ c ∈ f.filename, c ≠ ';' ∧ c ≠ '='

/-- A part with a name for a header, and either a text without a byte order mark in front or a file with such a name. -/
structure FormPart.Acceptable (p : FormPart) : Prop where
  name : HeaderText p.name
  field : ∀ text, p.data = .field text → text.head? ≠ some bom
  file : ∀ f, p.data = .file f → HeaderText f.filename ∧ f.filename ≠ []

theorem plain_iff_headerText {s : QString} (hs : ∀ c ∈ s, c ≠ ';' ∧ c ≠ '=') : Plain s ↔ HeaderText s := by
  constructor
  · intro h c hc
    obtain ⟨hascii, hnul, -, -, hends⟩ := h c hc
    exact ⟨hascii, hnul, hends⟩
  · intro h c hc
    obtain ⟨hascii, hnul, hends⟩ := h c hc
    exact ⟨hascii, hnul, (hs c hc).1, (hs c hc).2, hends⟩

theorem readable_iff (hp : p.Unseparated) : p.Readable ↔ p.Acceptable := by
  constructor
  · intro h
    exact ⟨(plain_iff_headerText hp.name).mp h.name, h.field,
      fun f hf => ⟨(plain_iff_headerText (hp.file f hf)).mp (h.file f hf).1, (h.file f hf).2⟩⟩
  · intro h
    exact ⟨(plain_iff_headerText hp.name).mpr h.name, h.field,
      fun f hf => ⟨(plain_iff_headerText (hp.file f hf)).mpr (h.file f hf).1, (h.file f hf).2⟩⟩

/-- A form with different names and no separators in them is decoded exactly when it has parts and each one is acceptable. -/
theorem decoded_iff (L : Library) (boundary : Boundary) (r : ReadEnv) (s : Bytes) (parts : List FormPart) (hr : BeforePost boundary r)
    (hnames : (parts.map FormPart.name).Nodup) (hcontent : ∀ p ∈ parts, boundary.NotLine p.content)
    (hseparators : ∀ p ∈ parts, p.Unseparated) :
    Decoded L boundary r s parts ↔ parts ≠ [] ∧ ∀ p ∈ parts, p.Acceptable := by
  rw [decoded_iff_readable hr hnames hcontent]
  exact and_congr_right fun _ => forall₂_congr fun p hp => readable_iff (hseparators p hp)

/-! ### An upload -/

theorem notLine_of_notMem {boundary : Boundary} (hend : 0x0A ∉ content) (hdelimiter : content ≠ boundary.delimiter)
    (hclose : content ≠ boundary.close) : boundary.NotLine content := fun line hline => by
  have hline' : 0x0A ∉ content ++ [0x0D] := by simpa using hend
  rw [List.splitOn_eq_singleton hline', List.mem_singleton] at hline
  rw [hline, ne_eq, List.append_cancel_right_eq, ne_eq, List.append_cancel_right_eq]
  exact ⟨hdelimiter, hclose⟩

def uploadBoundary : Boundary := ⟨"xyz".toList, by decide, by decide⟩

/-- A reader in front of a form. -/
def uploadReader : ReadEnv where
  started := true
  env := SortedMap.insert ∅ "CONTENT_TYPE".toList uploadBoundary.contentType

theorem beforePost_upload : BeforePost uploadBoundary uploadReader :=
  ⟨rfl, SortedMap.find?_insert_self _ _ _, rfl, rfl, rfl, rfl, rfl, rfl⟩

/-- A field with a color and a file of two bytes. -/
def uploadParts (filename : QString) (h : '"' ∉ filename) : List FormPart :=
  [⟨"color".toList, .field "red".toList⟩, ⟨"data".toList, .file ⟨filename, "text/plain".toList, [0x01, 0x00], h, by decide⟩⟩]

theorem notLine_upload {filename : QString} (h : '"' ∉ filename) : ∀ p ∈ uploadParts filename h, uploadBoundary.NotLine p.content := by
  intro p hp
  rcases List.mem_cons.mp hp with rfl | hp
  · exact notLine_of_notMem (by decide) (by decide) (by decide)
  · have hbytes : uploadBoundary.NotLine [0x01, 0x00] := notLine_of_notMem (by decide) (by decide) (by decide)
    rw [List.mem_singleton.mp hp]
    exact hbytes

theorem nodup_upload {filename : QString} (h : '"' ∉ filename) : ((uploadParts filename h).map FormPart.name).Nodup := by
  show ["color".toList, "data".toList].Nodup
  decide

theorem unseparated_upload {filename : QString} (h : '"' ∉ filename) (hs : ∀ c ∈ filename, c ≠ ';' ∧ c ≠ '=') :
    ∀ p ∈ uploadParts filename h, p.Unseparated := by
  have hcolor : ∀ c ∈ "color".toList, c ≠ ';' ∧ c ≠ '=' := by decide
  have hdata : ∀ c ∈ "data".toList, c ≠ ';' ∧ c ≠ '=' := by decide
  intro p hp
  rcases List.mem_cons.mp hp with rfl | hp
  · exact ⟨hcolor, fun f hf => by cases hf⟩
  · rw [List.mem_singleton.mp hp]
    refine ⟨hdata, fun f hf => ?_⟩
    cases hf
    exact hs

theorem decoded_iff_upload : Decoded .plain uploadBoundary uploadReader [] (uploadParts "a b.txt".toList (by decide)) ↔
    uploadParts "a b.txt".toList (by decide) ≠ [] ∧ ∀ p ∈ uploadParts "a b.txt".toList (by decide), p.Acceptable :=
  decoded_iff .plain uploadBoundary uploadReader [] _ beforePost_upload (nodup_upload _) (notLine_upload _)
    (unseparated_upload _ (by decide))

/-- A file whose name is not of ASCII is refused. -/
theorem not_decoded : ¬ ∀ (L : Library) (boundary : Boundary) (r : ReadEnv) (s : Bytes) (parts : List FormPart),
    BeforePost boundary r → (parts.map FormPart.name).Nodup → (∀ p ∈ parts, boundary.NotLine p.content) →
      Decoded L boundary r s parts := by
  intro h
  have hquote : '"' ∉ Char.ofNat 0xE9 :: ".txt".toList := by decide
  have hascii : ¬ (Char.ofNat 0xE9).toNat < 128 := by decide
  have hcontent := notLine_upload hquote
  have hdecoded := h .plain uploadBoundary uploadReader [] _ beforePost_upload (nodup_upload hquote) hcontent
  have hreadable := (readable_of_decoded beforePost_upload hcontent hdecoded).2 _ (List.mem_cons_of_mem _ List.mem_cons_self)
  exact hascii ((hreadable.file _ rfl).1 _ List.mem_cons_self).1

end SnapChild
end Snapwebsites
