import Mathlib.Algebra.Group.Nat.Defs
import Snapwebsites.Lib.Trace

/-! # The pages of a file in memory

`dbfile::data()` has the system map the page of an offset, unless the page is in `f_pages` already. The address of a page that is found
there is returned as it is, without the offset in the page. `mmap()` is a parameter: it maps a page where no other one is, or fails. -/

namespace Snapwebsites.Snapdatabase

/-- A page of the file that is mapped: its address and its offset. -/
structure Mapping where
  start : Nat
  page : Nat
  deriving DecidableEq

/-- `mmap()` for the pages of a file; nothing when it fails. -/
structure Mmap where
  pageSize : Nat
  pageSize_pos : 0 < pageSize
  map : List Mapping → Nat → Option Nat
  map_pos : ∀ l page a, map l page = some a → 0 < a
  map_lt : ∀ l page a, map l page = some a → a + pageSize < 2 ^ 64
  map_apart : ∀ l page a, map l page = some a → ∀ m ∈ l, a + pageSize ≤ m.start ∨ m.start + pageSize ≤ a

/-- What `mmap()` returns when it fails. -/
def mapFailed : Nat := 2 ^ 64 - 1

/-- `f_pages`, and what is mapped. -/
structure PageCache where
  pages : List (Nat × Nat) := []
  mappings : List Mapping := []

namespace PageCache

/-- `f_pages.insert()`, which leaves pages alone that have the offset or the address already. -/
def insert (pageStart : Nat) (ptr : Nat) (c : PageCache) : PageCache :=
  if c.pages.any fun p => p.1 = pageStart || p.2 = ptr then c else { c with pages := (pageStart, ptr) :: c.pages }

/-- The call of `mmap()`, and what it changes. -/
def mmap (env : Mmap) (pageStart : Nat) (c : PageCache) : Nat × PageCache :=
  match env.map c.mappings pageStart with
  | some ptr => (ptr, { c with mappings := { start := ptr, page := pageStart } :: c.mappings })
  | none => (mapFailed, c)

/-- `data()`; no address when it throws. -/
def data (env : Mmap) (offset : Nat) (c : PageCache) : Option Nat × PageCache :=
  let pageOffset := offset % env.pageSize
  let pageStart := offset - pageOffset
  match c.pages.lookup pageStart with
  | some ptr => (some ptr, c)
  | none =>
    let (ptr, c) := c.mmap env pageStart
    if ptr = 0 then (none, c) else (some ((ptr + pageOffset) % 2 ^ 64), c.insert pageStart ptr)

def step (env : Mmap) (c : PageCache) (offset : Nat) : PageCache := (c.data env offset).2

/-- `block::data()`, with the address of the page of the block. -/
def blockData (env : Mmap) (ptr : Nat) (offset : Nat) : Nat := ptr + offset % env.pageSize

/-- The address is the one of a byte of the file. -/
def Designates (env : Mmap) (c : PageCache) (a : Nat) (offset : Nat) : Prop :=
  ∃ m ∈ c.mappings, m.start ≤ a ∧ a < m.start + env.pageSize ∧ offset = m.page + (a - m.start)

/-- A call returns the address of the byte that it was asked for. -/
def Right (env : Mmap) (c : PageCache) (offset : Nat) : Prop :=
  ∃ a, (c.data env offset).1 = some a ∧ Designates env (c.data env offset).2 a offset

/-- The page is mapped by the call, or the offset is the one of a page that was mapped. -/
def Direct (env : Mmap) (c : PageCache) (offset : Nat) : Prop :=
  match c.pages.lookup (offset - offset % env.pageSize) with
  | some _ => offset % env.pageSize = 0
  | none => (env.map c.mappings (offset - offset % env.pageSize)).isSome = true

/-- The page is mapped by the call where it was not mapped before. -/
def Served (env : Mmap) (c : PageCache) (offset : Nat) : Prop :=
  c.pages.lookup (offset - offset % env.pageSize) = none → (env.map c.mappings (offset - offset % env.pageSize)).isSome = true

/-- The pages of the cache are those that are mapped, each at a place of its own. -/
structure Mapped (env : Mmap) (c : PageCache) : Prop where
  cached : ∀ page ptr, c.pages.lookup page = some ptr ↔ { start := ptr, page := page } ∈ c.mappings
  aligned : ∀ m ∈ c.mappings, m.page % env.pageSize = 0
  apart : ∀ m ∈ c.mappings, ∀ m' ∈ c.mappings, m ≠ m' → m.start + env.pageSize ≤ m'.start ∨ m'.start + env.pageSize ≤ m.start
  pos : ∀ p ∈ c.pages, ∃ m ∈ c.mappings, p.2 = m.start

section
variable {env : Mmap} {c : PageCache} {offset page a ptr : Nat} {offsets : List Nat}

theorem Mapped.empty (env : Mmap) : Mapped env {} where
  cached page ptr := iff_of_false (fun h => by cases h) List.not_mem_nil
  aligned m hm := absurd hm List.not_mem_nil
  apart m hm := absurd hm List.not_mem_nil
  pos p hp := absurd hp List.not_mem_nil

theorem pageStart_mod (env : Mmap) (offset : Nat) : (offset - offset % env.pageSize) % env.pageSize = 0 :=
  Nat.sub_mod_eq_zero_of_mod_eq (Nat.mod_mod ..).symm

/-- A byte of the file is in the page that it is mapped with. -/
theorem page_of_designates {m : Mapping} (haligned : m.page % env.pageSize = 0) (hlt : a < m.start + env.pageSize)
    (hle : m.start ≤ a) (h : offset = m.page + (a - m.start)) : offset - offset % env.pageSize = m.page := by
  have hbyte : a - m.start < env.pageSize := by omega
  have hmod : offset % env.pageSize = a - m.start := by
    rw [h, Nat.add_mod, haligned, Nat.zero_add, Nat.mod_mod, Nat.mod_eq_of_lt hbyte]
  omega

/-- The start of a mapped page is the address of the start of the page only. -/
theorem Mapped.designates_start (h : Mapped env c) (hm : { start := ptr, page := page } ∈ c.mappings) :
    Designates env c ptr offset ↔ offset = page := by
  have hpos := env.pageSize_pos
  constructor
  · rintro ⟨m, hmem, hle, hlt, heq⟩
    by_cases hsame : m = { start := ptr, page := page }
    · rw [heq, hsame, Nat.sub_self, Nat.add_zero]
    · rcases h.apart m hmem _ hm hsame with hapart | hapart
      all_goals
        dsimp only at hapart
        omega
  · rintro rfl
    exact ⟨_, hm, Nat.le_refl _, Nat.lt_add_of_pos_right hpos, by rw [Nat.sub_self, Nat.add_zero]⟩

/-- A page that is not in the cache is not mapped. -/
theorem Mapped.not_designates (h : Mapped env c) (hnone : c.pages.lookup (offset - offset % env.pageSize) = none) :
    ¬Designates env c a offset := by
  rintro ⟨m, hmem, hle, hlt, heq⟩
  have hpage := page_of_designates (h.aligned m hmem) hlt hle heq
  rw [hpage, (h.cached m.page m.start).mpr hmem] at hnone
  cases hnone

theorem insert_of_fresh (hnone : c.pages.lookup page = none) (hfresh : ∀ p ∈ c.pages, p.2 ≠ ptr) :
    c.insert page ptr = { c with pages := (page, ptr) :: c.pages } := by
  refine if_neg fun hany => ?_
  obtain ⟨p, hp, hsame⟩ := List.any_eq_true.mp hany
  rcases (Bool.or_eq_true _ _).mp hsame with hpage | hptr
  · exact bne_iff_ne.mp (List.lookup_eq_none_iff.mp hnone p hp) (of_decide_eq_true hpage).symm
  · exact hfresh p hp (of_decide_eq_true hptr)

/-- The address of a byte of a block, from the one of its page. -/
theorem Mapped.designates_blockData (h : Mapped env c) (hpage : page % env.pageSize = 0) (hptr : Designates env c ptr page)
    (offset : Nat) : Designates env c (blockData env ptr offset) (page + offset % env.pageSize) := by
  obtain ⟨m, hm, hle, hlt, heq⟩ := hptr
  have hstart := page_of_designates (h.aligned m hm) hlt hle heq
  have hbyte : offset % env.pageSize < env.pageSize := Nat.mod_lt _ env.pageSize_pos
  rw [hpage] at hstart
  unfold blockData
  exact ⟨m, hm, by omega, by omega, by omega⟩

/-! ### One call -/

theorem data_cached (hptr : c.pages.lookup (offset - offset % env.pageSize) = some ptr) : c.data env offset = (some ptr, c) := by
  rw [data, hptr]

theorem data_failed (hnone : c.pages.lookup (offset - offset % env.pageSize) = none)
    (hfailed : env.map c.mappings (offset - offset % env.pageSize) = none) : c.data env offset =
      (some ((mapFailed + offset % env.pageSize) % 2 ^ 64), c.insert (offset - offset % env.pageSize) mapFailed) := by
  rw [data, hnone, mmap, hfailed]
  exact if_neg (by decide)

/-- A page that is mapped by the call. -/
theorem Mapped.data_mapped (h : Mapped env c) (hnone : c.pages.lookup (offset - offset % env.pageSize) = none)
    (hptr : env.map c.mappings (offset - offset % env.pageSize) = some ptr) : c.data env offset = (some (ptr + offset % env.pageSize),
      { pages := (offset - offset % env.pageSize, ptr) :: c.pages
        mappings := { start := ptr, page := offset - offset % env.pageSize } :: c.mappings }) := by
  have hpos := env.map_pos _ _ _ hptr
  have hlt := env.map_lt _ _ _ hptr
  have hbyte : offset % env.pageSize < env.pageSize := Nat.mod_lt _ env.pageSize_pos
  have hfresh : ∀ p ∈ c.pages, p.2 ≠ ptr := by
    rintro p hp rfl
    obtain ⟨m, hm, heq⟩ := h.pos p hp
    have hsize := env.pageSize_pos
    rcases env.map_apart _ _ _ hptr m hm with hapart | hapart <;> omega
  rw [data, hnone, mmap, hptr]
  dsimp only
  rw [if_neg (Nat.ne_of_gt hpos), Nat.mod_eq_of_lt (by omega),
    insert_of_fresh (c := { c with mappings := { start := ptr, page := offset - offset % env.pageSize } :: c.mappings }) hnone hfresh]

/-- A page that is mapped is in the cache with its address. -/
theorem Mapped.add (h : Mapped env c) (haligned : page % env.pageSize = 0) (hnone : c.pages.lookup page = none)
    (hptr : env.map c.mappings page = some ptr) :
    Mapped env { pages := (page, ptr) :: c.pages, mappings := { start := ptr, page := page } :: c.mappings } where
  cached page' ptr' := by
    rw [List.lookup_cons, List.mem_cons, Mapping.mk.injEq]
    by_cases hpage : page' = page
    · subst hpage
      have hmem : { start := ptr', page := page' } ∉ c.mappings := fun hmem => by
        rw [(h.cached page' ptr').mpr hmem] at hnone
        cases hnone
      simp only [beq_self_eq_true, Option.some.injEq, and_true]
      exact ⟨fun heq => .inl heq.symm, fun hor => hor.elim Eq.symm fun hmem' => absurd hmem' hmem⟩
    · rw [beq_false_of_ne hpage]
      exact (h.cached page' ptr').trans ⟨.inr, fun hor => hor.elim (fun heq => absurd heq.2 hpage) id⟩
  aligned := List.forall_mem_cons.mpr ⟨haligned, h.aligned⟩
  apart m hm m' hm' hne := by
    rcases List.mem_cons.mp hm with rfl | hm <;> rcases List.mem_cons.mp hm' with rfl | hm'
    · exact absurd rfl hne
    · exact env.map_apart _ _ _ hptr m' hm'
    · exact (env.map_apart _ _ _ hptr m hm).symm
    · exact h.apart m hm m' hm' hne
  pos p hp := by
    rcases List.mem_cons.mp hp with rfl | hp
    · exact ⟨_, List.mem_cons_self, rfl⟩
    · obtain ⟨m, hm, heq⟩ := h.pos p hp
      exact ⟨m, List.mem_cons_of_mem _ hm, heq⟩

theorem Mapped.right_iff (h : Mapped env c) : Right env c offset ↔ Direct env c offset := by
  have hsub : offset = offset - offset % env.pageSize ↔ offset % env.pageSize = 0 := by
    have := Nat.mod_le offset env.pageSize
    omega
  unfold Right Direct
  cases hlookup : c.pages.lookup (offset - offset % env.pageSize) with
  | some ptr =>
    rw [data_cached hlookup, ← hsub, ← h.designates_start ((h.cached _ _).mp hlookup)]
    exact ⟨fun ⟨a, ha, hd⟩ => Option.some.inj ha ▸ hd, fun hd => ⟨ptr, rfl, hd⟩⟩
  | none =>
    cases hmap : env.map c.mappings (offset - offset % env.pageSize) with
    | none =>
      rw [data_failed hlookup hmap]
      refine iff_of_false (fun ⟨a, ha, m, hm, hd⟩ => h.not_designates hlookup ⟨m, ?_, hd⟩) fun hsome => by cases hsome
      rw [insert] at hm
      split at hm <;> exact hm
    | some ptr =>
      have hbyte : offset % env.pageSize < env.pageSize := Nat.mod_lt _ env.pageSize_pos
      have hle := Nat.mod_le offset env.pageSize
      rw [h.data_mapped hlookup hmap]
      refine iff_of_true ⟨_, rfl, _, List.mem_cons_self, ?_⟩ rfl
      dsimp only
      omega

theorem Mapped.step_of_served (h : Mapped env c) (hserved : Served env c offset) : Mapped env (c.step env offset) := by
  unfold PageCache.step
  cases hlookup : c.pages.lookup (offset - offset % env.pageSize) with
  | some ptr => rwa [data_cached hlookup]
  | none =>
    obtain ⟨ptr, hptr⟩ := Option.isSome_iff_exists.mp (hserved hlookup)
    rw [h.data_mapped hlookup hptr]
    exact h.add (pageStart_mod env offset) hlookup hptr

theorem Mapped.step (h : Mapped env c) (hdirect : Direct env c offset) : Mapped env (c.step env offset) := by
  refine h.step_of_served fun hnone => ?_
  unfold Direct at hdirect
  rwa [hnone] at hdirect

theorem le_foldr_max (l : List Mapping) (n : Nat) : n ≤ l.foldr (fun m a => max (m.start + n) a) n := by
  induction l with
  | nil => exact Nat.le_refl n
  | cons m l ih => exact Nat.le_trans ih (Nat.le_max_right ..)

theorem end_le_foldr_max {l : List Mapping} {n : Nat} {m : Mapping} (hm : m ∈ l) :
    m.start + n ≤ l.foldr (fun m a => max (m.start + n) a) n := by
  induction l with
  | nil => cases hm
  | cons m' l ih =>
    rcases List.mem_cons.mp hm with rfl | hm
    · exact Nat.le_max_left ..
    · exact Nat.le_trans (ih hm) (Nat.le_max_right ..)

/-! ### Any number of calls -/

theorem mapped_after (h : Trace.Along (step env) (Served env) {} offsets) : Mapped env (Trace.after (step env) {} offsets) :=
  h.invariant (Mapped.empty env) fun _ _ => Mapped.step_of_served

/-- The pages of the cache are those that were asked for. -/
theorem lookup_after (h : Trace.Along (step env) (Served env) {} offsets) (page : Nat) :
    ((Trace.after (step env) {} offsets).pages.lookup page).isSome = true ↔
      ∃ offset ∈ offsets, offset - offset % env.pageSize = page := by
  refine Trace.Along.snoc_induction (motive := fun offsets => ((Trace.after (step env) {} offsets).pages.lookup page).isSome = true ↔
    ∃ offset ∈ offsets, offset - offset % env.pageSize = page) ?_ (fun offsets offset hoffsets hserved ih => ?_) h
  · exact iff_of_false (fun hsome => by cases hsome) fun ⟨_, hmem, _⟩ => by cases hmem
  rw [Trace.after_snoc, step]
  simp only [List.mem_append, or_and_right, exists_or, ← ih, List.mem_singleton, exists_eq_left]
  cases hlookup : (Trace.after (step env) {} offsets).pages.lookup (offset - offset % env.pageSize) with
  | some ptr =>
    rw [data_cached hlookup]
    refine ⟨.inl, fun hor => hor.elim id ?_⟩
    rintro rfl
    rw [hlookup]
    rfl
  | none =>
    obtain ⟨ptr, hptr⟩ := Option.isSome_iff_exists.mp (hserved hlookup)
    rw [(mapped_after hoffsets).data_mapped hlookup hptr, List.lookup_cons]
    by_cases hpage : page = offset - offset % env.pageSize
    · simp [hpage]
    · simp [Ne.symm hpage, beq_false_of_ne hpage]

/-- After any calls whose pages could be mapped, the cache has the pages that were asked for, and a block finds each of its bytes from the
address of its page there, whatever the calls returned. -/
theorem pages_after (h : Trace.Along (step env) (Served env) {} offsets) (page : Nat) :
    (((Trace.after (step env) {} offsets).pages.lookup page).isSome = true ↔ ∃ offset ∈ offsets, offset - offset % env.pageSize = page) ∧
      ∀ ptr offset, (Trace.after (step env) {} offsets).pages.lookup page = some ptr →
        Designates env (Trace.after (step env) {} offsets) (blockData env ptr offset) (page + offset % env.pageSize) := by
  have hmapped := mapped_after h
  refine ⟨lookup_after h page, fun ptr offset hptr => ?_⟩
  have hmem := (hmapped.cached page ptr).mp hptr
  exact hmapped.designates_blockData (hmapped.aligned _ hmem) ((hmapped.designates_start hmem).mpr rfl) offset

/-- The calls all return the right addresses exactly where each one maps its page or is for the start of a page. -/
theorem along_right_iff (env : Mmap) (offsets : List Nat) :
    Trace.Along (step env) (Right env) {} offsets ↔ Trace.Along (step env) (Direct env) {} offsets :=
  Trace.along_congr_of (Mapped.empty env) (fun _ _ h hright => h.step (h.right_iff.mp hright)) fun _ _ h => h.right_iff

/-- A process with nothing else in memory: each page is mapped behind the other ones. -/
def mapper : Mmap where
  pageSize := 4096
  pageSize_pos := by decide
  map l _ :=
    let a := l.foldr (fun m a => max (m.start + 4096) a) 4096
    if a + 4096 < 2 ^ 64 then some a else none
  map_pos l page a h := by
    obtain ⟨-, rfl⟩ := Option.ite_some_none_eq_some.mp h
    exact Nat.lt_of_lt_of_le (by decide) (le_foldr_max l 4096)
  map_lt l page a h := (Option.ite_some_none_eq_some.mp h).2 ▸ (Option.ite_some_none_eq_some.mp h).1
  map_apart l page a h m hm := by
    obtain ⟨-, rfl⟩ := Option.ite_some_none_eq_some.mp h
    exact .inr (end_le_foldr_max hm)

/-- The second byte of a file, twice. -/
theorem pages_after_mapper : ((Trace.after (step mapper) {} [1, 1]).pages.lookup 0).isSome = true := by
  have hserved : Trace.Along (step mapper) (Served mapper) {} [1, 1] := ⟨fun _ => rfl, fun _ => rfl, trivial⟩
  exact (pages_after hserved 0).1.mpr ⟨1, List.mem_cons_self, rfl⟩

/-- The second byte of a file has another address the second time. -/
theorem not_along_right : ¬Trace.Along (step mapper) (Right mapper) {} [1, 1] := by
  rintro ⟨hfirst, hsecond, -⟩
  have hmapped := (Mapped.empty mapper).step ((Mapped.empty mapper).right_iff.mp hfirst)
  have hstart : 1 % 4096 = 0 := hmapped.right_iff.mp hsecond
  cases hstart

end

end PageCache

end Snapwebsites.Snapdatabase
