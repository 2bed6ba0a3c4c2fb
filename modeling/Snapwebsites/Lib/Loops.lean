import Mathlib.Data.List.Forall2
import Mathlib.Tactic.Common

/-! # Loops that may fail

Loops over a list in `Option`. What relates the ends of every step relates the ends of the loop
(`foldlM_keeps`), and a traversal has a result when each of its steps has one (`mapM_eq_some_iff`). -/

section Loops
variable {α β σ : Type}

theorem foldlM_keeps {f : σ → α → Option σ} (R : σ → σ → Prop) (hrefl : ∀ s, R s s)
    (htrans : ∀ {s t u}, R s t → R t u → R s u) (hf : ∀ s a t, f s a = some t → R s t) :
    ∀ {l : List α} {s t : σ}, l.foldlM f s = some t → R s t
  | [], s, t, h => by
    cases h
    exact hrefl s
  | a :: l, s, t, h => by
    rw [List.foldlM_cons] at h
    obtain ⟨u, hu, h⟩ := Option.bind_eq_some_iff.mp h
    exact htrans (hf s a u hu) (foldlM_keeps R hrefl htrans hf h)

/-- What each step of a loop keeps holds at its end. -/
theorem foldlM_invariant {f : σ → α → Option σ} {P : σ → Prop} {l : List α} {s t : σ} (hf : ∀ a ∈ l, ∀ s t, P s → f s a = some t → P t)
    (hs : P s) (h : l.foldlM f s = some t) : P t := by
  induction l generalizing s with
  | nil =>
    cases h
    exact hs
  | cons a l ih =>
    rw [List.foldlM_cons] at h
    obtain ⟨u, hu, h⟩ := Option.bind_eq_some_iff.mp h
    exact ih (fun b hb => hf b (List.mem_cons_of_mem _ hb)) (hf a List.mem_cons_self s u hs hu) h

/-- Every item of a loop has its step. -/
theorem foldlM_mem {f : σ → α → Option σ} {l : List α} {s t : σ} {a : α} (h : l.foldlM f s = some t) (ha : a ∈ l) :
    ∃ (rest : List α) (u v : σ), f u a = some v ∧ rest.foldlM f v = some t := by
  obtain ⟨front, rest, rfl⟩ := List.append_of_mem ha
  rw [List.foldlM_append] at h
  obtain ⟨u, -, h⟩ := Option.bind_eq_some_iff.mp h
  rw [List.foldlM_cons] at h
  obtain ⟨v, hv, h⟩ := Option.bind_eq_some_iff.mp h
  exact ⟨rest, u, v, hv, h⟩

theorem foldl_keeps {f : σ → α → σ} (R : σ → σ → Prop) (hrefl : ∀ s, R s s) (htrans : ∀ {s t u}, R s t → R t u → R s u)
    (hf : ∀ s a, R s (f s a)) : ∀ {l : List α} {s : σ}, R s (l.foldl f s)
  | [], s => hrefl s
  | a :: _, s => htrans (hf s a) (foldl_keeps R hrefl htrans hf)

theorem mapM_eq_some_iff {f : α → Option β} : ∀ {l : List α} {l' : List β},
    l.mapM f = some l' ↔ List.Forall₂ (fun a b => f a = some b) l l'
  | [], l' => by
    rw [List.mapM_nil]
    constructor
    · rintro ⟨⟩
      exact .nil
    · rintro ⟨⟩
      rfl
  | a :: l, l' => by
    rw [List.mapM_cons]
    constructor
    · intro h
      obtain ⟨b, hb, h⟩ := Option.bind_eq_some_iff.mp h
      obtain ⟨m, hm, h⟩ := Option.bind_eq_some_iff.mp h
      cases h
      exact .cons hb (mapM_eq_some_iff.mp hm)
    · rintro (_ | ⟨hb, hl⟩)
      rw [hb, mapM_eq_some_iff.mpr hl]
      rfl

/-- A loop whose steps work off a list of items each has worked off all of them in the end: the loop and
    the traversal of the items fail together, and `R` relates the state to the results so far. -/
theorem foldlM_rel {γ : Type} {f : σ → α → Option σ} {g : α → List β} {h : β → Option γ} {R : σ → List γ → Prop}
    (hf : ∀ s done a, R s done → Option.Rel (fun s' more => R s' (done ++ more)) (f s a) ((g a).mapM h)) :
    ∀ {l : List α} {s : σ} {done : List γ}, R s done →
      Option.Rel (fun s' more => R s' (done ++ more)) (l.foldlM f s) ((l.flatMap g).mapM h)
  | [], s, done, hs => .some (show R s (done ++ []) by rwa [List.append_nil])
  | a :: l, s, done, hs => by
    rw [List.foldlM_cons, List.flatMap_cons, List.mapM_append]
    have ha := hf s done a hs
    generalize f s a = x, (g a).mapM h = y at ha
    cases ha with
    | none => exact .none
    | @some s' more hs' =>
      have hl := foldlM_rel hf hs' (l := l)
      show Option.Rel _ (l.foldlM f s') (((l.flatMap g).mapM h).bind fun rest => some (more ++ rest))
      generalize l.foldlM f s' = x, (l.flatMap g).mapM h = y at hl
      cases hl with
      | none => exact .none
      | some ht => exact .some (by rwa [← List.append_assoc])

/-- A relation between the items and the results of a traversal, as a condition on the items. -/
theorem forall₂_iff_of_mapM {f : α → Option β} {R : α → β → Prop} {C : α → Prop} (hf : ∀ a b, f a = some b → (R a b ↔ C a))
    {l : List α} {l' : List β} (h : l.mapM f = some l') : List.Forall₂ R l l' ↔ ∀ a ∈ l, C a := by
  induction mapM_eq_some_iff.mp h with
  | nil => exact ⟨fun _ _ ha => absurd ha List.not_mem_nil, fun _ => .nil⟩
  | cons hb hl ih =>
    rw [List.forall₂_cons, hf _ _ hb, ih (mapM_eq_some_iff.mpr hl), List.forall_mem_cons]

/-- A traversal succeeds when each step does. -/
theorem exists_mapM {f : α → Option β} : ∀ {l : List α}, (∀ a ∈ l, ∃ b, f a = some b) → ∃ l', l.mapM f = some l'
  | [], _ => ⟨[], rfl⟩
  | a :: l, h => by
    obtain ⟨b, hb⟩ := h a List.mem_cons_self
    obtain ⟨l', hl⟩ := exists_mapM fun a ha => h a (List.mem_cons_of_mem _ ha)
    exact ⟨b :: l', mapM_eq_some_iff.mpr (.cons hb (mapM_eq_some_iff.mp hl))⟩

end Loops
