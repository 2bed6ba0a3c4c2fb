import Snapwebsites.Dbutils.ColumnValue

/-! # Escaped texts

Line ends are printed as `\r` and `\n`, but a backslash is printed as it is: what is read back of a text is the same whether
the text was escaped or not (`unescape_escape`), and differs from the text where it has a backslash in front of an `r` or an
`n` (`collapse_eq_self_iff`). The permissions of rights are not unescaped, and lose their first character
(`mid1_escape_eq_iff`). -/

namespace Snapwebsites
namespace Dbutils
open QString

section
variable {c x y : Char} {s : QString}

/-! ### Replacing -/

theorem replace_cons_of_not {before after : QString} (h : ¬ before <+: c :: s) : replace before after (c :: s) = c :: replace before after s := by
  have hprefix : before.isPrefixOf (c :: s) = false := by rw [← Bool.not_eq_true, List.isPrefixOf_iff_prefix]; exact h
  simp only [replace, replaceMany, replaceManyFrom, List.find?_cons, hprefix, List.find?_nil]

theorem replace_one (x : Char) (after s : QString) : replace [x] after s = s.flatMap fun c => if c = x then after else [c] := by
  induction s with
  | nil => rfl
  | cons c s ih =>
    by_cases hc : c = x
    · subst hc
      have hfound : replace [c] after (c :: s) = after ++ replace [c] after s := by
        simp [replace, replaceMany, replaceManyFrom, List.isPrefixOf]
      rw [hfound, ih, List.flatMap_cons, if_pos rfl]
    · have hnot : ¬ [x] <+: c :: s := fun h => hc (List.cons_prefix_cons.mp h).1.symm
      rw [replace_cons_of_not hnot, ih, List.flatMap_cons, if_neg hc, List.singleton_append]

theorem replace_two (y : Char) (s : QString) : replace ['\\', x] [y] ('\\' :: x :: s) = y :: replace ['\\', x] [y] s := by
  simp [replace, replaceMany, replaceManyFrom, List.isPrefixOf]

theorem replace_other (h : c ≠ '\\') (s : QString) : replace ['\\', x] [y] (c :: s) = c :: replace ['\\', x] [y] s :=
  replace_cons_of_not fun hprefix => h (List.cons_prefix_cons.mp hprefix).1.symm

theorem replace_backslash (h : s.head? ≠ some x) : replace ['\\', x] [y] ('\\' :: s) = '\\' :: replace ['\\', x] [y] s :=
  replace_cons_of_not fun hprefix => by
    obtain ⟨rest, hrest⟩ := (List.cons_prefix_cons.mp hprefix).2
    exact h (by rw [← hrest]; rfl)

/-- What is at the head of a text stays there, unless it is replaced. -/
theorem head?_replace {z : Char} (hz : z ≠ '\\') (hzy : z ≠ y) (s : QString) :
    (replace ['\\', x] [y] s).head? = some z ↔ s.head? = some z := by
  cases s with
  | nil => rfl
  | cons c s =>
    by_cases hc : c = '\\'
    · subst hc
      have hleft : ('\\' :: s).head? ≠ some z := fun heq => hz (Option.some.inj heq).symm
      refine iff_of_false ?_ hleft
      by_cases hs : s.head? = some x
      · obtain ⟨t, rfl⟩ := List.head?_eq_some_iff.mp hs
        rw [replace_two]
        exact fun heq => hzy (Option.some.inj heq).symm
      · rw [replace_backslash hs]
        exact fun heq => hz (Option.some.inj heq).symm
    · rw [replace_other hc]
      rfl

/-! ### Collapsing -/

/-- Both escapes taken for what they stand for, in one pass. -/
def collapse : QString → QString
  | '\\' :: 'r' :: s => '\r' :: collapse s
  | '\\' :: 'n' :: s => '\n' :: collapse s
  | c :: s => c :: collapse s
  | [] => []

theorem collapse_other (h : c ≠ '\\') (s : QString) : collapse (c :: s) = c :: collapse s := by
  rw [collapse.eq_3] <;> rintro _ rfl <;> exact fun _ => h rfl

theorem collapse_backslash (hr : s.head? ≠ some 'r') (hn : s.head? ≠ some 'n') : collapse ('\\' :: s) = '\\' :: collapse s := by
  rw [collapse.eq_3]
  · rintro t - rfl
    exact hr rfl
  · rintro t - rfl
    exact hn rfl

theorem unescape_eq (s : QString) : unescape s = collapse s := by
  unfold unescape
  fun_induction collapse s with
  | case1 s ih => rw [replace_two, replace_other (by decide), ih]
  | case2 s ih =>
    have hkept : replace ['\\', 'r'] ['\r'] ('n' :: s) = 'n' :: replace ['\\', 'r'] ['\r'] s := replace_other (by decide) s
    rw [replace_backslash (by simp), hkept, replace_two, ih]
  | case3 c s hr hn ih =>
    by_cases hc : c = '\\'
    · subst hc
      have hr' : s.head? ≠ some 'r' := fun h => by
        obtain ⟨t, rfl⟩ := List.head?_eq_some_iff.mp h
        exact hr t rfl rfl
      have hn' : s.head? ≠ some 'n' := fun h => by
        obtain ⟨t, rfl⟩ := List.head?_eq_some_iff.mp h
        exact hn t rfl rfl
      have hhead := (head?_replace (x := 'r') (y := '\r') (z := 'n') (by decide) (by decide) s).not.mpr hn'
      rw [replace_backslash hr', replace_backslash hhead, ih]
    · rw [replace_other hc, replace_other hc, ih]
  | case4 => rfl

/-- Line ends, escaped. -/
def escapeChar (c : Char) : QString := if c = '\r' then ['\\', 'r'] else if c = '\n' then ['\\', 'n'] else [c]

theorem escape_eq (s : QString) : escape s = s.flatMap escapeChar := by
  rw [escape, replace_one, replace_one, List.flatMap_assoc]
  refine List.flatMap_congr fun c _ => ?_
  unfold escapeChar
  by_cases hr : c = '\r'
  · rw [if_pos hr, if_pos hr]
    rfl
  · rw [if_neg hr, if_neg hr, List.flatMap_singleton]

theorem escape_cons (c : Char) (s : QString) : escape (c :: s) = escapeChar c ++ escape s := by
  rw [escape_eq, escape_eq, List.flatMap_cons]

theorem head?_escape {z : Char} (hz : z ≠ '\\') (hr : z ≠ '\r') (hn : z ≠ '\n') (s : QString) :
    (escape s).head? = some z ↔ s.head? = some z := by
  cases s with
  | nil => rfl
  | cons c s =>
    rw [escape_cons, escapeChar]
    split_ifs with hcr hcn
    · subst hcr
      exact iff_of_false (fun h => hz (Option.some.inj h).symm) fun h => hr (Option.some.inj h).symm
    · subst hcn
      exact iff_of_false (fun h => hz (Option.some.inj h).symm) fun h => hn (Option.some.inj h).symm
    · rfl

theorem collapse_escape (s : QString) : collapse (escape s) = collapse s := by
  fun_induction collapse s with
  | case1 s ih => rw [escape_cons, escape_cons, ← ih]; rfl
  | case2 s ih => rw [escape_cons, escape_cons, ← ih]; rfl
  | case3 c s hr hn ih =>
    rw [escape_cons, escapeChar]
    split_ifs with hcr hcn
    · rw [hcr, ← ih]
      rfl
    · rw [hcn, ← ih]
      rfl
    · by_cases hc : c = '\\'
      · subst hc
        have hr' : (escape s).head? ≠ some 'r' := (head?_escape (by decide) (by decide) (by decide) s).not.mpr fun h => by
          obtain ⟨t, rfl⟩ := List.head?_eq_some_iff.mp h
          exact hr t rfl rfl
        have hn' : (escape s).head? ≠ some 'n' := (head?_escape (by decide) (by decide) (by decide) s).not.mpr fun h => by
          obtain ⟨t, rfl⟩ := List.head?_eq_some_iff.mp h
          exact hn t rfl rfl
        rw [List.singleton_append, collapse_backslash hr' hn', ih]
      · rw [List.singleton_append, collapse_other hc, ih]
  | case4 => rfl

/-- What is read back of a text that was escaped. -/
theorem unescape_escape (s : QString) : unescape (escape s) = collapse s := by rw [unescape_eq, collapse_escape]

theorem length_collapse (s : QString) : (collapse s).length ≤ s.length ∧
    ((collapse s).length = s.length → collapse s = s ∧ ¬ ['\\', 'r'] <:+: s ∧ ¬ ['\\', 'n'] <:+: s) := by
  fun_induction collapse s with
  | case1 s ih => exact ⟨by simp; omega, fun h => by simp at h; omega⟩
  | case2 s ih => exact ⟨by simp; omega, fun h => by simp at h; omega⟩
  | case3 c s hr hn ih =>
    refine ⟨Nat.succ_le_succ ih.1, fun h => ?_⟩
    obtain ⟨heq, hr', hn'⟩ := ih.2 (Nat.succ.inj h)
    have hmark : ∀ x, (∀ t, c = '\\' → s = x :: t → False) → ¬ ['\\', x] <:+: s → ¬ ['\\', x] <:+: c :: s := fun x hhead htail hinfix => by
      rcases List.infix_cons_iff.mp hinfix with hprefix | hinfix
      · obtain ⟨hc, t, ht⟩ := List.cons_prefix_cons.mp hprefix
        exact hhead t hc.symm ht.symm
      · exact htail hinfix
    exact ⟨congrArg _ heq, hmark 'r' hr hr', hmark 'n' hn hn'⟩
  | case4 => exact ⟨le_rfl, fun _ => ⟨rfl, by simp, by simp⟩⟩

theorem collapse_eq_self_iff (s : QString) : collapse s = s ↔ ¬ ['\\', 'r'] <:+: s ∧ ¬ ['\\', 'n'] <:+: s := by
  refine ⟨fun h => ((length_collapse s).2 (congrArg _ h)).2, fun h => ?_⟩
  obtain ⟨hr, hn⟩ := h
  induction s with
  | nil => rfl
  | cons c s ih =>
    have htail : ∀ {x}, ¬ ['\\', x] <:+: c :: s → ¬ ['\\', x] <:+: s := fun h hinfix => h (List.infix_cons_iff.mpr (.inr hinfix))
    have hself := ih (htail hr) (htail hn)
    by_cases hc : c = '\\'
    · subst hc
      have hhead : ∀ {x}, ¬ ['\\', x] <:+: '\\' :: s → s.head? ≠ some x := fun h hs => by
        obtain ⟨t, rfl⟩ := List.head?_eq_some_iff.mp hs
        exact h ⟨[], t, rfl⟩
      rw [collapse_backslash (hhead hr) (hhead hn), hself]
    · rw [collapse_other hc, hself]

/-! ### Permissions -/

/-- An escaped text has no line ends. -/
theorem notMem_escape (hc : c = '\r' ∨ c = '\n') (s : QString) : c ∉ escape s := by
  rw [escape_eq]
  intro hmem
  obtain ⟨d, -, hd⟩ := List.mem_flatMap.mp hmem
  unfold escapeChar at hd
  split_ifs at hd with hr hn
  · rcases hc with rfl | rfl <;> simp at hd
  · rcases hc with rfl | rfl <;> simp at hd
  · rw [List.mem_singleton] at hd
    subst hd
    exact hc.elim hr hn

theorem escape_eq_self (hr : '\r' ∉ s) (hn : '\n' ∉ s) : escape s = s := by
  rw [escape_eq]
  have hself : s.flatMap escapeChar = s.flatMap fun c => [c] := List.flatMap_congr fun c hc => by
    rw [escapeChar, if_neg fun h : c = '\r' => hr (h ▸ hc), if_neg fun h : c = '\n' => hn (h ▸ hc)]
  rw [hself, List.flatMap_singleton']

theorem mid1_ne (s : QString) (h : s ≠ []) : mid1 s ≠ s ∧ (mid1 s).length ≤ s.length ∧ ∀ c ∈ mid1 s, c = '?' ∨ c ∈ s := by
  cases s with
  | nil => exact absurd rfl h
  | cons c s =>
    rw [mid1]
    split_ifs with hunits
    · refine ⟨fun heq => ?_, Nat.le_succ _, fun d hd => .inr (List.mem_cons_of_mem _ hd)⟩
      have hlength := congrArg List.length heq
      rw [List.length_cons] at hlength
      omega
    · have hc : c ≠ '?' := fun heq => hunits (by rw [heq]; rfl)
      exact ⟨fun heq => hc (List.cons.inj heq).1.symm, le_rfl, fun d hd => (List.mem_cons.mp hd).imp_right (List.mem_cons_of_mem _)⟩

/-- Rights come back only when there are no permissions. -/
theorem mid1_escape_eq_iff (s : QString) : mid1 ((escape (fromUtf8 s)).dropWhile isSpace) = s ↔ s = [] := by
  refine ⟨fun h => ?_, by rintro rfl; rfl⟩
  by_contra hne
  have hu : (escape (fromUtf8 s)).dropWhile isSpace ≠ [] := fun hnil => hne (by rw [← h, hnil]; rfl)
  obtain ⟨hchanged, hle, hmem⟩ := mid1_ne _ hu
  have hline : ∀ {c}, c = '\r' ∨ c = '\n' → c ∉ s := fun hc hs => by
    rw [← h] at hs
    rcases hmem _ hs with rfl | hs
    · simp at hc
    · exact notMem_escape hc _ ((List.dropWhile_sublist _).subset hs)
  have hsub := fromUtf8_sublist s
  have hself : escape (fromUtf8 s) = fromUtf8 s :=
    escape_eq_self (fun hc => hline (.inl rfl) (hsub.subset hc)) (fun hc => hline (.inr rfl) (hsub.subset hc))
  rw [hself] at h hle hchanged
  have hdrop := List.dropWhile_sublist (l := fromUtf8 s) isSpace
  have hlength := congrArg List.length h
  -- nothing was dropped, so nothing but the first character could be
  have hwhole : (fromUtf8 s).dropWhile isSpace = s :=
    (hdrop.trans hsub).eq_of_length (le_antisymm (hdrop.trans hsub).length_le (hlength ▸ hle))
  exact hchanged (h.trans hwhole.symm)

end

end Dbutils
end Snapwebsites
