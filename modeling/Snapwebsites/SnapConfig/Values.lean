import Mathlib.Data.List.Infix
import Snapwebsites.SnapConfig.ConfigFile

/-! # Values in configuration files

The writer escapes newlines and nothing else; the reader trims spaces, removes quotes and unescapes. What is read
of an escaped value is that value just when its ends and its own backslashes do not get in the way (`Kept`). -/

namespace Snapwebsites
namespace SnapConfig
open QString

/-! ### Escapes -/

theorem escape_cons (b : UInt8) (s : Bytes) : escape (b :: s) = (if b = newline then [0x5C, 0x6E] else [b]) ++ escape s :=
  List.flatMap_cons

theorem newline_notMem_escape (s : Bytes) : newline ∉ escape s := by
  intro h
  obtain ⟨b, -, hb⟩ := List.mem_flatMap.mp h
  split_ifs at hb with hnl
  · exact absurd hb (by decide)
  · exact hnl (List.mem_singleton.mp hb).symm

theorem zero_notMem_escape {s : Bytes} (h : 0 ∉ s) : 0 ∉ escape s := by
  intro h0
  obtain ⟨b, hb, hb0⟩ := List.mem_flatMap.mp h0
  split_ifs at hb0
  · exact absurd hb0 (by decide)
  · exact h (List.mem_singleton.mp hb0 ▸ hb)

/-- What is read of a text without a newline is escaped as that text. -/
theorem escape_unescape : ∀ {s : Bytes}, newline ∉ s → escape (unescape s) = s
  | [], _ => rfl
  | [c], h => by
    have hc : c ≠ newline := fun hc => h (List.mem_singleton.mpr hc.symm)
    rw [unescape, escape_cons, if_neg hc]
    rfl
  | c :: d :: s, h => by
    have hc : c ≠ newline := fun hc => h (List.mem_cons.mpr (.inl hc.symm))
    rw [unescape]
    split_ifs with hcd
    · obtain ⟨rfl, rfl⟩ := hcd
      rw [escape_cons, if_pos rfl, escape_unescape fun hs => h (List.mem_cons_of_mem _ (List.mem_cons_of_mem _ hs))]
      rfl
    · rw [escape_cons, if_neg hc, escape_unescape fun hs => h (List.mem_cons_of_mem _ hs)]
      rfl

theorem unescape_cons_of_ne {c : UInt8} (hc : c ≠ 0x5C) (s : Bytes) : unescape (c :: s) = c :: unescape s := by
  cases s with
  | nil => rfl
  | cons d s => rw [unescape, if_neg fun h => hc h.1]

theorem unescape_backslash {s : Bytes} (hs : s.head? ≠ some 0x6E) : unescape (0x5C :: s) = 0x5C :: unescape s := by
  cases s with
  | nil => rfl
  | cons d s => rw [unescape, if_neg fun h => hs (congrArg some h.2)]

theorem head?_escape (s : Bytes) : (escape s).head? = s.head?.map fun b => if b = newline then 0x5C else b := by
  cases s with
  | nil => rfl
  | cons b s =>
    rw [escape_cons, List.head?_cons, Option.map_some]
    split_ifs <;> rfl

theorem getLast?_escape (s : Bytes) : (escape s).getLast? = s.getLast?.map fun b => if b = newline then 0x6E else b := by
  induction s using List.reverseRecOn with
  | nil => rfl
  | append_singleton s b =>
    have hconcat : escape (s ++ [b]) = escape s ++ if b = newline then [0x5C, 0x6E] else [b] := by
      rw [escape, List.flatMap_append, List.flatMap_singleton]
      rfl
    rw [hconcat, List.getLast?_concat, Option.map_some]
    split_ifs
    · rw [List.getLast?_append_cons]
      rfl
    · rw [List.getLast?_concat]

theorem ne_of_head?_escape {s : Bytes} (hs : s.head? ≠ some 0x6E) : (escape s).head? ≠ some 0x6E := by
  rw [head?_escape]
  intro h
  obtain ⟨b, hb, h⟩ := Option.map_eq_some_iff.mp h
  split_ifs at h
  · exact absurd h (by decide)
  · exact hs (h ▸ hb)

/-- An escaped text is read back when it has no `\n` of its own. -/
theorem unescape_escape_iff (s : Bytes) : unescape (escape s) = s ↔ ¬ [0x5C, 0x6E] <:+: s := by
  induction s with
  | nil => exact ⟨fun _ h => absurd (List.infix_nil.mp h) (by decide), fun _ => rfl⟩
  | cons b s ih =>
    rw [List.infix_cons_iff, not_or, ← ih, escape_cons]
    by_cases hnl : b = newline
    · subst b
      have hpre : ¬ [0x5C, 0x6E] <+: newline :: s := fun h => absurd (List.cons_prefix_cons.mp h).1 (by decide)
      have hread : unescape ([0x5C, 0x6E] ++ escape s) = newline :: unescape (escape s) := by
        rw [List.cons_append, List.cons_append, List.nil_append, unescape, if_pos ⟨rfl, rfl⟩]
      rw [if_pos rfl, hread, List.cons.injEq]
      exact ⟨fun h => ⟨hpre, h.2⟩, fun h => ⟨rfl, h.2⟩⟩
    · rw [if_neg hnl, List.singleton_append]
      by_cases hb : b = 0x5C
      · subst b
        by_cases hs : s.head? = some 0x6E
        · obtain ⟨t, rfl⟩ : ∃ t, s = 0x6E :: t := ⟨s.tail, (List.cons_head?_tail (Option.mem_def.mpr hs)).symm⟩
          have hpre : [0x5C, 0x6E] <+: 0x5C :: 0x6E :: t := ⟨t, rfl⟩
          have hread : unescape (0x5C :: escape (0x6E :: t)) = newline :: unescape (escape t) := by
            rw [escape_cons, if_neg (by decide), List.singleton_append, unescape, if_pos ⟨rfl, rfl⟩]
          rw [hread, List.cons.injEq]
          exact ⟨fun h => absurd h.1 (by decide), fun h => absurd hpre h.1⟩
        · have hpre : ¬ [0x5C, 0x6E] <+: 0x5C :: s := by
            rintro ⟨t, ht⟩
            exact hs (by rw [← (List.cons.inj ht).2]; rfl)
          rw [unescape_backslash (ne_of_head?_escape hs), List.cons.injEq]
          exact ⟨fun h => ⟨hpre, h.2⟩, fun h => ⟨rfl, h.2⟩⟩
      · have hpre : ¬ [0x5C, 0x6E] <+: b :: s := fun h => hb (List.cons_prefix_cons.mp h).1.symm
        rw [unescape_cons_of_ne hb, List.cons.injEq]
        exact ⟨fun h => ⟨hpre, h.2⟩, fun h => ⟨rfl, h.2⟩⟩

/-! ### What trimming and quotes leave -/

theorem trim_inside (s : Bytes) : trim s <:+: s :=
  (List.rdropWhile_prefix _ _).isInfix.trans (List.dropWhile_suffix _).isInfix

theorem unquote_inside (s : Bytes) : unquote s <:+: s := by
  unfold unquote
  split_ifs
  · exact (List.dropLast_prefix _).isInfix.trans (List.tail_suffix _).isInfix
  · exact List.infix_rfl

/-- The value of a parameter, from the bytes behind the equal sign. -/
def readValue (s : Bytes) : Bytes := unescape (unquote (trim s))

/-- The text that a value is read from. -/
theorem escape_readValue {s : Bytes} (h : newline ∉ trim s) : escape (readValue s) = unquote (trim s) :=
  escape_unescape fun hmem => h ((unquote_inside _).subset hmem)

theorem length_escape_readValue {s : Bytes} (h : newline ∉ trim s) : (escape (readValue s)).length ≤ (trim s).length := by
  rw [escape_readValue h]
  exact (unquote_inside _).length_le

/-- Spaces behind a text are of no account. -/
theorem trim_append (s : Bytes) {t : Bytes} (ht : ∀ b ∈ t, isSpace b = true) : trim (s ++ t) = trim s := by
  have htail : ∀ x : Bytes, (x ++ t).rdropWhile isSpace = x.rdropWhile isSpace := by
    intro x
    rw [List.rdropWhile, List.reverse_append, List.dropWhile_append_of_pos, List.rdropWhile]
    exact fun b hb => ht b (List.mem_reverse.mp hb)
  unfold trim
  rw [List.dropWhile_append]
  split_ifs with hnil
  · rw [List.isEmpty_iff.mp hnil, List.dropWhile_eq_nil_iff.mpr ht]
  · exact htail _

/-! ### Values that are read back -/

/-- A condition on an end of the escaped text that an escaped newline meets, as a condition on the end of the text. -/
theorem end_escape_iff {o : Option UInt8} {c : UInt8} {P : UInt8 → Prop} (hc : P c) :
    (∀ b, (o.map fun b => if b = newline then c else b) = some b → P b) ↔ ∀ b, o = some b → ¬ P b → b = newline := by
  cases o with
  | none => simp
  | some x =>
    simp only [Option.map_some, Option.some.injEq, forall_eq']
    split_ifs with hx
    · exact ⟨fun _ _ => hx, fun _ => hc⟩
    · exact ⟨fun h hn => absurd h hn, fun h => by_contra fun hn => hx (h hn)⟩

/-- An escaped newline is no quote. -/
theorem map_eq_quote_iff {o : Option UInt8} {c q : UInt8} (hc : c ≠ 0x27 ∧ c ≠ 0x22) (hq : q = 0x27 ∨ q = 0x22) :
    (o.map fun b => if b = newline then c else b) = some q ↔ o = some q := by
  cases o with
  | none => exact ⟨nofun, nofun⟩
  | some x =>
    rw [Option.map_some, Option.some.injEq, Option.some.injEq]
    split_ifs with hx
    · subst x
      rcases hq with rfl | rfl
      · exact ⟨fun h => absurd h hc.1, fun h => absurd h (by decide)⟩
      · exact ⟨fun h => absurd h hc.2, fun h => absurd h (by decide)⟩
    · exact Iff.rfl

/-- A value whose ends are neither spaces (newlines apart) nor a pair of quotes, and which has no `\\n` of its own. -/
structure Kept (v : Bytes) : Prop where
  front : ∀ b, v.head? = some b → isSpace b = true → b = newline
  back : ∀ b, v.getLast? = some b → isSpace b = true → b = newline
  quotes : ∀ q, q = 0x27 ∨ q = 0x22 → ¬ (v.head? = some q ∧ v.getLast? = some q)
  escapes : ¬ [0x5C, 0x6E] <:+: v

theorem trim_eq_self_iff (s : Bytes) : trim s = s ↔
    (∀ b, s.head? = some b → isSpace b = false) ∧ ∀ b, s.getLast? = some b → isSpace b = false := by
  constructor
  · intro h
    have hdrop : s.dropWhile isSpace = s := by
      refine (List.dropWhile_suffix isSpace).eq_of_length_le ?_
      have hlength := (List.rdropWhile_prefix isSpace (s.dropWhile isSpace)).length_le
      change (trim s).length ≤ _ at hlength
      rwa [h] at hlength
    rw [trim, hdrop, List.rdropWhile_eq_self_iff] at h
    refine ⟨fun b hb => ?_, fun b hb => ?_⟩
    · have hnot := List.head?_dropWhile_not isSpace s
      rw [hdrop, hb] at hnot
      simpa using hnot
    · have hne : s ≠ [] := List.ne_nil_of_mem (List.mem_of_getLast? hb)
      rw [List.getLast?_eq_getLast_of_ne_nil hne] at hb
      rw [← Option.some.inj hb]
      simpa using h hne
  · rintro ⟨hfront, hback⟩
    have hdrop : s.dropWhile isSpace = s := by
      cases s with
      | nil => rfl
      | cons b s => rw [List.dropWhile_cons, hfront b rfl, if_neg Bool.false_ne_true]
    rw [trim, hdrop, List.rdropWhile_eq_self_iff]
    intro hne
    rw [hback _ (List.getLast?_eq_getLast_of_ne_nil hne)]
    exact Bool.false_ne_true

theorem unquote_eq_self_iff (s : Bytes) : unquote s = s ↔ ∀ q, q = 0x27 ∨ q = 0x22 → ¬ (s.head? = some q ∧ s.getLast? = some q) := by
  have hshort : ∀ q : UInt8, s.head? = some q → s.tail.dropLast ≠ s := fun q hq heq => by
    have hlength := congrArg List.length heq
    rw [List.length_dropLast, List.length_tail] at hlength
    have hpos : s ≠ [] := fun h => by
      rw [h] at hq
      cases hq
    have := List.length_pos_iff.mpr hpos
    omega
  unfold unquote
  split_ifs with hquotes
  · constructor
    · intro h
      rcases hquotes with ⟨hh, -⟩ | ⟨hh, -⟩ <;> exact absurd h (hshort _ hh)
    · intro h
      rcases hquotes with hq | hq
      · exact absurd hq (h _ (.inl rfl))
      · exact absurd hq (h _ (.inr rfl))
  · refine ⟨fun _ q hq hboth => hquotes ?_, fun _ => rfl⟩
    rcases hq with rfl | rfl
    · exact .inl hboth
    · exact .inr hboth

theorem unquote_trim_eq_self_iff (s : Bytes) : unquote (trim s) = s ↔ trim s = s ∧ unquote s = s := by
  constructor
  · intro h
    have htrim : trim s = s := by
      refine (trim_inside s).eq_of_length (Nat.le_antisymm (trim_inside s).length_le ?_)
      have hlength := (unquote_inside (trim s)).length_le
      rwa [h] at hlength
    rw [htrim] at h
    exact ⟨htrim, h⟩
  · rintro ⟨htrim, hquote⟩
    rw [htrim, hquote]

theorem readValue_escape_iff (v : Bytes) : readValue (escape v) = v ↔ Kept v := by
  have hnl : newline ∉ trim (escape v) := fun h => newline_notMem_escape v ((trim_inside _).subset h)
  have hsplit : readValue (escape v) = v ↔ unquote (trim (escape v)) = escape v ∧ unescape (escape v) = v := by
    constructor
    · intro h
      have hread := escape_readValue hnl
      rw [h] at hread
      refine ⟨hread.symm, ?_⟩
      rw [readValue, ← hread] at h
      exact h
    · rintro ⟨hedge, hescape⟩
      rw [readValue, hedge, hescape]
  rw [hsplit, unquote_trim_eq_self_iff, trim_eq_self_iff, unquote_eq_self_iff, unescape_escape_iff, head?_escape, getLast?_escape,
    end_escape_iff (P := fun b => isSpace b = false) rfl, end_escape_iff (P := fun b => isSpace b = false) rfl]
  constructor
  · rintro ⟨⟨⟨hfront, hback⟩, hquotes⟩, hescape⟩
    refine ⟨fun b hb hs => hfront b hb (by simp [hs]), fun b hb hs => hback b hb (by simp [hs]), fun q hq hboth => ?_, hescape⟩
    exact hquotes q hq ⟨(map_eq_quote_iff (by decide) hq).mpr hboth.1, (map_eq_quote_iff (by decide) hq).mpr hboth.2⟩
  · rintro ⟨hfront, hback, hquotes, hescape⟩
    refine ⟨⟨⟨fun b hb hs => hfront b hb (by simpa using hs), fun b hb hs => hback b hb (by simpa using hs)⟩, fun q hq hboth => ?_⟩, hescape⟩
    exact hquotes q hq ⟨(map_eq_quote_iff (by decide) hq).mp hboth.1, (map_eq_quote_iff (by decide) hq).mp hboth.2⟩

end SnapConfig
end Snapwebsites
