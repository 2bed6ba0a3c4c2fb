import Snapwebsites.Communicator.QString
import Snapwebsites.Lib.FirstOccurrences

/-! # The list of all the locales

`get_all_locales()` lists the locale of the user, those of the plugins, those of the browser, each of them
without its country, then English, `xx` and the empty locale. Each block appends what the list does not have
yet (`pushNew`), except that of the languages of the plugins, which appends them all: the order is that of
`wanted` for all inputs (`firsts_allLocales`), the list has no duplicates when that block adds nothing the
list has (`Separate`). -/

namespace Snapwebsites
namespace SnapChild
open FirstOccurrences

/-- `locale_info_t`. -/
structure LocaleInfo where
  language : QString := []
  country : QString := []
deriving DecidableEq

/-- The members that the function uses. -/
structure LocaleState where
  language : QString
  country : QString
  pluginsLocales : List LocaleInfo
  browserLocales : List LocaleInfo
  allLocales : List LocaleInfo := []

namespace LocaleInfo

/-- The language on its own. -/
def neutral (l : LocaleInfo) : LocaleInfo := { language := l.language }

end LocaleInfo

/-- The languages of the plugins' locales that have a country: there is no test for membership. -/
def pushPlugin (all : List LocaleInfo) (p : LocaleInfo) : List LocaleInfo :=
  if ¬p.country.isEmpty then all ++ [p.neutral] else all

def pushBrowser (all : List LocaleInfo) (p : LocaleInfo) : List LocaleInfo :=
  if ¬p.country.isEmpty then pushNew all p.neutral else all

def getAllLocales (s : LocaleState) : LocaleState × List LocaleInfo :=
  if s.allLocales.isEmpty then
    let all := if ¬s.language.isEmpty then [{ language := s.language, country := s.country }] else []
    let all := s.pluginsLocales.foldl pushNew all
    let all := s.browserLocales.foldl pushNew all
    let all := if ¬s.language.isEmpty ∧ ¬s.country.isEmpty then pushNew all { language := s.language } else all
    let all := s.pluginsLocales.foldl pushPlugin all
    let all := s.browserLocales.foldl pushBrowser all
    let all := pushNew all { language := "en".toList }
    let all := pushNew all { language := "xx".toList }
    let all := pushNew all {}
    ({ s with allLocales := all }, all)
  else (s, s.allLocales)

/-! ### What the list is for -/

namespace LocaleState
variable (s : LocaleState)

/-- The locale of the user, when a language is defined. -/
def user : List LocaleInfo := if ¬s.language.isEmpty then [{ language := s.language, country := s.country }] else []

def given : List LocaleInfo := s.user ++ s.pluginsLocales ++ s.browserLocales

/-- The languages on their own, of the locales that have a country. -/
def neutrals (l : List LocaleInfo) : List LocaleInfo := (l.filter fun p => ¬p.country.isEmpty).map LocaleInfo.neutral

def defaults : List LocaleInfo := [{ language := "en".toList }, { language := "xx".toList }, {}]

def wanted : List LocaleInfo := s.given ++ neutrals s.given ++ defaults

/-- The list has what is wanted, once, in the order of first occurrence. -/
structure Listed (all : List LocaleInfo) : Prop where
  nodup : all.Nodup
  firsts : Firsts s.wanted all

/-- The plugins' locales that have a country are of different languages, and none of these languages is the
user's nor given on its own. -/
structure Separate : Prop where
  distinct : (neutrals s.pluginsLocales).Nodup
  user : ∀ p ∈ s.pluginsLocales, p.country ≠ [] → p.language = s.language → s.language = []
  given : ∀ p ∈ s.pluginsLocales, p.country ≠ [] → p.neutral ∉ s.pluginsLocales ++ s.browserLocales

/-! ### The blocks -/

/-- The list in front of the languages of the plugins. -/
def front : List LocaleInfo :=
  (neutrals s.user).foldl pushNew (s.browserLocales.foldl pushNew (s.pluginsLocales.foldl pushNew s.user))

theorem foldl_pushPlugin : ∀ (l all : List LocaleInfo), l.foldl pushPlugin all = all ++ neutrals l
  | [], all => (List.append_nil all).symm
  | p :: l, all => by
    rw [List.foldl_cons, foldl_pushPlugin l, pushPlugin, neutrals, neutrals, List.filter_cons]
    by_cases hp : p.country.isEmpty <;> simp [hp]

theorem foldl_pushBrowser : ∀ (l all : List LocaleInfo), l.foldl pushBrowser all = (neutrals l).foldl pushNew all
  | [], _ => rfl
  | p :: l, all => by
    rw [List.foldl_cons, foldl_pushBrowser l, pushBrowser, neutrals, neutrals, List.filter_cons]
    by_cases hp : p.country.isEmpty <;> simp [hp]

theorem neutrals_append (l m : List LocaleInfo) : neutrals (l ++ m) = neutrals l ++ neutrals m := by
  rw [neutrals, List.filter_append, List.map_append, neutrals, neutrals]

theorem foldl_neutrals_user (all : List LocaleInfo) : (neutrals s.user).foldl pushNew all =
    if ¬s.language.isEmpty ∧ ¬s.country.isEmpty then pushNew all { language := s.language } else all := by
  unfold user neutrals
  by_cases hl : s.language = [] <;> by_cases hc : s.country = [] <;> simp [hl, hc, LocaleInfo.neutral]

/-- The first call, block by block. -/
theorem getAllLocales_snd (h : s.allLocales = []) : (getAllLocales s).2 =
    defaults.foldl pushNew ((neutrals s.browserLocales).foldl pushNew (s.front ++ neutrals s.pluginsLocales)) := by
  rw [getAllLocales, if_pos (List.isEmpty_iff.mpr h), front, foldl_neutrals_user, ← foldl_pushPlugin, ← foldl_pushBrowser]
  rfl

/-! ### Order and duplicates -/

theorem firsts_front : Firsts (s.given ++ neutrals s.user) s.front :=
  Firsts.foldl Firsts.pushNew _ (Firsts.foldl Firsts.pushNew _ (Firsts.foldl Firsts.pushNew _ (Firsts.refl s.user)))

/-- The list has what is wanted in the order of first occurrence, duplicates or not. -/
theorem firsts_allLocales (h : s.allLocales = []) : Firsts s.wanted (getAllLocales s).2 := by
  have hplugins : Firsts (s.given ++ neutrals s.user ++ neutrals s.pluginsLocales) (s.front ++ neutrals s.pluginsLocales) := by
    have hall := Firsts.foldl (f := fun r x => r ++ [x]) Firsts.concat (neutrals s.pluginsLocales) s.firsts_front
    rwa [List.foldl_append_eq_append, ← List.flatMap_def, List.flatMap_singleton'] at hall
  have hlist := Firsts.foldl Firsts.pushNew defaults (Firsts.foldl Firsts.pushNew (neutrals s.browserLocales) hplugins)
  rw [← getAllLocales_snd s h] at hlist
  rwa [wanted, given, neutrals_append, neutrals_append, ← List.append_assoc, ← List.append_assoc, ← given]

theorem nodup_user : s.user.Nodup := by
  unfold user
  split
  · exact List.nodup_singleton _
  · exact List.nodup_nil

theorem nodup_front : s.front.Nodup :=
  nodup_foldl_pushNew _ (nodup_foldl_pushNew _ (nodup_foldl_pushNew _ s.nodup_user))

/-- Only the languages of the plugins are ever there twice. -/
theorem nodup_allLocales_iff (h : s.allLocales = []) :
    (getAllLocales s).2.Nodup ↔ (neutrals s.pluginsLocales).Nodup ∧ ∀ x ∈ neutrals s.pluginsLocales, x ∉ s.front := by
  have hfront : (s.front ++ neutrals s.pluginsLocales).Nodup ↔
      (neutrals s.pluginsLocales).Nodup ∧ ∀ x ∈ neutrals s.pluginsLocales, x ∉ s.front := by
    rw [List.nodup_append']
    exact ⟨fun hn => ⟨hn.2.1, fun x hx hf => hn.2.2 hf hx⟩, fun hn => ⟨s.nodup_front, hn.1, fun x hf hx => hn.2 x hx hf⟩⟩
  rw [← hfront, getAllLocales_snd s h, ← List.foldl_append]
  exact ⟨fun hn => hn.sublist (prefix_foldl_pushNew _ _).sublist, nodup_foldl_pushNew _⟩

theorem mem_neutrals {l : List LocaleInfo} {x : LocaleInfo} : x ∈ neutrals l ↔ ∃ p ∈ l, p.country ≠ [] ∧ p.neutral = x := by
  simp only [neutrals, List.mem_map, List.mem_filter, List.isEmpty_iff, decide_eq_true_eq, and_assoc, ne_eq]

/-- The user's language on its own, from the locale or from what is left of it. -/
theorem neutral_mem_user {p : LocaleInfo} :
    p.neutral ∈ s.user ++ neutrals s.user ↔ s.language ≠ [] ∧ p.language = s.language := by
  unfold user
  by_cases hl : s.language = []
  · simp [hl, neutrals]
  · by_cases hc : s.country = [] <;> simp [hl, hc, neutrals, LocaleInfo.neutral]

/-- A language on its own that is there in front of those of the plugins. -/
theorem neutral_mem_front {p : LocaleInfo} : p.neutral ∈ s.front ↔
    (s.language ≠ [] ∧ p.language = s.language) ∨ p.neutral ∈ s.pluginsLocales ++ s.browserLocales := by
  rw [← neutral_mem_user, s.firsts_front.mem, given]
  simp only [List.mem_append]
  tauto

end LocaleState

open LocaleState

/-! ### Without duplicates -/

/-- The list is as wanted when the languages of the plugins add nothing that is there. -/
theorem getAllLocales_listed_iff (language country : QString) (pluginsLocales browserLocales : List LocaleInfo) :
    Listed ⟨language, country, pluginsLocales, browserLocales, []⟩
        (getAllLocales ⟨language, country, pluginsLocales, browserLocales, []⟩).2 ↔
      Separate ⟨language, country, pluginsLocales, browserLocales, []⟩ := by
  have hnodup := nodup_allLocales_iff ⟨language, country, pluginsLocales, browserLocales, []⟩ rfl
  constructor
  · intro h
    obtain ⟨hdistinct, hfront⟩ := hnodup.mp h.nodup
    refine ⟨hdistinct, fun p hp hc hl => ?_, fun p hp hc hin => ?_⟩
    · by_contra hne
      exact hfront p.neutral (mem_neutrals.mpr ⟨p, hp, hc, rfl⟩) ((neutral_mem_front _).mpr (Or.inl ⟨hne, hl⟩))
    · exact hfront p.neutral (mem_neutrals.mpr ⟨p, hp, hc, rfl⟩) ((neutral_mem_front _).mpr (Or.inr hin))
  · intro h
    refine ⟨hnodup.mpr ⟨h.distinct, fun x hx hf => ?_⟩, firsts_allLocales _ rfl⟩
    obtain ⟨p, hp, hc, rfl⟩ := mem_neutrals.mp hx
    rcases (neutral_mem_front _).mp hf with ⟨hne, hl⟩ | hin
    · exact hne (h.user p hp hc hl)
    · exact h.given p hp hc hin

/-- A user of the plugins with the locales `fr_FR` and `fr_CA`: `fr` is listed twice. -/
theorem getAllLocales_twice : ¬Listed ⟨[], [], [⟨['f', 'r'], ['F', 'R']⟩, ⟨['f', 'r'], ['C', 'A']⟩], [], []⟩
    (getAllLocales ⟨[], [], [⟨['f', 'r'], ['F', 'R']⟩, ⟨['f', 'r'], ['C', 'A']⟩], [], []⟩).2 := by
  intro h
  exact absurd h.nodup (by decide)

end SnapChild
end Snapwebsites
