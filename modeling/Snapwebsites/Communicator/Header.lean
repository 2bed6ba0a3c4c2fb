import Snapwebsites.Communicator.ParametersKept

/-! # Reading what stands in front of the parameters

The sent-from text, the destination and the command: what each of the two loops leaves, for any text
(`readSentFrom_inv`, `readHeader_inv`), and what it does with a text the writer made. -/

namespace Snapwebsites
open QString

namespace SnapCommunicatorMessage

/-! ### The sent-from text -/

/-- A name after `s += m->unicode()` for each character of it. -/
def narrow (s : QString) : QString := s.flatMap appendUnit

theorem appendUnit_eq_self {c : Char} (h : c.toNat < 256) : appendUnit c = [c] := by
  have hunit : utf16 c = [c.toNat] := if_pos (h.trans (by decide))
  unfold appendUnit
  rw [hunit, List.map_cons, List.map_nil, Nat.mod_eq_of_lt h, Char.ofNat_toNat]

theorem toNat_of_mem_appendUnit {c d : Char} (h : d ∈ appendUnit c) : d.toNat < 256 := by
  obtain ⟨u, -, rfl⟩ := List.mem_map.mp h
  have hlt : u % 0x100 < 256 := Nat.mod_lt _ (by decide)
  have hvalid : (u % 0x100).isValidChar := Or.inl (hlt.trans (by decide))
  have hofNat : Char.ofNat (u % 0x100) = Char.ofNatAux (u % 0x100) hvalid := dif_pos hvalid
  rw [hofNat]
  exact hlt

theorem length_le_narrow : ∀ s : QString, s.length ≤ (narrow s).length
  | [] => Nat.le_refl _
  | c :: s => by
    have ih := length_le_narrow s
    have hc : 1 ≤ (appendUnit c).length := by
      unfold appendUnit utf16
      split <;> simp
    unfold narrow at ih ⊢
    rw [List.flatMap_cons, List.length_append, List.length_cons]
    omega

theorem narrow_eq_self : ∀ {s : QString}, (∀ c ∈ s, c.toNat < 256) → narrow s = s
  | [], _ => rfl
  | c :: s, h => by
    have ih := narrow_eq_self fun d hd => h d (List.mem_cons_of_mem c hd)
    unfold narrow at ih ⊢
    rw [List.flatMap_cons, appendUnit_eq_self (h c List.mem_cons_self), ih]
    rfl

/-- A text that narrows to one it starts is that text. -/
theorem narrow_leading {s t : QString} (hp : s <+: t ∨ t <+: s) (h : narrow s = t) (ht : ∀ c ∈ t, c.toNat < 256) : s = t := by
  have hlen := length_le_narrow s
  rw [h] at hlen
  have hp' : s <+: t := hp.elim id fun hp => hp.eq_of_length_le hlen ▸ List.prefix_rfl
  exact (narrow_eq_self fun c hc => ht c (hp'.subset hc)).symm.trans h

theorem readSentFrom_inv {s server service rest : QString} (h : readSentFrom s = some (server, service, rest)) :
    (s.head? ≠ some '<' ∧ server = [] ∧ service = [] ∧ rest = s) ∨
    ∃ server₀ service₀, s = '<' :: (server₀ ++ ':' :: (service₀ ++ ' ' :: rest)) ∧
      ':' ∉ server₀ ∧ ' ' ∉ server₀ ∧ ' ' ∉ service₀ ∧ server = narrow server₀ ∧ service = narrow service₀ := by
  unfold readSentFrom at h
  split at h
  · rename_i m
    simp only at h
    split at h
    · cases h
    · rename_i hspace
      split at h
      · cases h
      · rename_i c m' hm
        split at h
        · cases h
        · rename_i d m'' hm'
          have hc : c = ':' := by
            have := List.head?_dropWhile_not (· ≠ ':') m
            rw [hm] at this
            simpa using this
          have hd : d = ' ' := by
            have := List.head?_dropWhile_not (· ≠ ' ') m'
            rw [hm'] at this
            simpa using this
          subst hc
          subst hd
          cases h
          refine Or.inr ⟨m.takeWhile (· ≠ ':'), m'.takeWhile (· ≠ ' '), ?_, notMem_takeWhile_ne _ _, ?_,
            notMem_takeWhile_ne _ _, rfl, rfl⟩
          · rw [← hm', List.takeWhile_append_dropWhile, ← hm, List.takeWhile_append_dropWhile]
          · exact fun hmem => hspace (List.contains_iff_mem.mpr hmem)
  · rename_i hne
    cases h
    refine Or.inl ⟨fun hs => ?_, rfl, rfl, rfl⟩
    obtain ⟨t, ht⟩ := List.head?_eq_some_iff.mp hs
    exact hne t ht

theorem readSentFrom_sentFrom {server service : QString} (hcolon : ':' ∉ server) (hspace : ' ' ∉ server)
    (hspace' : ' ' ∉ service) (rest : QString) :
    readSentFrom ('<' :: (server ++ ':' :: (service ++ ' ' :: rest))) = some (narrow server, narrow service, rest) := by
  have hcontains : server.contains ' ' = false := by
    rw [Bool.eq_false_iff, ne_eq, List.contains_iff_mem]
    exact hspace
  unfold readSentFrom
  simp only [takeWhile_ne_append hcolon, dropWhile_ne_append hcolon, takeWhile_ne_cons, dropWhile_ne_cons, List.append_nil,
    hcontains, Bool.false_eq_true, if_false, takeWhile_ne_append hspace', dropWhile_ne_append hspace']
  rfl

theorem readSentFrom_other {s : QString} (h : s.head? ≠ some '<') : readSentFrom s = some ([], [], s) := by
  unfold readSentFrom
  split
  · exact absurd rfl h
  · rfl

/-! ### The destination and the command -/

/-- The characters that have no meaning of their own in front of the parameters. -/
def Plain (s : QString) : Prop := ∀ c ∈ s, c ≠ ' ' ∧ c ≠ ':' ∧ c ≠ '/'

/-- The text of a destination and a command, a server without a service included. -/
def headText (server service command : QString) : QString :=
  (if server ≠ [] then server ++ [':'] else []) ++ (if service ≠ [] then service ++ ['/'] else []) ++ command

/-- What holds of the header while it is read. -/
structure Header.Ok (h : Header) : Prop where
  server : h.hasServer = true ↔ h.server ≠ []
  service : h.hasService = true ↔ h.service ≠ []
  plain : Plain (h.server ++ h.service ++ h.command)

def Header.text (h : Header) : QString := headText h.server h.service h.command

theorem readHeader_inv : ∀ {s : QString} {h h' : Header} {rest : QString}, h.Ok → readHeader h s = some (h', rest) →
    h'.Ok ∧ h.text ++ s = h'.text ++ rest ∧ (rest = [] ∨ ∃ r, rest = ' ' :: r)
  | [], h, h', rest, hok, hr => by
    cases hr
    exact ⟨hok, rfl, Or.inl rfl⟩
  | c :: s, h, h', rest, hok, hr => by
    unfold readHeader at hr
    split at hr
    · rename_i hc
      subst hc
      cases hr
      exact ⟨hok, rfl, Or.inr ⟨s, rfl⟩⟩
    · rename_i hspace
      split at hr
      · -- the name read so far is a server
        rename_i hc
        subst hc
        split at hr
        · cases hr
        · rename_i hno
          simp only [Bool.or_eq_true, not_or, Bool.not_eq_true, List.isEmpty_eq_false_iff] at hno
          obtain ⟨⟨hserver, hservice⟩, hcommand⟩ := hno
          have hserver' : h.server = [] := by
            by_contra hne
            rw [hok.server.mpr hne] at hserver
            cases hserver
          have hservice' : h.service = [] := by
            by_contra hne
            rw [hok.service.mpr hne] at hservice
            cases hservice
          have hplain := hok.plain
          rw [hserver', hservice'] at hplain
          obtain ⟨hok', htext, hrest⟩ := readHeader_inv (h := { h with hasServer := true, server := h.command, command := [] })
            ⟨⟨fun _ => hcommand, fun _ => rfl⟩, hok.service, by simpa [hservice'] using hplain⟩ hr
          refine ⟨hok', ?_, hrest⟩
          rw [← htext]
          simp [Header.text, headText, hserver', hservice', hcommand]
      · rename_i hcolon
        split at hr
        · -- the name read so far is a service
          rename_i hc
          subst hc
          split at hr
          · cases hr
          · rename_i hno
            simp only [Bool.or_eq_true, not_or, Bool.not_eq_true, List.isEmpty_eq_false_iff] at hno
            obtain ⟨hservice, hcommand⟩ := hno
            have hservice' : h.service = [] := by
              by_contra hne
              rw [hok.service.mpr hne] at hservice
              cases hservice
            have hplain := hok.plain
            rw [hservice'] at hplain
            obtain ⟨hok', htext, hrest⟩ := readHeader_inv (h := { h with hasService := true, service := h.command, command := [] })
              ⟨hok.server, ⟨fun _ => hcommand, fun _ => rfl⟩, by simpa using hplain⟩ hr
            refine ⟨hok', ?_, hrest⟩
            rw [← htext]
            simp [Header.text, headText, hservice', hcommand]
        · rename_i hslash
          obtain ⟨hok', htext, hrest⟩ := readHeader_inv (h := { h with command := h.command ++ [c] })
            ⟨hok.server, hok.service, fun d hd => by
              rw [← List.append_assoc] at hd
              rcases List.mem_append.mp hd with hd | hd
              · exact hok.plain d hd
              · rw [List.mem_singleton.mp hd]
                exact ⟨hspace, hcolon, hslash⟩⟩ hr
          refine ⟨hok', ?_, hrest⟩
          rw [← htext]
          simp [Header.text, headText]

theorem readHeader_append {s : QString} (hs : Plain s) (t : QString) :
    ∀ h : Header, readHeader h (s ++ t) = readHeader { h with command := h.command ++ s } t := by
  induction s with
  | nil => intro h; simp
  | cons c s ih =>
    intro h
    obtain ⟨h₁, h₂, h₃⟩ := hs c List.mem_cons_self
    have ih := ih fun d hd => hs d (List.mem_cons_of_mem c hd)
    rw [List.cons_append, readHeader, if_neg h₁, if_neg h₂, if_neg h₃, ih]
    simp

theorem readHeader_end {rest : QString} (hrest : rest = [] ∨ ∃ r, rest = ' ' :: r) (h : Header) :
    readHeader h rest = some (h, rest) := by
  rcases hrest with rfl | ⟨r, rfl⟩ <;> rfl

theorem readHeader_headText {server service command rest : QString} (hplain : Plain (server ++ service ++ command))
    (hrest : rest = [] ∨ ∃ r, rest = ' ' :: r) :
    readHeader {} (headText server service command ++ rest) =
      some ({ hasServer := server ≠ [], hasService := service ≠ [], server, service, command }, rest) := by
  have hserver : Plain server := fun c hc => hplain c (List.mem_append_left _ (List.mem_append_left _ hc))
  have hservice : Plain service := fun c hc => hplain c (List.mem_append_left _ (List.mem_append_right _ hc))
  have hcommand : Plain command := fun c hc => hplain c (List.mem_append_right _ hc)
  have hcolon : ∀ (h : Header) (t : QString), h.hasServer = false → h.hasService = false → h.command ≠ [] →
      readHeader h (':' :: t) = readHeader { h with hasServer := true, server := h.command, command := [] } t := by
    intro h t h₁ h₂ h₃
    rw [readHeader, if_neg (by decide), if_pos rfl, if_neg (by simp [h₁, h₂, h₃])]
  have hslash : ∀ (h : Header) (t : QString), h.hasService = false → h.command ≠ [] →
      readHeader h ('/' :: t) = readHeader { h with hasService := true, service := h.command, command := [] } t := by
    intro h t h₂ h₃
    rw [readHeader, if_neg (by decide), if_neg (by decide), if_pos rfl, if_neg (by simp [h₂, h₃])]
  have hend : ∀ h : Header, h.command = [] → readHeader h (command ++ rest) = some ({ h with command }, rest) := by
    intro h hc
    rw [readHeader_append hcommand, readHeader_end hrest, hc]
    rfl
  have hmiddle : ∀ h : Header, h.command = [] → h.hasService = false → h.service = [] →
      readHeader h ((if service ≠ [] then service ++ ['/'] else []) ++ (command ++ rest)) =
        some ({ h with hasService := service ≠ [], service, command }, rest) := by
    intro h hc hs hs'
    by_cases hne : service = []
    · subst hne
      rw [if_neg (by simp), List.nil_append, hend h hc]
      simp [hs, hs']
    · rw [if_pos hne, List.append_assoc, readHeader_append hservice]
      refine (hslash { h with command := h.command ++ service } _ hs (by simp [hne])).trans ((hend _ rfl).trans ?_)
      simp [hc, hne]
  unfold headText
  rw [List.append_assoc, List.append_assoc]
  by_cases hne : server = []
  · subst hne
    rw [if_neg (by simp), List.nil_append, hmiddle {} rfl rfl rfl]
    simp
  · rw [if_pos hne, List.append_assoc, readHeader_append hserver]
    refine (hcolon { command := server } _ rfl rfl hne).trans ((hmiddle _ rfl rfl rfl).trans ?_)
    simp [hne]

end SnapCommunicatorMessage
end Snapwebsites
