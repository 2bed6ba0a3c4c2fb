import Snapwebsites.Snapfirewall.Pending

/-! # Blocks and messages

In an orderly run every event changes one block at most, and the blocks hold what the messages say (`Holds`): a block
that is found equal to a message is the one under whose scheme the message is blocked (`same_iff`). -/

namespace Snapwebsites
namespace Snapfirewall
open QString
open BlockInfo (all)

variable {host : Host} {sort : List BlockInfo → List BlockInfo} {blocks live : List BlockInfo} {info b u : BlockInfo}

/-! ### Schemes -/

theorem exists_all {m : BlockInfo} (hm : m ∈ live) (h : schemeOf live m = all) : ∃ x ∈ live, x.ip = m.ip ∧ x.scheme = all := by
  by_contra hnone
  rw [schemeOf, if_neg hnone] at h
  exact hnone ⟨m, hm, rfl, h⟩

theorem mem_messagesOf {m : BlockInfo} {ip scheme : QString} :
    m ∈ messagesOf live ip scheme ↔ m ∈ live ∧ m.ip = ip ∧ schemeOf live m = scheme := by
  simp [messagesOf]

/-- A block has a message. -/
theorem Holds.message (h : Holds blocks live) (hb : b ∈ blocks) : ∃ m ∈ live, m.ip = b.ip ∧ schemeOf live m = b.scheme := by
  obtain ⟨m, hm, -⟩ := (h.stands b hb).limit
  exact ⟨m, mem_messagesOf.mp hm⟩

/-- Where a message of all schemes is alive, every block of its address is of all schemes. -/
theorem Holds.scheme_eq_all (h : Holds blocks live) (hb : b ∈ blocks) (hall : ∃ x ∈ live, x.ip = b.ip ∧ x.scheme = all) :
    b.scheme = all := by
  obtain ⟨m, -, hip, hscheme⟩ := h.message hb
  rw [← hip] at hall
  rw [← hscheme, schemeOf, if_pos hall]

theorem Holds.exists_all (h : Holds blocks live) (hb : b ∈ blocks) (hscheme : b.scheme = all) : ∃ x ∈ live, x.ip = b.ip ∧ x.scheme = all := by
  obtain ⟨m, hm, hip, hm'⟩ := h.message hb
  rw [← hip]
  exact Snapfirewall.exists_all hm (hm'.trans hscheme)

/-- An address is not blocked under another scheme when it is under all. -/
theorem Holds.scheme_eq (h : Holds blocks live) {c : BlockInfo} (hb : b ∈ blocks) (hc : c ∈ blocks) (hip : c.ip = b.ip)
    (hscheme : b.scheme = all) : c.scheme = all :=
  h.scheme_eq_all hc (by rw [hip]; exact h.exists_all hb hscheme)

theorem Holds.perm {blocks' : List BlockInfo} (h : Holds blocks live) (hperm : blocks'.Perm blocks) : Holds blocks' live where
  once := (hperm.map _).nodup_iff.mpr h.once
  covers m hm := by
    obtain ⟨b, hb, hkey⟩ := h.covers m hm
    exact ⟨b, hperm.mem_iff.mpr hb, hkey⟩
  stands b hb := h.stands b (hperm.mem_iff.mp hb)

/-! ### A message that blocks -/

/-- What an orderly `BLOCK` message asks of the blocks. -/
def Fits (blocks : List BlockInfo) (info : BlockInfo) : Prop := info.scheme = all → ∀ b ∈ blocks, b.ip = info.ip → b.scheme = all

theorem schemeOf_append (h : Holds blocks live) (hfits : Fits blocks info) {m : BlockInfo} (hm : m ∈ live) :
    schemeOf (live ++ [info]) m = schemeOf live m := by
  by_cases hall : ∃ x ∈ live, x.ip = m.ip ∧ x.scheme = all
  · obtain ⟨x, hx, hkey⟩ := hall
    rw [schemeOf, schemeOf, if_pos ⟨x, List.mem_append_left _ hx, hkey⟩, if_pos ⟨x, hx, hkey⟩]
  · have hnone : ¬∃ x ∈ live ++ [info], x.ip = m.ip ∧ x.scheme = all := by
      rintro ⟨x, hx, hip, hscheme⟩
      rcases List.mem_append.mp hx with hx | hx
      · exact hall ⟨x, hx, hip, hscheme⟩
      · obtain rfl := List.mem_singleton.mp hx
        obtain ⟨b, hb, hbip, hbscheme⟩ := h.covers m hm
        exact hall (exists_all hm (hbscheme.symm.trans (hfits hscheme b hb (hbip.trans hip.symm))))
    rw [schemeOf, schemeOf, if_neg hnone, if_neg hall]

theorem messagesOf_append (h : Holds blocks live) (hfits : Fits blocks info) (ip scheme : QString) :
    messagesOf (live ++ [info]) ip scheme =
      messagesOf live ip scheme ++ if info.ip = ip ∧ schemeOf (live ++ [info]) info = scheme then [info] else [] := by
  have hold : live.filter (fun m => m.ip = ip ∧ schemeOf (live ++ [info]) m = scheme) = messagesOf live ip scheme :=
    List.filter_congr fun m hm => by rw [schemeOf_append h hfits hm]
  rw [messagesOf, List.filter_append, hold]
  congr 1
  by_cases hkey : info.ip = ip ∧ schemeOf (live ++ [info]) info = scheme
  · rw [if_pos hkey]
    exact List.filter_eq_self.mpr fun m hm => decide_eq_true (List.mem_singleton.mp hm ▸ hkey)
  · rw [if_neg hkey]
    refine List.filter_eq_nil_iff.mpr fun m hm hm' => ?_
    rw [List.mem_singleton.mp hm] at hm'
    exact hkey (of_decide_eq_true hm')

/-- The block that is equal to a message is the one that the message is blocked by. -/
theorem same_iff (h : Holds blocks live) (hfits : Fits blocks info) (hb : b ∈ blocks) :
    b.same info = true ↔ b.ip = info.ip ∧ b.scheme = schemeOf (live ++ [info]) info := by
  by_cases hall : ∃ x ∈ live, x.ip = info.ip ∧ x.scheme = all
  · have hscheme : schemeOf (live ++ [info]) info = all := by
      obtain ⟨x, hx, hkey⟩ := hall
      exact if_pos ⟨x, List.mem_append_left _ hx, hkey⟩
    rw [hscheme]
    constructor
    · intro hsame
      have hip : b.ip = info.ip := by
        unfold BlockInfo.same at hsame
        split at hsame
        · exact of_decide_eq_true hsame
        · exact (of_decide_eq_true hsame).2
      exact ⟨hip, h.scheme_eq_all hb (by rw [hip]; exact hall)⟩
    · rintro ⟨hip, hb⟩
      rw [BlockInfo.same, if_pos (Or.inl hb)]
      exact decide_eq_true hip
  · have hscheme : schemeOf (live ++ [info]) info = info.scheme := by
      rw [schemeOf]
      split
      · rename_i hex
        obtain ⟨x, hx, hip, hx'⟩ := hex
        rcases List.mem_append.mp hx with hx | hx
        · exact absurd ⟨x, hx, hip, hx'⟩ hall
        · rw [← List.mem_singleton.mp hx, hx']
      · rfl
    rw [hscheme]
    by_cases hinfo : info.scheme = all
    · rw [BlockInfo.same, if_pos (Or.inr hinfo), decide_eq_true_eq]
      exact ⟨fun hip => ⟨hip, (hfits hinfo b hb hip).trans hinfo.symm⟩, fun hkey => hkey.1⟩
    · by_cases hbscheme : b.scheme = all
      · rw [BlockInfo.same, if_pos (Or.inl hbscheme), decide_eq_true_eq]
        constructor
        · intro hip
          have := h.exists_all hb hbscheme
          rw [hip] at this
          exact absurd this hall
        · exact fun hkey => hkey.1
      · rw [BlockInfo.same, if_neg (not_or.mpr ⟨hbscheme, hinfo⟩), decide_eq_true_eq, and_comm]

/-- Keeping the longest time changes the scheme of no block in an orderly run. -/
theorem keepLongest_eq (h : info.scheme = all → b.scheme = all) : b.keepLongest info = { b with
    blockLimit := if b.blockLimit < info.blockLimit then info.blockLimit else b.blockLimit
    banCount := b.banCount + info.banCount
    packetCount := b.packetCount + info.packetCount
    byteCount := b.byteCount + info.byteCount } := by
  have hnot : ¬(info.scheme = all ∧ b.scheme ≠ all) := fun hboth => hboth.2 (h hboth.1)
  rw [BlockInfo.keepLongest, if_neg hnot]

theorem Stands.append {ms : List BlockInfo} (h : Stands b ms) (hscheme : info.scheme = all → b.scheme = all) :
    Stands (b.keepLongest info) (ms ++ [info]) := by
  obtain ⟨hle, ⟨m, hm, hlimit⟩, hcount⟩ := h
  rw [keepLongest_eq hscheme]
  refine ⟨fun x hx => ?_, ?_, by simp [hcount]⟩
  · rcases List.mem_append.mp hx with hx | hx
    · have := hle x hx
      simp only
      split <;> omega
    · rw [List.mem_singleton.mp hx]
      simp only
      split <;> omega
  · simp only
    split
    · exact ⟨info, List.mem_append_right _ (List.mem_singleton.mpr rfl), rfl⟩
    · exact ⟨m, List.mem_append_left _ hm, hlimit⟩

/-- The first equal block is kept, or there is none. -/
theorem keepOrAdd_cases (info : BlockInfo) (blocks : List BlockInfo) :
    (∃ l b r, blocks = l ++ b :: r ∧ b.same info = true ∧ keepOrAdd info blocks = l ++ b.keepLongest info :: r) ∨
      (∀ b ∈ blocks, ¬b.same info = true) ∧ keepOrAdd info blocks = blocks ++ [info.iplockBlock] := by
  induction blocks with
  | nil => exact Or.inr ⟨fun b hb => (by cases hb), rfl⟩
  | cons b l ih =>
    by_cases hb : b.same info = true
    · exact Or.inl ⟨[], b, l, rfl, hb, if_pos hb⟩
    · have hkeep : keepOrAdd info (b :: l) = b :: keepOrAdd info l := if_neg hb
      rcases ih with ⟨l', c, r, hl, hc, hkeep'⟩ | ⟨hnone, hkeep'⟩
      · exact Or.inl ⟨b :: l', c, r, by rw [hl]; rfl, hc, by rw [hkeep, hkeep']; rfl⟩
      · exact Or.inr ⟨List.forall_mem_cons.mpr ⟨hb, hnone⟩, by rw [hkeep, hkeep']; rfl⟩

theorem ip_of_same (h : b.same info = true) : b.ip = info.ip := by
  unfold BlockInfo.same at h
  split at h
  · exact of_decide_eq_true h
  · exact (of_decide_eq_true h).2

/-- A block of another key has no more messages. -/
theorem messagesOf_append_of_ne (h : Holds blocks live) (hfits : Fits blocks info)
    (hne : ¬(b.ip = info.ip ∧ b.scheme = schemeOf (live ++ [info]) info)) :
    messagesOf (live ++ [info]) b.ip b.scheme = messagesOf live b.ip b.scheme := by
  rw [messagesOf_append h hfits, if_neg fun hkey => hne ⟨hkey.1.symm, hkey.2.symm⟩, List.append_nil]

/-- A block that is equal takes the message. -/
theorem Holds.keepLongest {rest : List BlockInfo} (h : Holds (b :: rest) live) (hfits : Fits (b :: rest) info) (hsame : b.same info = true) :
    Holds (b.keepLongest info :: rest) (live ++ [info]) := by
  obtain ⟨hip, hscheme⟩ := (same_iff h hfits List.mem_cons_self).mp hsame
  have hall : info.scheme = all → b.scheme = all := fun hinfo => hfits hinfo b List.mem_cons_self hip
  have hkeep : (b.keepLongest info).ip = b.ip ∧ (b.keepLongest info).scheme = b.scheme := by
    rw [keepLongest_eq hall]
    exact ⟨rfl, rfl⟩
  have honce := h.once
  rw [List.map_cons, List.nodup_cons] at honce
  refine ⟨?_, fun m hm => ?_, fun c hc => ?_⟩
  · rw [List.map_cons, hkeep.1, hkeep.2]
    exact h.once
  · rcases List.mem_append.mp hm with hm | hm
    · rw [schemeOf_append h hfits hm]
      obtain ⟨c, hc, hkey⟩ := h.covers m hm
      rcases List.mem_cons.mp hc with rfl | hc
      · exact ⟨_, List.mem_cons_self, by rw [hkeep.1, hkeep.2]; exact hkey⟩
      · exact ⟨c, List.mem_cons_of_mem _ hc, hkey⟩
    · obtain rfl := List.mem_singleton.mp hm
      exact ⟨_, List.mem_cons_self, by rw [hkeep.1, hkeep.2]; exact ⟨hip, hscheme⟩⟩
  · rcases List.mem_cons.mp hc with rfl | hc
    · rw [hkeep.1, hkeep.2, messagesOf_append h hfits, if_pos ⟨hip.symm, hscheme.symm⟩]
      exact (h.stands b List.mem_cons_self).append hall
    · rw [messagesOf_append_of_ne h hfits]
      · exact h.stands c (List.mem_cons_of_mem _ hc)
      · rintro ⟨hcip, hcscheme⟩
        refine honce.1 (List.mem_map.mpr ⟨c, hc, ?_⟩)
        rw [hcip, hcscheme, hip, hscheme]

/-- A message without an equal block gets a block of its own. -/
theorem Holds.add (h : Holds blocks live) (hfits : Fits blocks info) (hnone : ∀ b ∈ blocks, ¬b.same info = true) :
    Holds (info.iplockBlock :: blocks) (live ++ [info]) := by
  have hkey : ∀ b ∈ blocks, ¬(b.ip = info.ip ∧ b.scheme = schemeOf (live ++ [info]) info) := fun b hb hkey =>
    hnone b hb ((same_iff h hfits hb).mpr hkey)
  have hscheme : schemeOf (live ++ [info]) info = info.scheme := by
    rw [schemeOf]
    split
    · rename_i hex
      obtain ⟨x, hx, hip, hx'⟩ := hex
      rcases List.mem_append.mp hx with hx | hx
      · obtain ⟨b, hb, hbip, hbscheme⟩ := h.covers x hx
        rw [schemeOf, if_pos ⟨x, hx, rfl, hx'⟩] at hbscheme
        refine absurd ?_ (hnone b hb)
        rw [BlockInfo.same, if_pos (Or.inl hbscheme)]
        exact decide_eq_true (hbip.trans hip)
      · rw [← List.mem_singleton.mp hx, hx']
    · rfl
  have hmessages : messagesOf (live ++ [info]) info.ip info.scheme = [info] := by
    have hold : messagesOf live info.ip info.scheme = [] := by
      refine List.eq_nil_iff_forall_not_mem.mpr fun m hm => ?_
      obtain ⟨hm, hip, hm'⟩ := mem_messagesOf.mp hm
      obtain ⟨b, hb, hbip, hbscheme⟩ := h.covers m hm
      exact hkey b hb ⟨hbip.trans hip, hbscheme.trans (hm'.trans hscheme.symm)⟩
    rw [messagesOf_append h hfits, hold, if_pos ⟨rfl, hscheme⟩, List.nil_append]
  refine ⟨?_, fun m hm => ?_, fun c hc => ?_⟩
  · rw [List.map_cons, List.nodup_cons]
    refine ⟨fun hmem => ?_, h.once⟩
    obtain ⟨b, hb, heq⟩ := List.mem_map.mp hmem
    obtain ⟨hbip, hbscheme⟩ := Prod.mk.inj heq
    exact hkey b hb ⟨hbip, hbscheme.trans hscheme.symm⟩
  · rcases List.mem_append.mp hm with hm | hm
    · rw [schemeOf_append h hfits hm]
      obtain ⟨b, hb, hbkey⟩ := h.covers m hm
      exact ⟨b, List.mem_cons_of_mem _ hb, hbkey⟩
    · obtain rfl := List.mem_singleton.mp hm
      exact ⟨_, List.mem_cons_self, rfl, hscheme.symm⟩
  · rcases List.mem_cons.mp hc with rfl | hc
    · show Stands _ (messagesOf (live ++ [info]) info.ip info.scheme)
      rw [hmessages]
      refine ⟨fun m hm => ?_, ⟨info, List.mem_singleton.mpr rfl, rfl⟩, by simp [BlockInfo.iplockBlock]⟩
      rw [List.mem_singleton.mp hm]
      exact le_refl _
    · rw [messagesOf_append_of_ne h hfits (hkey c hc)]
      exact h.stands c hc

/-- The blocks hold one more message. -/
theorem Holds.keepOrAdd (h : Holds blocks live) (hfits : Fits blocks info) : Holds (keepOrAdd info blocks) (live ++ [info]) := by
  rcases keepOrAdd_cases info blocks with ⟨l, b, r, rfl, hsame, hkeep⟩ | ⟨hnone, hkeep⟩
  · have hfits' : Fits (b :: (l ++ r)) info := fun hinfo c hc => hfits hinfo c (List.perm_middle.mem_iff.mpr hc)
    rw [hkeep]
    exact ((h.perm List.perm_middle.symm).keepLongest hfits' hsame).perm List.perm_middle
  · rw [hkeep]
    exact (h.add hfits hnone).perm (List.perm_append_singleton _ _)

/-! ### A message that unblocks -/

theorem same_iff_ends : b.same u.iplockUnblock = true ↔ Ends u b.ip b.scheme := by
  unfold BlockInfo.same Ends BlockInfo.iplockUnblock
  split
  · rename_i hall
    rw [decide_eq_true_eq]
    exact ⟨fun hip => ⟨hip, hall.elim Or.inl fun h => Or.inr (Or.inl h)⟩, fun h => h.1⟩
  · rename_i hall
    rw [decide_eq_true_eq]
    obtain ⟨hb, hu⟩ := not_or.mp hall
    exact ⟨fun h => ⟨h.2, Or.inr (Or.inr h.1)⟩, fun h => ⟨h.2.elim (absurd · hb) fun h => h.elim (absurd · hu) id, h.1⟩⟩

/-- The messages that are left are blocked under the schemes they were. -/
theorem schemeOf_filter {m : BlockInfo} (hends : ¬Ends u m.ip (schemeOf live m)) :
    schemeOf (live.filter fun m => ¬Ends u m.ip (schemeOf live m)) m = schemeOf live m := by
  by_cases hall : ∃ x ∈ live, x.ip = m.ip ∧ x.scheme = all
  · obtain ⟨x, hx, hip, hscheme⟩ := hall
    have hsame : schemeOf live x = schemeOf live m := by
      rw [schemeOf, schemeOf, if_pos ⟨x, hx, rfl, hscheme⟩, if_pos ⟨x, hx, hip, hscheme⟩]
    have hleft : x ∈ live.filter fun m => ¬Ends u m.ip (schemeOf live m) := by
      rw [List.mem_filter, decide_eq_true_eq, hip, hsame]
      exact ⟨hx, hends⟩
    rw [schemeOf, schemeOf, if_pos ⟨x, hleft, hip, hscheme⟩, if_pos ⟨x, hx, hip, hscheme⟩]
  · have hnone : ¬∃ x ∈ live.filter fun m => ¬Ends u m.ip (schemeOf live m), x.ip = m.ip ∧ x.scheme = all :=
      fun ⟨x, hx, hkey⟩ => hall ⟨x, List.mem_of_mem_filter hx, hkey⟩
    rw [schemeOf, schemeOf, if_neg hnone, if_neg hall]

theorem messagesOf_filter {ip scheme : QString} (hends : ¬Ends u ip scheme) :
    messagesOf (live.filter fun m => ¬Ends u m.ip (schemeOf live m)) ip scheme = messagesOf live ip scheme := by
  rw [messagesOf, List.filter_filter]
  refine List.filter_congr fun m _ => ?_
  by_cases hm' : Ends u m.ip (schemeOf live m)
  · have hne : ¬(m.ip = ip ∧ schemeOf live m = scheme) := by
      rintro ⟨rfl, rfl⟩
      exact hends hm'
    simp [hm', hne]
  · rw [schemeOf_filter hm']
    simp [hm']

/-- The blocks that are equal to a message that unblocks are erased with what they stand for. -/
theorem Holds.filter (h : Holds blocks live) (u : BlockInfo) :
    Holds (blocks.filter fun b => ¬b.same u.iplockUnblock) (live.filter fun m => ¬Ends u m.ip (schemeOf live m)) where
  once := h.once.sublist (List.filter_sublist.map _)
  covers m hm := by
    obtain ⟨hm, hends⟩ := List.mem_filter.mp hm
    have hends := of_decide_eq_true hends
    obtain ⟨b, hb, hip, hscheme⟩ := h.covers m hm
    rw [schemeOf_filter hends]
    refine ⟨b, List.mem_filter.mpr ⟨hb, decide_eq_true ?_⟩, hip, hscheme⟩
    rw [same_iff_ends, hip, hscheme]
    exact hends
  stands b hb := by
    obtain ⟨hb, hends⟩ := List.mem_filter.mp hb
    rw [messagesOf_filter (same_iff_ends.not.mp (of_decide_eq_true hends))]
    exact h.stands b hb

/-! ### Runs -/

/-- What holds of the blocks in every state of an orderly run. -/
structure Kept (blocks live : List BlockInfo) : Prop where
  sorted : blocks.Pairwise fun a b => a.blockLimit ≤ b.blockLimit
  holds : Holds blocks live

/-- The blocks that are kept have been banned and not unbanned. -/
def Banned (blocks : List BlockInfo) : Prop := ∀ b ∈ blocks, b.status = .banned

theorem Banned.keepOrAdd (h : Banned blocks) (hfits : Fits blocks info) : Banned (keepOrAdd info blocks) := by
  rcases keepOrAdd_cases info blocks with ⟨l, b, r, rfl, hsame, hkeep⟩ | ⟨-, hkeep⟩
  · have hb : b ∈ l ++ b :: r := by simp
    have hall : info.scheme = all → b.scheme = all := fun hinfo => hfits hinfo b hb (ip_of_same hsame)
    rw [hkeep]
    intro c hc
    rcases List.mem_append.mp hc with hc | hc
    · exact h c (List.mem_append_left _ hc)
    · rcases List.mem_cons.mp hc with rfl | hc
      · rw [keepLongest_eq hall]
        exact h b hb
      · exact h c (List.mem_append_right _ (List.mem_cons_of_mem _ hc))
  · rw [hkeep]
    intro c hc
    rcases List.mem_append.mp hc with hc | hc
    · exact h c hc
    · rw [List.mem_singleton.mp hc]
      rfl

/-- Where the blocks that are found have one key, erasing the first erases all. -/
theorem eraseP_eq_filter {α κ : Type} {f : α → κ} {p : α → Bool} : ∀ {l : List α}, (l.map f).Nodup →
    (∀ a ∈ l, ∀ b ∈ l, p a = true → p b = true → f a = f b) → l.eraseP p = l.filter fun a => ¬p a = true
  | [], _, _ => rfl
  | a :: l, hnodup, hkey => by
    rw [List.map_cons, List.nodup_cons] at hnodup
    by_cases ha : p a = true
    · have hnone : ∀ b ∈ l, decide (¬p b = true) = true := fun b hb => decide_eq_true fun hpb =>
        hnodup.1 (List.mem_map.mpr ⟨b, hb, hkey b (List.mem_cons_of_mem _ hb) a List.mem_cons_self hpb ha⟩)
      rw [List.eraseP_cons_of_pos ha, List.filter_cons_of_neg (by simpa using ha), List.filter_eq_self.mpr hnone]
    · have hrest := eraseP_eq_filter hnodup.2 fun b hb c hc => hkey b (List.mem_cons_of_mem _ hb) c (List.mem_cons_of_mem _ hc)
      rw [List.eraseP_cons_of_neg ha, List.filter_cons_of_pos (by simpa using ha), hrest]

theorem eraseP_eq (h : Holds blocks live)
    (horderly : u.scheme = all → ∀ b ∈ blocks, ∀ c ∈ blocks, b.ip = u.ip → c.ip = u.ip → b.scheme = c.scheme) :
    blocks.eraseP (fun b => b.same u.iplockUnblock) = blocks.filter fun b => ¬b.same u.iplockUnblock = true := by
  refine eraseP_eq_filter h.once fun b hb c hc hbsame hcsame => ?_
  obtain ⟨hbip, hbscheme⟩ := same_iff_ends.mp hbsame
  obtain ⟨hcip, hcscheme⟩ := same_iff_ends.mp hcsame
  have hscheme : b.scheme = c.scheme := by
    by_cases hu : u.scheme = all
    · exact horderly hu b hb c hc hbip hcip
    · by_cases hball : b.scheme = all
      · rw [hball, h.scheme_eq hb hc (hcip.trans hbip.symm) hball]
      · by_cases hcall : c.scheme = all
        · exact absurd (h.scheme_eq hc hb (hbip.trans hcip.symm) hcall) hball
        · rw [(hbscheme.resolve_left hball).resolve_left hu, (hcscheme.resolve_left hcall).resolve_left hu]
  rw [Prod.mk.injEq]
  exact ⟨hbip.trans hcip.symm, hscheme⟩

/-- One event of an orderly run. -/
theorem Kept.step (hsort : Sorts sort) (h : Kept blocks live) (hbanned : Banned blocks) {e : Event} (horderly : Orderly host blocks e) :
    Kept (handle host sort blocks e) (liveStep host live e) ∧ Banned (handle host sort blocks e) := by
  cases e with
  | block now message =>
    rw [handle, blockIp, liveStep]
    rw [Orderly] at horderly
    cases hnew : newBlock host now message with
    | none =>
      rw [Option.toList_none, List.append_nil]
      exact ⟨h, hbanned⟩
    | some info =>
      have hfits : Fits blocks info := horderly info hnew
      obtain ⟨hperm, hsorted⟩ := hsort (keepOrAdd info blocks)
      exact ⟨⟨hsorted, (h.holds.keepOrAdd hfits).perm hperm⟩, fun b hb => hbanned.keepOrAdd hfits b (hperm.mem_iff.mp hb)⟩
  | unblock now message =>
    rw [handle, unblockIp, liveStep]
    rw [Orderly] at horderly
    cases hinfo : BlockInfo.ofMessage host now message with
    | none => exact ⟨h, hbanned⟩
    | some u =>
      simp only
      rw [eraseP_eq h.holds (horderly u hinfo)]
      exact ⟨⟨h.sorted.sublist List.filter_sublist, h.holds.filter u⟩, fun b hb => hbanned b (List.mem_of_mem_filter hb)⟩

/-- All events of an orderly run. -/
theorem Kept.run (hsort : Sorts sort) : ∀ (events : List Event) {blocks live : List BlockInfo}, Kept blocks live → Banned blocks →
    OrderlyRun host sort blocks events →
      Kept (events.foldl (handle host sort) blocks) (events.foldl (liveStep host) live) ∧ Banned (events.foldl (handle host sort) blocks)
  | [], _, _, h, hbanned, _ => ⟨h, hbanned⟩
  | _ :: events, _, _, h, hbanned, horderly => by
    obtain ⟨h, hbanned⟩ := h.step hsort hbanned horderly.1
    exact Kept.run hsort events h hbanned horderly.2

theorem kept_nil : Kept [] [] :=
  ⟨List.Pairwise.nil, List.nodup_nil, fun m hm => (by cases hm), fun b hb => (by cases hb)⟩

end Snapfirewall
end Snapwebsites
