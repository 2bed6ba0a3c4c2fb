import Snapwebsites.Snapfirewall.Setup

/-! # Restarting the firewall

A cell that is over is saved as a new block of its URI: it is banned, for a day. So nothing that the setup does with
the row of the server makes an address unbanned (`Kept`), and the row of an earlier run is set up as it should be
exactly where none of its blocks is over. -/

namespace Snapwebsites
namespace Snapfirewall
open QString

variable {host : Host} {date : Nat → Int} {t : Table} {s s' : Setup} {limit : Int}

/-- What an earlier run left: a URI of a blocked address for each time, once for each address, and the row of the address. -/
structure Left (host : Host) (t : Table) : Prop where
  valid : ∀ e ∈ t.ban.entries, (BlockInfo.ofUri host 0 e.2).isValid = true
  once : (t.ban.entries.map fun e => (BlockInfo.ofUri host 0 e.2).ip).Nodup
  info : ∀ e ∈ t.ban.entries, (t.info (BlockInfo.ofUri host 0 e.2).ip).blockLimit = some e.1 ∧
    (t.info (BlockInfo.ofUri host 0 e.2).ip).status = some bannedText

/-- The address of a cell. -/
def address (host : Host) (e : Int × QString) : QString := (BlockInfo.ofUri host 0 e.2).ip

/-- The row of the server after a restart, the rows of the addresses that are no longer blocked, and the batch. -/
structure Restarted (host : Host) (limit : Int) (t : Table) (s : Setup) : Prop where
  row : s.table.ban = t.ban.filter fun e => limit ≤ e.1
  unbanned : ∀ e ∈ t.ban.entries, e.1 < limit → (s.table.info (address host e)).status = some unbannedText ∧
    ∀ e' ∈ s.table.ban.entries, address host e' ≠ address host e
  batch : s.toBlock.map (·.ip) = s.table.ban.entries.map (address host)

/-! ### Nothing is unbanned -/

theorem status_ofUri (now : Int) (uri : QString) : (BlockInfo.ofUri host now uri).status = .banned := by
  have hip : ∀ (b : BlockInfo) (ip : QString), (b.setIp host ip).status = b.status := fun b ip => by
    unfold BlockInfo.setIp
    split <;> rfl
  have hscheme : ∀ (b : BlockInfo) (scheme : QString), (b.setScheme host scheme).status = b.status := fun b scheme => by
    unfold BlockInfo.setScheme
    split <;> rfl
  show (({} : BlockInfo).setUri host uri).status = .banned
  unfold BlockInfo.setUri
  split
  · rw [hip, hscheme]
  · rw [hip]

/-- Saving a banned block makes no address unbanned. -/
theorem status_save {b : BlockInfo} (hb : b.status = .banned) (now : Int) {ip : QString}
    (h : (t.info ip).status = some bannedText) : ((b.save now t).2.info ip).status = some bannedText := by
  cases hvalid : b.isValid with
  | false => rwa [BlockInfo.save_invalid hvalid]
  | true =>
    by_cases hlonger : b.Longer t
    · rwa [BlockInfo.save_longer hvalid hb hlonger]
    · rw [BlockInfo.save_banned hvalid hb hlonger, Table.info_setInfo]
      split
      · exact congrArg some (if_pos hb)
      · exact h

/-- An address stays banned through the cells of the row. -/
theorem status_setupRow {ip : QString} : ∀ {fuel : Nat} {s s' : Setup}, (s.table.info ip).status = some bannedText →
    setupRow host date limit fuel s = some s' → (s'.table.info ip).status = some bannedText
  | 0, _, _, _, h => by cases h
  | fuel + 1, s, s', hs, h => by
    have hcell : ∀ (e : Int × QString) (s : Setup), (s.table.info ip).status = some bannedText →
        ((setupCell host date limit s e).table.info ip).status = some bannedText := fun e s hs => by
      unfold setupCell
      split
      · exact status_save (status_ofUri _ _) _ hs
      · exact hs
    have hcells : ∀ (l : List (Int × QString)) (s : Setup), (s.table.info ip).status = some bannedText →
        ((l.foldl (setupCell host date limit) s).table.info ip).status = some bannedText := fun l => by
      induction l with
      | nil => exact fun s hs => hs
      | cons e l ih => exact fun s hs => ih _ (hcell e s hs)
    rw [setupRow] at h
    split at h
    · cases h
      exact hs
    · refine status_setupRow ?_ h
      exact hcells _ s hs

/-! ### A row where nothing is over -/

/-- The cells behind the cursor. -/
def behind (s : Setup) : List (Int × QString) := s.table.ban.entries.filter fun e => s.position.all (· < e.1)

/-- The cells behind the last one of a part of the row. -/
theorem filter_behind {α : Type} {l p r : List (Int × α)} {x : Int × α} (hl : l = p ++ r) (hsorted : l.Pairwise fun a b => a.1 < b.1)
    (hx : p.getLast? = some x) : l.filter (fun e => x.1 < e.1) = r := by
  subst hl
  obtain ⟨q, rfl⟩ := List.getLast?_eq_some_iff.mp hx
  obtain ⟨hq, -, hr⟩ := List.pairwise_append.mp hsorted
  have hnone : ∀ e ∈ q ++ [x], ¬decide (x.1 < e.1) = true := by
    intro e he
    rw [decide_eq_true_eq, not_lt]
    rcases List.mem_append.mp he with he | he
    · exact ((List.pairwise_append.mp hq).2.2 e he x (List.mem_singleton.mpr rfl)).le
    · rw [List.mem_singleton.mp he]
  have hall : ∀ e ∈ r, decide (x.1 < e.1) = true := fun e he =>
    decide_eq_true (hr x (List.mem_append_right _ (List.mem_singleton.mpr rfl)) e he)
  rw [List.filter_append, List.filter_eq_nil_iff.mpr hnone, List.filter_eq_self.mpr hall, List.nil_append]

/-- The cells of a page that are not over are gathered. -/
theorem setupCells_eq (host : Host) (date : Nat → Int) (hlimit : ∀ e ∈ s.table.ban.entries, limit ≤ e.1) : ∀ {l : List (Int × QString)}, (∀ e ∈ l, e ∈ s.table.ban.entries) →
    ∃ wakeup ticks more, l.foldl (setupCell host date limit) s = { s with wakeup, ticks, toBlock := s.toBlock ++ more } ∧
      more.map (·.ip) = l.map (address host) := by
  intro l
  induction l generalizing s with
  | nil => exact fun _ => ⟨s.wakeup, s.ticks, [], by simp, rfl⟩
  | cons e l ih =>
    intro hmem
    obtain ⟨he, hmem⟩ := List.forall_mem_cons.mp hmem
    have hcell : setupCell host date limit s e = { s with
        wakeup := some (s.wakeup.getD e.1)
        toBlock := s.toBlock ++ [BlockInfo.ofUri host (date s.ticks) e.2]
        ticks := s.ticks + 1 } := by
      rw [setupCell, if_neg (not_lt.mpr (hlimit e he)), SortedMap.find?_eq_some.mpr he, Option.getD_some]
    rw [List.foldl_cons, hcell]
    obtain ⟨wakeup, ticks, more, hfold, hmore⟩ := ih (s := { s with
      wakeup := some (s.wakeup.getD e.1)
      toBlock := s.toBlock ++ [BlockInfo.ofUri host (date s.ticks) e.2]
      ticks := s.ticks + 1 }) hlimit hmem
    refine ⟨wakeup, ticks, BlockInfo.ofUri host (date s.ticks) e.2 :: more, ?_, ?_⟩
    · rw [hfold]
      simp only [List.append_assoc, List.singleton_append]
    · rw [List.map_cons, hmore, List.map_cons]
      rfl

/-- The pages of such a row end, and gather its cells. -/
theorem setupRow_eq (host : Host) (date : Nat → Int) : ∀ (fuel : Nat) (s : Setup), (∀ e ∈ s.table.ban.entries, limit ≤ e.1) → (behind s).length < fuel →
    ∃ s', setupRow host date limit fuel s = some s' ∧ s'.table = s.table ∧
      s'.toBlock.map (·.ip) = s.toBlock.map (·.ip) ++ (behind s).map (address host)
  | fuel + 1, s, hlimit, hfuel => by
    have hsplit : behind s = page s ++ (behind s).drop 100 := (List.take_append_drop 100 _).symm
    rw [setupRow]
    cases hpage : page s with
    | nil =>
      have hnone : behind s = [] := by simpa [page, behind] using hpage
      exact ⟨s, rfl, rfl, by rw [hnone, List.map_nil, List.append_nil]⟩
    | cons e l =>
      rw [hpage] at hsplit
      have hmem : ∀ x ∈ e :: l, x ∈ s.table.ban.entries := fun x hx =>
        List.mem_of_mem_filter (hsplit ▸ List.mem_append_left _ hx : x ∈ behind s)
      obtain ⟨wakeup, ticks, more, hfold, hmore⟩ := setupCells_eq host date hlimit hmem
      obtain ⟨x, hx⟩ : ∃ x, (e :: l).getLast? = some x := ⟨_, List.getLast?_eq_some_getLast (List.cons_ne_nil _ _)⟩
      have hposition : s.position.all (· < x.1) = true :=
        (List.mem_filter.mp (hsplit ▸ List.mem_append_left _ (List.mem_of_getLast? hx) : x ∈ behind s)).2
      have hbehind : behind { s with wakeup, ticks, toBlock := s.toBlock ++ more, position := some x.1 } = (behind s).drop 100 := by
        have hfilter := filter_behind hsplit (s.table.ban.sorted.filter _) hx
        rw [← hfilter]
        unfold behind
        rw [List.filter_filter]
        refine List.filter_congr fun e _ => ?_
        cases hp : s.position with
        | none => simp
        | some p =>
          rw [hp, Option.all_some, decide_eq_true_eq] at hposition
          simpa using fun hlt => hposition.trans hlt
      have hlength : ((behind s).drop 100).length < (behind s).length := by
        rw [List.length_drop]
        have := congrArg List.length hsplit
        simp only [List.length_append, List.length_cons] at this
        omega
      obtain ⟨s', hrow, htable, htoBlock⟩ := setupRow_eq host date fuel
        { s with wakeup, ticks, toBlock := s.toBlock ++ more, position := some x.1 } hlimit (by rw [hbehind]; omega)
      refine ⟨s', ?_, htable, ?_⟩
      · simp only [hfold, hx, Option.map_some]
        exact hrow
      · rw [htoBlock, hbehind, List.map_append, hmore, List.append_assoc, ← List.map_append, ← hsplit]

/-- The row that an earlier run left is set up as it should be exactly where no block is over. -/
theorem restarted_iff (date : Nat → Int) (hleft : Left host t) :
    (∃ fuel s, setupFirewall host date fuel t [] = some s ∧ Restarted host (date 0 + minute) t s) ↔
      ∀ e ∈ t.ban.entries, date 0 + minute ≤ e.1 := by
  constructor
  · rintro ⟨fuel, s, hsetup, hrestarted⟩ e he
    by_contra hover
    obtain ⟨s', hrow, rfl⟩ := Option.map_eq_some_iff.mp hsetup
    have hbanned := status_setupRow (hleft.info e he).2 hrow
    have hunbanned := (hrestarted.unbanned e he (not_le.mp hover)).1
    exact absurd (Option.some.inj (hbanned.symm.trans hunbanned)) (by decide)
  · intro hlimit
    obtain ⟨s, hrow, htable, htoBlock⟩ := setupRow_eq host date (t.ban.entries.length + 1) { table := t, ticks := 1 } hlimit
      (Nat.lt_succ_of_le (List.length_filter_le _ _))
    refine ⟨_, s, by rw [setupFirewall, hrow]; rfl, ?_, fun e he hover => absurd (hlimit e he) (not_le.mpr hover), ?_⟩
    · rw [htable]
      exact (SortedMap.ext (List.filter_eq_self.mpr fun e he => decide_eq_true (hlimit e he))).symm
    · rw [htoBlock, htable]
      exact congrArg (List.map _) (List.filter_eq_self.mpr fun _ _ => rfl)

/-- The row of a server with one block. -/
def oneBlock (limit : Int) : Table where
  ban := (∅ : SortedMap Int QString).insert limit "http://1.2.3.4".toList
  info := fun ip => if ip = "1.2.3.4".toList then { blockLimit := some limit, status := some bannedText } else {}

theorem left_oneBlock (limit : Int) : Left openHost (oneBlock limit) := by
  have hentries : (oneBlock limit).ban.entries = [(limit, "http://1.2.3.4".toList)] := rfl
  have hip : (BlockInfo.ofUri openHost 0 "http://1.2.3.4".toList).ip = "1.2.3.4".toList := by decide
  refine ⟨fun e he => ?_, ?_, fun e he => ?_⟩
  · obtain rfl := List.mem_singleton.mp (hentries ▸ he)
    show decide ((BlockInfo.ofUri openHost 0 "http://1.2.3.4".toList).ip ≠ []) = true
    rw [hip]
    decide
  · rw [hentries]
    simp
  · obtain rfl := List.mem_singleton.mp (hentries ▸ he)
    rw [hip]
    exact ⟨congrArg InfoRow.blockLimit (if_pos rfl), congrArg InfoRow.status (if_pos rfl)⟩

/-- A block of two minutes from now. -/
theorem restarted_later : (∃ fuel s, setupFirewall openHost (fun _ => 0) fuel (oneBlock (2 * minute)) [] = some s ∧
    Restarted openHost (0 + minute) (oneBlock (2 * minute)) s) ↔ ∀ e ∈ (oneBlock (2 * minute)).ban.entries, 0 + minute ≤ e.1 :=
  restarted_iff (fun _ => 0) (left_oneBlock (2 * minute))

/-- A block that is over stays banned, and is in the row of the server for another day. -/
theorem over_not_restarted : ¬∃ fuel s, setupFirewall openHost (fun _ => minute) fuel (oneBlock 0) [] = some s ∧
    Restarted openHost (minute + minute) (oneBlock 0) s := by
  rintro ⟨fuel, s, hsetup, hrestarted⟩
  have he : (0, "http://1.2.3.4".toList) ∈ (oneBlock 0).ban.entries := List.mem_singleton.mpr rfl
  obtain ⟨s', hrow, rfl⟩ := Option.map_eq_some_iff.mp hsetup
  have hbanned := status_setupRow ((left_oneBlock 0).info _ he).2 hrow
  have hunbanned := (hrestarted.unbanned _ he (by decide)).1
  exact absurd (Option.some.inj (hbanned.symm.trans hunbanned)) (by decide)

end Snapfirewall
end Snapwebsites
