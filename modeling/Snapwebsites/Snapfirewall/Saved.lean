import Snapwebsites.Snapfirewall.Refines

/-! # Saving the pending blocks

The row of an address is written once when the addresses of the blocks differ, so every block is new to the table
and stays in it (`saved_foldl`). With the blocks of an orderly run, a firewall loses nothing; a message that blocks all schemes of an
address that is blocked under another one leaves it unbanned. -/

namespace Snapwebsites
namespace Snapfirewall
open QString
open BlockInfo (all)

variable {host : Host} {sort : List BlockInfo → List BlockInfo} {date : Nat → Int} {limit : Int} {s : Setup} {b : BlockInfo}

/-- The table knows nothing of the addresses of the blocks. -/
def Fresh (blocks : List BlockInfo) (t : Table) : Prop := ∀ b ∈ blocks, b.isValid = true → t.info b.ip = {}

theorem table_setupBlock_invalid (h : b.isValid = false) : (setupBlock date limit s b).table = s.table := by
  show (b.save _ _).2 = _
  rw [BlockInfo.save_invalid h]

theorem table_setupBlock (hvalid : b.isValid = true) (hbanned : b.status = .banned) (hfresh : s.table.info b.ip = {}) :
    (setupBlock date limit s b).table =
      { s.table with ban := b.saveBan s.table.ban none }.setInfo b.ip (b.saveInfo (date s.ticks) {}) := by
  have hlonger : ¬b.Longer s.table := by
    rw [BlockInfo.Longer, hfresh]
    exact Bool.false_ne_true
  show (b.save _ _).2 = _
  rw [BlockInfo.save_banned hvalid hbanned hlonger, hfresh]

/-- The rows that one block leaves alone. -/
theorem setupBlock_frame (date : Nat → Int) (limit : Int) (hbanned : b.status = .banned) (hfresh : b.isValid = true → s.table.info b.ip = {}) :
    (∀ ip, (b.isValid = true → b.ip ≠ ip) → (setupBlock date limit s b).table.info ip = s.table.info ip) ∧
    ∀ k, (b.isValid = true → b.blockLimit ≠ k) → (setupBlock date limit s b).table.ban.find? k = s.table.ban.find? k := by
  cases hvalid : b.isValid with
  | false =>
    rw [table_setupBlock_invalid hvalid]
    exact ⟨fun _ _ => rfl, fun _ _ => rfl⟩
  | true =>
    rw [table_setupBlock hvalid hbanned (hfresh hvalid)]
    refine ⟨fun ip hip => ?_, fun k hk => ?_⟩
    · rw [Table.info_setInfo, if_neg fun h => hip rfl h.symm]
    · rw [Table.ban_setInfo]
      exact BlockInfo.find?_saveBan_of_ne hbanned _ (hk rfl).symm (by simp)

theorem separate_tail {blocks : List BlockInfo} (h : Separate limit (b :: blocks)) : Separate limit blocks := by
  obtain ⟨hips, hlimits⟩ := h
  exact ⟨hips.sublist ((List.sublist_cons_self _ _).filter _ |>.map _), hlimits.sublist ((List.sublist_cons_self _ _).filter _ |>.map _)⟩

theorem ip_ne {blocks : List BlockInfo} (h : Separate limit (b :: blocks)) (hb : b.isValid = true) {c : BlockInfo} (hc : c ∈ blocks)
    (hvalid : c.isValid = true) : c.ip ≠ b.ip := by
  have hips := h.ips
  rw [List.filter_cons_of_pos hb, List.map_cons, List.nodup_cons] at hips
  exact fun heq => hips.1 (List.mem_map.mpr ⟨c, List.mem_filter.mpr ⟨hc, hvalid⟩, heq⟩)

/-- The limit of a block that is not over is of no other block. -/
theorem limit_ne {blocks : List BlockInfo} (h : Separate limit (b :: blocks)) (hb : b.isValid = true) (hlater : limit < b.blockLimit)
    {c : BlockInfo} (hc : c ∈ blocks) (hvalid : c.isValid = true) : c.blockLimit ≠ b.blockLimit := by
  intro heq
  have hlimits := h.limits
  rw [List.filter_cons_of_pos (p := fun b : BlockInfo => decide (b.isValid = true ∧ limit < b.blockLimit)) (decide_eq_true ⟨hb, hlater⟩),
    List.map_cons, List.nodup_cons] at hlimits
  exact hlimits.1 (List.mem_map.mpr ⟨c, List.mem_filter.mpr ⟨hc, decide_eq_true ⟨hvalid, heq ▸ hlater⟩⟩, heq⟩)

/-- The blocks that are saved, and the rows that they leave alone. -/
theorem saved_foldl (date : Nat → Int) : ∀ {blocks : List BlockInfo} {s : Setup}, Banned blocks → (∀ b ∈ blocks, 0 < b.banCount) → Separate limit blocks →
    Fresh blocks s.table →
    Saved limit blocks (blocks.foldl (setupBlock date limit) s).table ∧
    (∀ ip, (∀ b ∈ blocks, b.isValid = true → b.ip ≠ ip) → (blocks.foldl (setupBlock date limit) s).table.info ip = s.table.info ip) ∧
    ∀ k, (∀ b ∈ blocks, b.isValid = true → b.blockLimit ≠ k) →
      (blocks.foldl (setupBlock date limit) s).table.ban.find? k = s.table.ban.find? k
  | [], s, _, _, _, _ =>
    ⟨⟨fun _ h => (by cases h), fun _ h => (by cases h), fun _ h => (by cases h), fun _ h => (by cases h)⟩, fun _ _ => rfl, fun _ _ => rfl⟩
  | b :: blocks, s, hbanned, hcount, hseparate, hfresh => by
    obtain ⟨hb, hbanned⟩ := List.forall_mem_cons.mp hbanned
    obtain ⟨hbcount, hcount⟩ := List.forall_mem_cons.mp hcount
    obtain ⟨hbfresh, hfresh⟩ := List.forall_mem_cons.mp hfresh
    obtain ⟨hframeInfo, hframeBan⟩ := setupBlock_frame date limit hb hbfresh
    have hnext : Fresh blocks (setupBlock date limit s b).table := fun c hc hvalid => by
      rw [hframeInfo c.ip fun hbvalid heq => ip_ne hseparate hbvalid hc hvalid heq.symm]
      exact hfresh c hc hvalid
    obtain ⟨hsaved, hinfo, hban⟩ := saved_foldl date hbanned hcount (separate_tail hseparate) hnext
    rw [List.foldl_cons]
    refine ⟨?_, fun ip hip => ?_, fun k hk => ?_⟩
    · have hrow : b.isValid = true → limit < b.blockLimit →
          (blocks.foldl (setupBlock date limit) (setupBlock date limit s b)).table.info b.ip = b.saveInfo (date s.ticks) {} :=
        fun hvalid _ => by
          rw [hinfo b.ip fun c hc => ip_ne hseparate hvalid hc, table_setupBlock hvalid hb (hbfresh hvalid), Table.info_setInfo, if_pos rfl]
      refine ⟨fun c hc hvalid hlater => ?_, fun c hc hvalid hlater => ?_, fun c hc hvalid hlater => ?_, fun c hc hvalid hlater => ?_⟩ <;>
        rcases List.mem_cons.mp hc with rfl | hc
      · rw [hban c.blockLimit fun d hd => limit_ne hseparate hvalid hlater hd, table_setupBlock hvalid hb (hbfresh hvalid), Table.ban_setInfo]
        exact BlockInfo.find?_saveBan hb _ _
      · exact hsaved.ban c hc hvalid hlater
      · rw [hrow hvalid hlater]
        exact congrArg some (if_pos hb)
      · exact hsaved.status c hc hvalid hlater
      · rw [hrow hvalid hlater]
        rfl
      · exact hsaved.blockLimit c hc hvalid hlater
      · rw [hrow hvalid hlater]
        show (if 0 < c.banCount then some (c.banCount + 0) else none) = _
        rw [if_pos hbcount, Int.add_zero]
      · exact hsaved.banCount c hc hvalid hlater
    · rw [hinfo ip fun c hc => hip c (List.mem_cons_of_mem _ hc), hframeInfo ip (hip b List.mem_cons_self)]
    · rw [hban k fun c hc => hk c (List.mem_cons_of_mem _ hc), hframeBan k (hk b List.mem_cons_self)]

/-! ### Runs -/

theorem banCount_liveStep {live : List BlockInfo} (h : ∀ m ∈ live, m.banCount = 1) (e : Event) : ∀ m ∈ liveStep host live e, m.banCount = 1 := by
  cases e with
  | block now message =>
    intro m hm
    rcases List.mem_append.mp hm with hm | hm
    · exact h m hm
    · obtain ⟨info, -, rfl⟩ := Option.map_eq_some_iff.mp (Option.mem_toList.mp hm)
      rfl
  | unblock now message =>
    rw [liveStep]
    split
    · exact h
    · exact fun m hm => h m (List.mem_of_mem_filter hm)

theorem banCount_liveOf : ∀ (events : List Event) {live : List BlockInfo}, (∀ m ∈ live, m.banCount = 1) →
    ∀ m ∈ events.foldl (liveStep host) live, m.banCount = 1
  | [], _, h => h
  | e :: events, _, h => banCount_liveOf events (banCount_liveStep h e)

theorem sum_banCount : ∀ {ms : List BlockInfo}, (∀ m ∈ ms, m.banCount = 1) → (ms.map (·.banCount)).sum = ms.length
  | [], _ => rfl
  | m :: ms, h => by
    obtain ⟨hm, h⟩ := List.forall_mem_cons.mp h
    rw [List.map_cons, List.sum_cons, hm, sum_banCount h, List.length_cons]
    omega

/-- The count of a block is that of its messages. -/
theorem Stands.banCount_pos {ms : List BlockInfo} (h : Stands b ms) (hone : ∀ m ∈ ms, m.banCount = 1) : 0 < b.banCount := by
  obtain ⟨-, ⟨m, hm, -⟩, hcount⟩ := h
  rw [hcount, sum_banCount hone]
  exact Int.natCast_pos.mpr (List.length_pos_of_mem hm)

theorem setupRow_empty (limit : Int) (fuel : Nat) : setupRow host date limit (fuel + 1) { table := {}, ticks := 1 } = some { table := {}, ticks := 1 } := rfl

/-- In an orderly run the blocks hold what the messages say in every state, and those of addresses and limits that differ are
    saved in an empty table when the firewall is set up. -/
theorem pending_saved (hsort : Sorts sort) (date : Nat → Int) {events : List Event} (horderly : OrderlyRun host sort [] events) :
    Kept (run host sort events) (liveOf host events) ∧
      (Separate (date 0 + minute) (run host sort events) →
        ∃ s, setupFirewall host date 1 {} (run host sort events) = some s ∧ Saved (date 0 + minute) (run host sort events) s.table) := by
  obtain ⟨hkept, hbanned⟩ := Kept.run hsort events kept_nil (fun b hb => by cases hb) horderly
  refine ⟨hkept, fun hseparate => ?_⟩
  have hone : ∀ m ∈ liveOf host events, m.banCount = 1 := banCount_liveOf events fun m hm => by cases hm
  have hcount : ∀ b ∈ run host sort events, 0 < b.banCount := fun b hb =>
    (hkept.holds.stands b hb).banCount_pos fun m hm => hone m (mem_messagesOf.mp hm).1
  have hsaved := saved_foldl date (s := { table := {}, ticks := 1 }) hbanned hcount hseparate fun _ _ _ => rfl
  exact ⟨_, by rw [setupFirewall, setupRow_empty]; rfl, hsaved.1⟩

/-! ### An address under two schemes -/

def sortLimits (l : List BlockInfo) : List BlockInfo := l.mergeSort fun a b => decide (a.blockLimit ≤ b.blockLimit)

theorem sorts_sortLimits : Sorts sortLimits := by
  intro l
  refine ⟨List.mergeSort_perm l _, ?_⟩
  refine (List.pairwise_mergeSort (fun a b c hab hbc => ?_) (fun a b => ?_) l).imp fun h => of_decide_eq_true h
  · exact decide_eq_true ((of_decide_eq_true hab).trans (of_decide_eq_true hbc))
  · simpa using le_total a.blockLimit b.blockLimit

def httpMessage : Message := { uri := some "http://1.2.3.4".toList }

def allMessage : Message := { uri := some "all://1.2.3.4".toList }

/-- An address is blocked once. -/
theorem pending_saved_http :
    Kept (run openHost sortLimits [.block 0 httpMessage]) (liveOf openHost [.block 0 httpMessage]) ∧
      (Separate (0 + minute) (run openHost sortLimits [.block 0 httpMessage]) →
        ∃ s, setupFirewall openHost (fun _ => 0) 1 {} (run openHost sortLimits [.block 0 httpMessage]) = some s ∧
          Saved (0 + minute) (run openHost sortLimits [.block 0 httpMessage]) s.table) :=
  pending_saved sorts_sortLimits (fun _ => 0) ⟨fun _ _ _ _ hb => (by cases hb), trivial⟩

/-- The block that two messages leave in memory. -/
def mergedBlock : BlockInfo := { status := .unbanned, scheme := all, ip := "1.2.3.4".toList, blockLimit := day, banCount := 2 }

theorem run_merged : run openHost sortLimits [.block 0 httpMessage, .block 0 allMessage] = [mergedBlock] := by
  have hsort : ∀ b, sortLimits [b] = [b] := fun b => List.mergeSort_singleton b
  have hhttp : newBlock openHost 0 httpMessage = some { ip := "1.2.3.4".toList, blockLimit := day, banCount := 1 } := by decide
  have hall : newBlock openHost 0 allMessage = some { scheme := all, ip := "1.2.3.4".toList, blockLimit := day, banCount := 1 } := by decide
  have hmerged : keepOrAdd { scheme := all, ip := "1.2.3.4".toList, blockLimit := day, banCount := 1 }
      [{ ip := "1.2.3.4".toList, blockLimit := day, banCount := 1 }] = [mergedBlock] := by decide
  have hfirst : blockIp openHost sortLimits [] 0 httpMessage = [{ ip := "1.2.3.4".toList, blockLimit := day, banCount := 1 }] := by
    rw [blockIp, hhttp]
    exact hsort _
  have hsecond : blockIp openHost sortLimits [{ ip := "1.2.3.4".toList, blockLimit := day, banCount := 1 }] 0 allMessage = [mergedBlock] := by
    rw [blockIp, hall]
    simp only
    rw [hmerged, hsort]
  show blockIp openHost sortLimits (blockIp openHost sortLimits [] 0 httpMessage) 0 allMessage = _
  rw [hfirst, hsecond]

/-- A message that blocks all schemes of a blocked address has it saved as unbanned, and not scheduled. -/
theorem merged_not_saved : ¬∃ s, setupFirewall openHost (fun _ => 0) 1 {} (run openHost sortLimits [.block 0 httpMessage, .block 0 allMessage]) = some s ∧
    Saved (0 + minute) (run openHost sortLimits [.block 0 httpMessage, .block 0 allMessage]) s.table := by
  rintro ⟨s, hsetup, hsaved⟩
  rw [run_merged, setupFirewall, setupRow_empty] at hsetup
  obtain rfl := Option.some.inj hsetup
  rw [run_merged] at hsaved
  have hstatus := hsaved.status mergedBlock List.mem_cons_self rfl (by decide)
  exact absurd hstatus (by decide)

end Snapfirewall
end Snapwebsites
