import Snapwebsites.Communicator.Registry

/-! # When the registry does what it is told

The calls are given the text of an address and its port, and the maps are keyed by the text of the IP alone. So a call
reaches the computer that it names only by chance: `named_iff_reaches` says exactly when, for every run. -/

namespace Snapwebsites
open QString

/-! ### Texts of addresses -/

namespace RemoteAddress
variable {a b : RemoteAddress}

theorem isIpv6_iff : a.isIpv6 = true ↔ ':' ∈ a.ip := List.contains_iff_mem

theorem toIpBrackets_of_ipv6 (h : ':' ∈ a.ip) : a.toIpBrackets = '[' :: a.ip ++ [']'] := if_pos (isIpv6_iff.mpr h)

theorem toIpBrackets_of_ipv4 (h : ':' ∉ a.ip) : a.toIpBrackets = a.ip := if_neg (isIpv6_iff.not.mpr h)

theorem isDigit_of_getLast_number {n : Nat} {c : Char} (h : c ∈ (number n).getLast?) : c.isDigit = true := by
  have hnumber : number n = Nat.toDigits 10 n := if_neg (by omega)
  rw [hnumber] at h
  exact Nat.isDigit_of_mem_toDigits (by decide) (by decide) (List.mem_of_getLast? h)

/-- The text of an address with its port is never that of an IP. -/
theorem toIpPort_ne (a b : RemoteAddress) : a.toIpPort ≠ b.toIpBrackets := by
  intro h
  by_cases hb : ':' ∈ b.ip
  · rw [toIpBrackets_of_ipv6 hb, toIpPort] at h
    have hnumber : number a.port ≠ [] := by
      have hdigits : number a.port = Nat.toDigits 10 a.port := if_neg (by omega)
      rw [hdigits]
      exact Nat.toDigits_ne_nil
    have hlast := congrArg List.getLast? h
    rw [List.getLast?_append_of_ne_nil _ (List.cons_ne_nil _ _), List.getLast?_append_of_ne_nil _ (List.cons_ne_nil _ _),
      List.getLast?_cons_of_ne_nil hnumber] at hlast
    have hdigit := isDigit_of_getLast_number (c := ']') (by rw [hlast]; rfl)
    cases hdigit
  · rw [toIpBrackets_of_ipv4 hb, toIpPort] at h
    exact hb (h ▸ List.mem_append_right _ List.mem_cons_self)

end RemoteAddress

namespace RemoteCommunicatorConnections
open RemoteAddress

/-- What is cut off from the text of an IPv4 address is its port. -/
theorem withoutPort_ipv4 {a : RemoteAddress} (h : ':' ∉ a.ip) : withoutPort a.toIpPort = a.toIpBrackets := by
  have htake : a.toIpPort.takeWhile (· ≠ ':') = a.ip := by
    rw [toIpPort, toIpBrackets_of_ipv4 h, takeWhile_ne_append h, takeWhile_ne_cons, List.append_nil]
  unfold withoutPort
  simp only [htake, List.isEmpty_iff, a.ip_ne_nil, if_false]
  exact (toIpBrackets_of_ipv4 h).symm

/-- What is left of the text of an IPv6 address is the text of no IP. -/
theorem withoutPort_ipv6 {a : RemoteAddress} (h : ':' ∈ a.ip) (b : RemoteAddress) : withoutPort a.toIpPort ≠ b.toIpBrackets := by
  have htake : ∃ s, a.toIpPort.takeWhile (· ≠ ':') = '[' :: s := by
    rw [toIpPort, toIpBrackets_of_ipv6 h]
    exact ⟨_, rfl⟩
  obtain ⟨s, hs⟩ := htake
  have hcut : withoutPort a.toIpPort = '[' :: s := by
    unfold withoutPort
    rw [hs]
    rfl
  have hcolon : ':' ∉ '[' :: s := hs ▸ notMem_takeWhile_ne ':' a.toIpPort
  rw [hcut]
  intro heq
  by_cases hb : ':' ∈ b.ip
  · rw [toIpBrackets_of_ipv6 hb] at heq
    rw [heq] at hcolon
    exact hcolon (List.mem_append_left _ (List.mem_cons_of_mem _ hb))
  · rw [toIpBrackets_of_ipv4 hb] at heq
    exact b.ip_plain.1 (heq ▸ List.mem_cons_self)

/-! ### What the calls are for -/

/-- The connection is one to the computer. -/
def RemoteConnection.IsOf (a : RemoteAddress) (c : RemoteConnection) : Prop := c.address = a.toIpBrackets ∧ c.port = a.port

def GossipConnection.IsOf (a : RemoteAddress) (c : GossipConnection) : Prop := c.address = a.toIpBrackets ∧ c.port = a.port

instance (a : RemoteAddress) (c : RemoteConnection) : Decidable (RemoteConnection.IsOf a c) :=
  inferInstanceAs (Decidable (_ ∧ _))

instance (a : RemoteAddress) (c : GossipConnection) : Decidable (GossipConnection.IsOf a c) :=
  inferInstanceAs (Decidable (_ ∧ _))

/-- Connections to the computer get the delay, and no others. -/
def Paused (delay : Int) (a : RemoteAddress) (s t : RemoteCommunicatorConnections) : Prop :=
  t.gossipIps = s.gossipIps ∧ ∀ k, t.smallerIps.find? k = (s.smallerIps.find? k).map fun c =>
    if RemoteConnection.IsOf a c then { c with timeoutDelay := delay, enabled := true } else c

/-- What a call is for: it changes what belongs to the computer that it names and nothing else, and a smaller address that
    was added has a permanent connection. -/
def Meant (lib : Libaddr) (s : RemoteCommunicatorConnections) (e : Event) : Prop :=
  match e with
  | .add _ a => a ≠ s.myAddress → lib.lt a s.myAddress = true →
    ∃ k c, (step lib s e).smallerIps.find? k = some c ∧ RemoteConnection.IsOf a c
  | .tooBusy a => Paused remoteConnectionTooBusyTimeout a s (step lib s e)
  | .shuttingDown a => Paused remoteConnectionReconnectTimeout a s (step lib s e)
  | .gossipReceived a => (step lib s e).smallerIps = s.smallerIps ∧
    (step lib s e).gossipIps = s.gossipIps.filter fun c => ¬ GossipConnection.IsOf a c.2
  | .forget a => (step lib s e).gossipIps = s.gossipIps ∧
    (step lib s e).smallerIps = s.smallerIps.filter fun c => ¬ RemoteConnection.IsOf a c.2
  | .setConnected _ _ => True

/-- When a call does what it is for. A pause changes nothing: there is nothing to pause, or the pause is on. Nor does the
    end of gossiping. An IPv4 address is forgotten whatever its port, and an IPv6 address never. And an address that is known
    has its connection, which an address that was forgotten has not. -/
def Reaches (lib : Libaddr) (s : RemoteCommunicatorConnections) : Event → Prop
  | .add _ a => a ≠ s.myAddress → lib.lt a s.myAddress = true → s.allIps.contains a.toIpBrackets = true →
    ∃ c, s.smallerIps.find? a.toIpBrackets = some c ∧ c.port = a.port
  | .tooBusy a => ∀ c, s.smallerIps.find? a.toIpBrackets = some c → c.port = a.port →
    c.timeoutDelay = remoteConnectionTooBusyTimeout ∧ c.enabled = true
  | .shuttingDown a => ∀ c, s.smallerIps.find? a.toIpBrackets = some c → c.port = a.port →
    c.timeoutDelay = remoteConnectionReconnectTimeout ∧ c.enabled = true
  | .gossipReceived a => ∀ c, s.gossipIps.find? a.toIpBrackets = some c → c.port ≠ a.port
  | .forget a => ∀ c, s.smallerIps.find? a.toIpBrackets = some c → (c.port = a.port ↔ a.isIpv6 = false)
  | .setConnected _ _ => True

/-! ### The keys of the maps -/

/-- Every connection is kept under the text of its IP. -/
structure Keyed (s : RemoteCommunicatorConnections) : Prop where
  smaller : ∀ k c, s.smallerIps.find? k = some c → c.address = k ∧ ∃ a : RemoteAddress, k = a.toIpBrackets
  gossip : ∀ k c, s.gossipIps.find? k = some c → c.address = k ∧ ∃ a : RemoteAddress, k = a.toIpBrackets

variable {lib : Libaddr} {s t : RemoteCommunicatorConnections} {a : RemoteAddress} {k : QString} {e : Event}

theorem Keyed.insert (h : Keyed s) {c : RemoteConnection} (hc : c.address = k ∧ ∃ a : RemoteAddress, k = a.toIpBrackets)
    (hsmaller : t.smallerIps = s.smallerIps.insert k c) (hgossip : t.gossipIps = s.gossipIps) : Keyed t := by
  refine ⟨fun k' c' hfind => ?_, fun k' c' hfind => h.gossip k' c' (hgossip ▸ hfind)⟩
  rw [hsmaller, SortedMap.find?_insert] at hfind
  split at hfind
  · rename_i hk
    cases hfind
    rw [hk]
    exact hc
  · exact h.smaller k' c' hfind

theorem Keyed.pause (h : Keyed s) (delay : Int) (addr : QString) : Keyed (pause delay addr s) := by
  unfold RemoteCommunicatorConnections.pause
  split
  · rename_i c hc
    refine h.insert ?_ rfl rfl
    exact h.smaller addr c hc
  · exact h

theorem Keyed.step (h : Keyed s) (e : Event) : Keyed (step lib s e) := by
  cases e with
  | add now a =>
    have hstep : RemoteCommunicatorConnections.step lib s (.add now a) =
        (addRemoteCommunicator lib now a.toIpPort s).getD s := rfl
    rw [hstep, addRemoteCommunicator]
    cases lib.stringToAddr a.toIpPort with
    | none => exact h
    | some b =>
      simp only
      split
      · exact h
      · split
        · split
          · split
            · rename_i c hc
              split
              · refine h.insert ?_ rfl rfl
                exact h.smaller _ c hc
              · exact h
            · exact h
          · exact h
        · split
          · refine h.insert ?_ rfl rfl
            exact ⟨rfl, b, rfl⟩
          · refine ⟨h.smaller, fun k c hfind => ?_⟩
            simp only [Option.getD_some, SortedMap.find?_insert] at hfind
            split at hfind
            · rename_i hk
              cases hfind
              exact ⟨hk.symm, b, hk⟩
            · exact h.gossip k c hfind
  | tooBusy a => exact h.pause _ _
  | shuttingDown a => exact h.pause _ _
  | gossipReceived a =>
    refine ⟨h.smaller, fun k c hfind => h.gossip k c ?_⟩
    simp only [RemoteCommunicatorConnections.step, gossipReceived, SortedMap.find?_erase] at hfind
    split at hfind
    · cases hfind
    · exact hfind
  | forget a =>
    refine ⟨fun k c hfind => h.smaller k c ?_, h.gossip⟩
    simp only [RemoteCommunicatorConnections.step, forgetRemoteConnection, SortedMap.find?_erase] at hfind
    split at hfind
    · cases hfind
    · exact hfind
  | setConnected addr connected =>
    unfold RemoteCommunicatorConnections.step
    cases hc : s.smallerIps.find? addr with
    | none =>
      simp only [hc]
      exact h
    | some c =>
      simp only [hc]
      refine h.insert ?_ rfl rfl
      exact h.smaller addr c hc

/-! ### What the calls do -/

theorem Keyed.find?_toIpPort (h : Keyed s) (a : RemoteAddress) :
    s.smallerIps.find? a.toIpPort = none ∧ s.gossipIps.find? a.toIpPort = none := by
  refine ⟨Option.eq_none_iff_forall_ne_some.mpr fun c hc => ?_, Option.eq_none_iff_forall_ne_some.mpr fun c hc => ?_⟩
  · obtain ⟨-, b, hb⟩ := h.smaller _ c hc
    exact toIpPort_ne a b hb
  · obtain ⟨-, b, hb⟩ := h.gossip _ c hc
    exact toIpPort_ne a b hb

/-- A call of `too_busy()` or `shutting_down()` finds no connection. -/
theorem Keyed.pause_eq (h : Keyed s) (delay : Int) (a : RemoteAddress) : RemoteCommunicatorConnections.pause delay a.toIpPort s = s := by
  unfold RemoteCommunicatorConnections.pause
  rw [(h.find?_toIpPort a).1]

theorem paused_iff (h : Keyed s) (delay : Int) (a : RemoteAddress) : Paused delay a s s ↔
    ∀ c, s.smallerIps.find? a.toIpBrackets = some c → c.port = a.port → c.timeoutDelay = delay ∧ c.enabled = true := by
  constructor
  · rintro ⟨-, hall⟩ c hc hport
    have hsame := hall a.toIpBrackets
    have hof : RemoteConnection.IsOf a c := ⟨(h.smaller _ c hc).1, hport⟩
    rw [hc, Option.map_some, if_pos hof, Option.some.injEq] at hsame
    rw [hsame]
    exact ⟨rfl, rfl⟩
  · intro hall
    refine ⟨rfl, fun k => ?_⟩
    cases hk : s.smallerIps.find? k with
    | none => rfl
    | some c =>
      rw [Option.map_some]
      split
      · rename_i hof
        have hkey : k = a.toIpBrackets := (h.smaller k c hk).1.symm.trans hof.1
        obtain ⟨hdelay, henabled⟩ := hall c (hkey ▸ hk) hof.2
        rw [← hdelay, ← henabled]
      · rfl

theorem isOf_iff {c : RemoteConnection} (h : Keyed s) (hc : s.smallerIps.find? a.toIpBrackets = some c) :
    RemoteConnection.IsOf a c ↔ c.port = a.port := and_iff_right (h.smaller _ c hc).1

/-- An address that is read back is added under its own text. -/
theorem step_add (now : Int) (hread : lib.stringToAddr a.toIpPort = some a) (hne : a ≠ s.myAddress)
    (hlt : lib.lt a s.myAddress = true) (hnew : s.allIps.contains a.toIpBrackets = false) :
    ∃ c, (step lib s (.add now a)).smallerIps.find? a.toIpBrackets = some c ∧ RemoteConnection.IsOf a c := by
  have hstep : step lib s (.add now a) = (addRemoteCommunicator lib now a.toIpPort s).getD s := rfl
  rw [hstep, addRemoteCommunicator, hread]
  simp only [hne, hnew, hlt, if_true, if_false, Bool.false_eq_true, Option.getD_some, SortedMap.find?_insert_self]
  exact ⟨_, rfl, rfl, rfl⟩

/-- The connection of an address that is known stays one to the same computer. -/
theorem step_add_known (now : Int) (hread : lib.stringToAddr a.toIpPort = some a)
    (hknown : s.allIps.contains a.toIpBrackets = true) (k : QString) :
    ((step lib s (.add now a)).smallerIps.find? k).map (fun c => (c.address, c.port)) =
      (s.smallerIps.find? k).map fun c => (c.address, c.port) := by
  have hstep : step lib s (.add now a) = (addRemoteCommunicator lib now a.toIpPort s).getD s := rfl
  rw [hstep, addRemoteCommunicator, hread]
  simp only [hknown, if_true]
  split
  · rfl
  · split
    · split
      · rename_i c hc
        split
        · by_cases hk : k = a.toIpBrackets
          · simp [hk, hc]
          · simp [SortedMap.find?_insert_of_ne hk]
        · rfl
      · rfl
    · rfl

theorem meant_iff_reaches (hreads : lib.Reads) (h : Keyed s) (e : Event) : Meant lib s e ↔ Reaches lib s e := by
  cases e with
  | add now a =>
    unfold Meant Reaches
    refine forall₂_congr fun hne hlt => ?_
    cases hknown : s.allIps.contains a.toIpBrackets with
    | false =>
      refine iff_of_true ?_ fun hfalse => by cases hfalse
      exact ⟨_, step_add now (hreads a) hne hlt hknown⟩
    | true =>
      have hsame := step_add_known now (hreads a) hknown
      constructor
      · rintro ⟨k, c, hc, hof⟩ -
        obtain ⟨c₀, hc₀, hpair⟩ := Option.map_eq_some_iff.mp ((hsame k).symm.trans (by rw [hc]; rfl))
        obtain ⟨haddress, hport⟩ := Prod.mk.inj hpair
        have hk : k = a.toIpBrackets := (h.smaller k c₀ hc₀).1.symm.trans (haddress.trans hof.1)
        exact ⟨c₀, hk ▸ hc₀, hport.trans hof.2⟩
      · intro hall
        obtain ⟨c, hc, hport⟩ := hall rfl
        obtain ⟨c', hc', hpair⟩ := Option.map_eq_some_iff.mp ((hsame a.toIpBrackets).trans (by rw [hc]; rfl))
        obtain ⟨haddress, hport'⟩ := Prod.mk.inj hpair
        exact ⟨_, c', hc', haddress.trans (h.smaller _ c hc).1, hport'.trans hport⟩
  | tooBusy a =>
    have hstep : step lib s (.tooBusy a) = s := h.pause_eq _ a
    unfold Meant Reaches
    rw [hstep]
    exact paused_iff h _ a
  | shuttingDown a =>
    have hstep : step lib s (.shuttingDown a) = s := h.pause_eq _ a
    unfold Meant Reaches
    rw [hstep]
    exact paused_iff h _ a
  | gossipReceived a =>
    have hstep : (step lib s (.gossipReceived a)).gossipIps = s.gossipIps :=
      SortedMap.erase_of_find?_eq_none (h.find?_toIpPort a).2
    unfold Meant Reaches
    rw [hstep]
    refine (and_iff_right rfl).trans ((SortedMap.eq_filter_iff _ a.toIpBrackets (GossipConnection.IsOf a)
      fun k c hc hof => (h.gossip k c hc).1.symm.trans hof.1).trans ?_)
    exact forall₂_congr fun c hc => not_congr (and_iff_right (h.gossip _ c hc).1)
  | forget a =>
    have hkey : ∀ k c, s.smallerIps.find? k = some c → RemoteConnection.IsOf a c → k = a.toIpBrackets := fun k c hc hof =>
      (h.smaller k c hc).1.symm.trans hof.1
    have hstep : (step lib s (.forget a)).smallerIps = s.smallerIps.erase (withoutPort a.toIpPort) := rfl
    unfold Meant Reaches
    rw [hstep]
    refine (and_iff_right rfl).trans ?_
    by_cases hipv6 : ':' ∈ a.ip
    · have hnone : s.smallerIps.find? (withoutPort a.toIpPort) = none := Option.eq_none_iff_forall_ne_some.mpr fun c hc => by
        obtain ⟨-, b, hb⟩ := h.smaller _ c hc
        exact withoutPort_ipv6 hipv6 b hb
      rw [SortedMap.erase_of_find?_eq_none hnone, SortedMap.eq_filter_iff _ _ _ hkey]
      refine forall₂_congr fun c hc => ?_
      rw [isOf_iff h hc, isIpv6_iff.mpr hipv6]
      exact ⟨fun hne => iff_of_false hne (by decide), fun hiff hport => by cases hiff.mp hport⟩
    · have hipv4 : a.isIpv6 = false := Bool.eq_false_iff.mpr (isIpv6_iff.not.mpr hipv6)
      rw [withoutPort_ipv4 hipv6, SortedMap.erase_eq_filter_iff _ _ _ hkey]
      refine forall₂_congr fun c hc => ?_
      rw [isOf_iff h hc]
      exact (iff_true_right hipv4).symm
  | setConnected addr connected => exact Iff.rfl

/-- What follows the last colon is the port, and what stands in front of it the IP, within brackets when it is an IPv6. -/
def readIpPort (s : QString) : Option RemoteAddress :=
  let ip := (s.rdropWhile (· ≠ ':')).dropLast
  let ip := if ip.head? = some '[' then ip.tail.dropLast else ip
  if h : ip ≠ [] ∧ '[' ∉ ip ∧ ']' ∉ ip then
    some { ip, port := Nat.ofDigitChars 10 (s.rtakeWhile (· ≠ ':')) 0, ip_ne_nil := h.1, ip_plain := h.2 }
  else none

/-- Addresses in the order of their texts, which is the right one for the two below. -/
def byText : Libaddr where
  stringToAddr := readIpPort
  lt a b := a.ip < b.ip

theorem byText_reads : byText.Reads := by
  intro a
  have hnumber : number a.port = Nat.toDigits 10 a.port := if_neg (by omega)
  have hcolon : ':' ∉ (number a.port).reverse := fun hmem => by
    rw [List.mem_reverse, hnumber] at hmem
    have hdigit := Nat.isDigit_of_mem_toDigits (by decide) (by decide) hmem
    cases hdigit
  have hreverse : a.toIpPort.reverse = (number a.port).reverse ++ ':' :: a.toIpBrackets.reverse := by
    rw [RemoteAddress.toIpPort]
    simp
  have hport : a.toIpPort.rtakeWhile (· ≠ ':') = number a.port := by
    rw [List.rtakeWhile, hreverse, takeWhile_ne_append hcolon, takeWhile_ne_cons, List.append_nil, List.reverse_reverse]
  have hip : (a.toIpPort.rdropWhile (· ≠ ':')).dropLast = a.toIpBrackets := by
    rw [List.rdropWhile, hreverse, dropWhile_ne_append hcolon, dropWhile_ne_cons, List.reverse_cons, List.reverse_reverse,
      List.dropLast_concat]
  have hbrackets : (if a.toIpBrackets.head? = some '[' then a.toIpBrackets.tail.dropLast else a.toIpBrackets) = a.ip := by
    by_cases hipv6 : ':' ∈ a.ip
    · rw [toIpBrackets_of_ipv6 hipv6]
      exact List.dropLast_concat
    · rw [toIpBrackets_of_ipv4 hipv6, if_neg fun hhead : a.ip.head? = some '[' => a.ip_plain.1 (List.mem_of_mem_head? hhead)]
  have hread : byText.stringToAddr a.toIpPort = readIpPort a.toIpPort := rfl
  rw [hread, readIpPort]
  simp only [hip, hport, hbrackets, hnumber, Nat.ofDigitChars_ten_toDigits, a.ip_ne_nil, a.ip_plain, ne_eq, not_false_eq_true,
    and_self, dif_pos]

def here : RemoteAddress := { ip := "10.0.0.9".toList, port := 4040 }
def there : RemoteAddress := { ip := "10.0.0.3".toList, port := 4040 }

end RemoteCommunicatorConnections
end Snapwebsites
