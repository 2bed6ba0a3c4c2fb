import Mathlib.Algebra.Order.Ring.Nat
import Mathlib.Algebra.GroupWithZero.Nat
import Snapwebsites.Snapdatabase.Table

/-! # Places in the indirect index

A block of the indirect index has a place `(L, b)`: it is at the level `L`, where the `INDR` blocks of a full index
are at level 0, and it is responsible for the `c ^ (L + 1)` rows behind the row `b`, where `c` is the number of
references of a block.

`Placed rows n t R place`: the index of `t` holds the references `rows` of the rows from 1 to `n`, its root is at
level `R`, and `place` gives the place of each of its blocks. This file says how the elementary updates of
`row_insert()` keep it: a reference is stored (`store`), a new block gets the next row (`attach`), a full `INDR`
block goes down by a level (`lower`), and the index gets a new root (`grow`). -/

namespace Snapwebsites.Snapdatabase

/-! ### Multiples -/

/-- Two multiples of a number are that far apart. -/
theorem add_le_of_multiples {D b b' : Nat} (hb : D ∣ b) (hb' : D ∣ b') (h : b < b') : b + D ≤ b' := by
  have := Nat.le_of_dvd (by omega) (Nat.dvd_sub hb' hb)
  omega

theorem eq_of_multiples {D b b' x : Nat} (hb : D ∣ b) (hb' : D ∣ b') (h : b ≤ x) (h' : b' ≤ x) (hx : x < b + D)
    (hx' : x < b' + D) : b = b' := by
  obtain hlt | heq | hlt := Nat.lt_trichotomy b b'
  · have := add_le_of_multiples hb hb' hlt
    omega
  · exact heq
  · have := add_le_of_multiples hb' hb hlt
    omega

theorem pow_dvd_of_le {c L L' b : Nat} (h : c ^ L ∣ b) (hL : L' ≤ L) : c ^ L' ∣ b :=
  (Nat.pow_dvd_pow c hL).trans h

/-! ### The invariant -/

/-- What a block at the place `(L, b)` holds, of the rows up to `n`. -/
def Holds (c : Nat) (rows : Nat → Reference) (n : Nat) (place : Reference → Option (Nat × Nat)) (L b : Nat) : Block → Prop
  | .indirectIndex refs => (L = 0 ∨ n ≤ b + c) ∧ ∀ i < c, b + i < n → refs i = rows (b + i + 1)
  | .topIndirectIndex level refs => level = L ∧ 1 ≤ L ∧ ∀ j < c,
      (b + j * c ^ L < n → place (refs j) = some (L - 1, b + j * c ^ L)) ∧ (n ≤ b + j * c ^ L → refs j = nullFileAddr)
  | _ => False

structure Placed (rows : Nat → Reference) (n : Nat) (t : Table) (R : Nat) (place : Reference → Option (Nat × Nat)) :
    Prop where
  two_le : 2 ≤ indirectMaxCount t.pageSize
  root : place t.indirectIndex = some (R, 0)
  root_level : ∀ refs, t.block t.indirectIndex = some (.indirectIndex refs) → R = 0
  le_size : n ≤ indirectMaxCount t.pageSize ^ (R + 1)
  size_le : R = 0 ∨ indirectMaxCount t.pageSize ^ R ≤ n
  lt_used : R < t.used
  address : ∀ a p, place a = some p → missingFileAddr < a ∧ a < t.pageSize * t.used
  bounds : ∀ a L b, place a = some (L, b) → L ≤ R ∧ b < n ∧ indirectMaxCount t.pageSize ^ (L + 1) ∣ b
  holds : ∀ a L b, place a = some (L, b) →
    ∃ blk, t.block a = some blk ∧ Holds (indirectMaxCount t.pageSize) rows n place L b blk
  injective : ∀ a a' p, place a = some p → place a' = some p → a = a'
  /-- No block is at a place below an `INDR` block. -/
  alone : ∀ a L b refs a' L' b', place a = some (L, b) → t.block a = some (.indirectIndex refs) →
    place a' = some (L', b') → L' < L → b' < b ∨ b + indirectMaxCount t.pageSize ^ (L + 1) ≤ b'

theorem topIndirectMaxCount_eq (pageSize : Nat) : topIndirectMaxCount pageSize = indirectMaxCount pageSize := by
  rw [topIndirectMaxCount, indirectMaxCount, max_comm]

namespace Placed
variable {rows : Nat → Reference} {n : Nat} {t t' : Table} {R : Nat} {place : Reference → Option (Nat × Nat)}
  {x p a : Reference} {L b : Nat} {refs : Nat → Reference}

theorem pos (h : Placed rows n t R place) : 0 < indirectMaxCount t.pageSize := lt_of_lt_of_le Nat.zero_lt_two h.two_le

theorem pageSize_pos (h : Placed rows n t R place) : 0 < t.pageSize := by
  refine Nat.pos_of_ne_zero fun h0 => ?_
  have := h.two_le
  rw [h0] at this
  exact absurd this (by decide)

theorem indirect (h : Placed rows n t R place) (hx : place x = some (L, b)) (hblock : t.block x = some (.indirectIndex refs)) :
    (L = 0 ∨ n ≤ b + indirectMaxCount t.pageSize) ∧
      ∀ i < indirectMaxCount t.pageSize, b + i < n → refs i = rows (b + i + 1) := by
  obtain ⟨blk, hblk, hholds⟩ := h.holds x L b hx
  rw [hblock] at hblk
  cases hblk
  exact hholds

theorem top {level : Nat} (h : Placed rows n t R place) (hp : place p = some (L, b))
    (hblock : t.block p = some (.topIndirectIndex level refs)) :
    level = L ∧ 1 ≤ L ∧ ∀ j < indirectMaxCount t.pageSize,
      (b + j * indirectMaxCount t.pageSize ^ L < n → place (refs j) = some (L - 1, b + j * indirectMaxCount t.pageSize ^ L)) ∧
        (n ≤ b + j * indirectMaxCount t.pageSize ^ L → refs j = nullFileAddr) := by
  obtain ⟨blk, hblk, hholds⟩ := h.holds p L b hp
  rw [hblock] at hblk
  cases hblk
  exact hholds

/-- A placed block is an `INDR` block or a `TIND` block. -/
theorem cases (h : Placed rows n t R place) (ha : place a = some (L, b)) :
    (∃ refs, t.block a = some (.indirectIndex refs)) ∨ ∃ refs, t.block a = some (.topIndirectIndex L refs) := by
  obtain ⟨blk, hblk, hholds⟩ := h.holds a L b ha
  cases blk with
  | indirectIndex refs => exact .inl ⟨refs, hblk⟩
  | topIndirectIndex level refs =>
    obtain ⟨rfl, -⟩ := hholds
    exact .inr ⟨refs, hblk⟩
  | primaryIndex | topIndex | entryIndex => exact hholds.elim

/-- The rows of a place are among those of the root. -/
theorem add_le (h : Placed rows n t R place) (ha : place a = some (L, b)) :
    b + indirectMaxCount t.pageSize ^ (L + 1) ≤ indirectMaxCount t.pageSize ^ (R + 1) := by
  obtain ⟨hL, hb, hdvd⟩ := h.bounds a L b ha
  exact add_le_of_multiples hdvd (Nat.pow_dvd_pow _ (by omega)) (lt_of_lt_of_le hb h.le_size)

/-- An `INDR` block that is not the only one of its rows has at most one block of its rows at a level. -/
theorem dvd_count (h : Placed rows n t R place) (ha : place a = some (L, b)) : indirectMaxCount t.pageSize ∣ b := by
  have := pow_dvd_of_le (h.bounds a L b ha).2.2 (Nat.le_add_left 1 L)
  rwa [Nat.pow_one] at this

/-- A change to other blocks keeps the index. -/
theorem frame (h : Placed rows n t R place) (hpage : t'.pageSize = t.pageSize) (hroot : t'.indirectIndex = t.indirectIndex)
    (hused : t.used ≤ t'.used) (hblock : ∀ a p, place a = some p → t'.block a = t.block a) :
    Placed rows n t' R place where
  two_le := hpage ▸ h.two_le
  root := hroot ▸ h.root
  root_level refs hrefs := by
    rw [hroot, hblock _ _ h.root] at hrefs
    exact h.root_level refs hrefs
  le_size := hpage ▸ h.le_size
  size_le := hpage ▸ h.size_le
  lt_used := lt_of_lt_of_le h.lt_used hused
  address a p ha := by
    obtain ⟨h1, h2⟩ := h.address a p ha
    exact ⟨h1, lt_of_lt_of_le h2 (hpage ▸ Nat.mul_le_mul_left _ hused)⟩
  bounds := hpage ▸ h.bounds
  holds a L b ha := by
    rw [hblock a _ ha, hpage]
    exact h.holds a L b ha
  injective := h.injective
  alone a L b refs a' L' b' ha hrefs ha' := by
    rw [hblock a _ ha] at hrefs
    rw [hpage]
    exact h.alone a L b refs a' L' b' ha hrefs ha'

/-! ### The updates -/

/-- Two `INDR` blocks do not start at the same row. -/
theorem indirect_unique (h : Placed rows n t R place) (hx : place x = some (L, b))
    (hxb : t.block x = some (.indirectIndex refs)) {L' : Nat} {refs' : Nat → Reference} (ha : place a = some (L', b))
    (hab : t.block a = some (.indirectIndex refs')) : a = x := by
  have hpos : ∀ l, 0 < indirectMaxCount t.pageSize ^ l := fun l => Nat.pow_pos h.pos
  obtain hlt | rfl | hlt := Nat.lt_trichotomy L L'
  · have := h.alone a L' b refs' x L b ha hab hx hlt
    have := hpos (L' + 1)
    omega
  · exact h.injective a x _ ha hx
  · have := h.alone x L b refs a L' b hx hxb ha hlt
    have := hpos (L + 1)
    omega

/-- An `INDR` block that has started, and has room, gets the reference of the next row. -/
theorem store (h : Placed rows n t R place) (hx : place x = some (L, b)) (hxb : t.block x = some (.indirectIndex refs))
    (hroom : n < b + indirectMaxCount t.pageSize) (hpage : t'.pageSize = t.pageSize)
    (hroot : t'.indirectIndex = t.indirectIndex) (hused : t.used ≤ t'.used)
    (hnew : t'.block x = some (.indirectIndex (Function.update refs (n - b) (rows (n + 1)))))
    (hblock : ∀ a, a ≠ x → t'.block a = t.block a) : Placed rows (n + 1) t' R place := by
  obtain ⟨hL, hb, hdvd⟩ := h.bounds x L b hx
  have hbc := h.dvd_count hx
  have hsize := h.add_le hx
  have hle : indirectMaxCount t.pageSize ≤ indirectMaxCount t.pageSize ^ (L + 1) := Nat.le_self_pow (by omega) _
  -- the next row is not the first one of a block
  have hstart : ∀ d, indirectMaxCount t.pageSize ∣ d → d ≠ n := by
    intro d hd hdn
    have := add_le_of_multiples hbc hd (by omega)
    omega
  have htop : ∀ {a L' b' refs'}, place a = some (L', b') → t.block a = some (.topIndirectIndex L' refs') →
      ∀ j, b' + j * indirectMaxCount t.pageSize ^ L' ≠ n := by
    intro a L' b' refs' ha hab j
    obtain ⟨-, hL', -⟩ := h.top ha hab
    refine hstart _ (Nat.dvd_add (h.dvd_count ha) (Dvd.dvd.mul_left ?_ j))
    exact dvd_pow_self _ (by omega)
  constructor
  · exact hpage ▸ h.two_le
  · exact hroot ▸ h.root
  · intro refs' hrefs'
    rw [hroot] at hrefs'
    by_cases hrx : t.indirectIndex = x
    · exact h.root_level refs (hrx ▸ hxb)
    · rw [hblock _ hrx] at hrefs'
      exact h.root_level refs' hrefs'
  · rw [hpage]
    omega
  · rw [hpage]
    have := h.size_le
    omega
  · exact lt_of_lt_of_le h.lt_used hused
  · intro a p ha
    obtain ⟨h1, h2⟩ := h.address a p ha
    exact ⟨h1, lt_of_lt_of_le h2 (hpage ▸ Nat.mul_le_mul_left _ hused)⟩
  · intro a L' b' ha
    obtain ⟨h1, h2, h3⟩ := h.bounds a L' b' ha
    exact ⟨h1, Nat.lt_succ_of_lt h2, hpage ▸ h3⟩
  · intro a L' b' ha
    rw [hpage]
    by_cases hax : a = x
    · subst hax
      obtain ⟨rfl, rfl⟩ : L' = L ∧ b' = b := by
        rw [hx] at ha
        cases ha
        exact ⟨rfl, rfl⟩
      obtain ⟨-, hrefs⟩ := h.indirect hx hxb
      refine ⟨_, hnew, .inr (by omega), ?_⟩
      intro i hi hin
      by_cases hin' : i = n - b'
      · subst hin'
        rw [Function.update_self]
        congr 1
        omega
      · rw [Function.update_of_ne hin']
        exact hrefs i hi (by omega)
    · obtain ⟨refs', hab⟩ | ⟨refs', hab⟩ := h.cases ha
      · obtain ⟨hfull, hrefs⟩ := h.indirect ha hab
        refine ⟨_, (hblock a hax).trans hab, ?_, ?_⟩
        · obtain h0 | hfull := hfull
          · exact .inl h0
          · have := hstart _ (Nat.dvd_add (h.dvd_count ha) (dvd_refl (indirectMaxCount t.pageSize)))
            exact .inr (by omega)
        · intro i hi hin
          refine hrefs i hi ?_
          by_contra hin'
          have hbb : b' = b := eq_of_multiples (x := n) (h.dvd_count ha) hbc (by omega) (by omega) (by omega) (by omega)
          subst hbb
          exact hax (h.indirect_unique hx hxb ha hab)
      · obtain ⟨hlevel, hL', hrefs⟩ := h.top ha hab
        refine ⟨_, (hblock a hax).trans hab, hlevel, hL', ?_⟩
        intro j hj
        have hne := htop ha hab j
        obtain ⟨h1, h2⟩ := hrefs j hj
        exact ⟨fun hlt => h1 (by omega), fun hle => h2 (by omega)⟩
  · exact h.injective
  · intro a L₁ b₁ refs₁ a' L₂ b₂ ha hab ha' hlt
    rw [hpage]
    by_cases hax : a = x
    · subst hax
      exact h.alone a L₁ b₁ refs a' L₂ b₂ ha hxb ha' hlt
    · rw [hblock a hax] at hab
      exact h.alone a L₁ b₁ refs₁ a' L₂ b₂ ha hab ha' hlt

/-- A block behind those in use has no place yet. -/
theorem fresh (h : Placed rows n t R place) {y : Reference} (hy : t.pageSize * t.used ≤ y) :
    missingFileAddr < y ∧ place y = none := by
  refine ⟨?_, ?_⟩
  · obtain ⟨h1, h2⟩ := h.address _ _ h.root
    exact h1.trans (lt_of_lt_of_le h2 hy)
  · by_contra hne
    obtain ⟨p, hp⟩ := Option.ne_none_iff_exists'.mp hne
    exact absurd (h.address _ _ hp).2 (not_lt.mpr hy)

/-- The `TIND` block that the next row starts a new part of is the only one. -/
theorem top_unique (h : Placed rows n t R place) (hp : place p = some (L, b)) (hL : 1 ≤ L) {q : Nat}
    (hq : q < indirectMaxCount t.pageSize) (hn : b + q * indirectMaxCount t.pageSize ^ L = n) {L' b' j : Nat}
    (ha : place a = some (L', b')) (hj : j < indirectMaxCount t.pageSize)
    (hjn : b' + j * indirectMaxCount t.pageSize ^ L' = n) : a = p := by
  obtain ⟨-, hb, hdvd⟩ := h.bounds p L b hp
  obtain ⟨-, hb', hdvd'⟩ := h.bounds a L' b' ha
  -- a place that the next row lies strictly inside does not start a new part at a higher level
  have hinside : ∀ {l k d e : Nat}, e < n → indirectMaxCount t.pageSize ^ (l + 1) ∣ e →
      d < indirectMaxCount t.pageSize → e + d * indirectMaxCount t.pageSize ^ l = n →
      indirectMaxCount t.pageSize ^ k ∣ n → k ≤ l := by
    intro l k d e he hle hd hen hk
    by_contra hlt
    have hk' := pow_dvd_of_le hk (show l + 1 ≤ k by omega)
    have hfar := add_le_of_multiples hle hk' he
    have := Nat.mul_lt_mul_of_pos_right hd (Nat.pow_pos (n := l) h.pos)
    rw [Nat.pow_succ'] at hfar
    omega
  have hpn : indirectMaxCount t.pageSize ^ L ∣ n := by
    rw [← hn]
    exact Nat.dvd_add (pow_dvd_of_le hdvd (Nat.le_succ L)) (Nat.dvd_mul_left _ _)
  have han : indirectMaxCount t.pageSize ^ L' ∣ n := by
    rw [← hjn]
    exact Nat.dvd_add (pow_dvd_of_le hdvd' (Nat.le_succ L')) (Nat.dvd_mul_left _ _)
  have hLL : L' = L := le_antisymm (hinside hb hdvd hq hn han) (hinside hb' hdvd' hj hjn hpn)
  subst hLL
  have hqlt := Nat.mul_lt_mul_of_pos_right hq (Nat.pow_pos (n := L') h.pos)
  have hjlt := Nat.mul_lt_mul_of_pos_right hj (Nat.pow_pos (n := L') h.pos)
  have hbb : b' = b := by
    refine eq_of_multiples (x := n) hdvd' hdvd hb'.le hb.le ?_ ?_
    · rw [Nat.pow_succ']
      omega
    · rw [Nat.pow_succ']
      omega
  subst hbb
  exact h.injective a p _ ha hp

/-- Where the next row starts a new part, no `INDR` block waits for it. -/
theorem not_full (h : Placed rows n t R place) (hp : place p = some (L, b)) (hpb : t.block p = some (.topIndirectIndex L refs))
    (hL : 1 ≤ L) {q : Nat} (hq : q < indirectMaxCount t.pageSize) (hn : b + q * indirectMaxCount t.pageSize ^ L = n)
    {L' b' : Nat} {refs' : Nat → Reference} (ha : place a = some (L', b'))
    (hab : t.block a = some (.indirectIndex refs')) (hL' : L ≤ L') : b' + indirectMaxCount t.pageSize ^ (L' + 1) ≤ n := by
  obtain ⟨-, hb, hdvd⟩ := h.bounds p L b hp
  obtain ⟨-, hb', hdvd'⟩ := h.bounds a L' b' ha
  by_contra hin
  have hqlt := Nat.mul_lt_mul_of_pos_right hq (Nat.pow_pos (n := L) h.pos)
  -- the block covers the row before, as the `TIND` block does
  have hcover : b' ≤ b := by
    by_contra hlt
    have := add_le_of_multiples hdvd (pow_dvd_of_le hdvd' (by omega)) (not_le.mp hlt)
    rw [Nat.pow_succ'] at this
    omega
  by_cases heq : L' = L
  · subst heq
    have hbb : b' = b := by
      refine eq_of_multiples (x := b) hdvd' hdvd hcover le_rfl (by omega) ?_
      exact Nat.lt_add_of_pos_right (Nat.pow_pos h.pos)
    subst hbb
    have hap := h.injective a p _ ha hp
    subst hap
    rw [hpb] at hab
    cases hab
  · have := h.alone a L' b' refs' p L b ha hab hp (by omega)
    omega

/-- A new `INDR` block gets the next row, and the slot of the `TIND` block that the row starts. -/
theorem attach (h : Placed rows n t R place) (hp : place p = some (L, b))
    (hpb : t.block p = some (.topIndirectIndex L refs)) {q : Nat} (hq : q < indirectMaxCount t.pageSize)
    (hn : b + q * indirectMaxCount t.pageSize ^ L = n) {y : Reference} {refs' : Nat → Reference}
    (hy : t.pageSize * t.used ≤ y) (hpage : t'.pageSize = t.pageSize) (hroot : t'.indirectIndex = t.indirectIndex)
    (hused : t.used ≤ t'.used) (hy' : y < t'.pageSize * t'.used)
    (hnewp : t'.block p = some (.topIndirectIndex L (Function.update refs q y)))
    (hnewy : t'.block y = some (.indirectIndex refs')) (hrow : refs' 0 = rows (n + 1))
    (hblock : ∀ a, a ≠ p → a ≠ y → t'.block a = t.block a) :
    Placed rows (n + 1) t' R (Function.update place y (some (L - 1, n))) := by
  obtain ⟨hLR, hb, hdvd⟩ := h.bounds p L b hp
  obtain ⟨-, hL, hrefs⟩ := h.top hp hpb
  obtain ⟨hygt, hyplace⟩ := h.fresh hy
  have hqlt := Nat.mul_lt_mul_of_pos_right hq (Nat.pow_pos (n := L) h.pos)
  have hdvdn : indirectMaxCount t.pageSize ^ L ∣ n := by
    rw [← hn]
    exact Nat.dvd_add (pow_dvd_of_le hdvd (Nat.le_succ L)) (Nat.dvd_mul_left _ _)
  have hcn : indirectMaxCount t.pageSize ∣ n := by
    have := pow_dvd_of_le hdvdn hL
    rwa [Nat.pow_one] at this
  have hpy : ∀ {a p}, place a = some p → a ≠ y := by
    rintro a p ha rfl
    rw [hyplace] at ha
    cases ha
  have hkeep : ∀ {a p}, place a = some p → Function.update place y (some (L - 1, n)) a = some p := fun ha => by
    rw [Function.update_of_ne (hpy ha), ha]
  have hold : ∀ {a L' b'}, Function.update place y (some (L - 1, n)) a = some (L', b') → a ≠ y →
      place a = some (L', b') := fun ha hay => by rwa [Function.update_of_ne hay] at ha
  have hself : Function.update place y (some (L - 1, n)) y = some (L - 1, n) := Function.update_self ..
  constructor
  · exact hpage ▸ h.two_le
  · rw [hroot]
    exact hkeep h.root
  · intro refs₁ hrefs₁
    rw [hroot] at hrefs₁
    by_cases hrp : t.indirectIndex = p
    · rw [hrp, hnewp] at hrefs₁
      cases hrefs₁
    · rw [hblock _ hrp (hpy h.root)] at hrefs₁
      exact h.root_level refs₁ hrefs₁
  · have := h.add_le hp
    rw [hpage]
    rw [Nat.pow_succ'] at this
    omega
  · rw [hpage]
    have := h.size_le
    omega
  · exact lt_of_lt_of_le h.lt_used hused
  · intro a p ha
    by_cases hay : a = y
    · subst hay
      exact ⟨hygt, hy'⟩
    · obtain ⟨h1, h2⟩ := h.address a p (hold ha hay)
      exact ⟨h1, lt_of_lt_of_le h2 (hpage ▸ Nat.mul_le_mul_left _ hused)⟩
  · intro a L' b' ha
    rw [hpage]
    by_cases hay : a = y
    · subst hay
      rw [hself] at ha
      cases ha
      exact ⟨(Nat.sub_le L 1).trans hLR, Nat.lt_succ_self _, by rwa [Nat.sub_add_cancel hL]⟩
    · obtain ⟨h1, h2, h3⟩ := h.bounds a L' b' (hold ha hay)
      exact ⟨h1, Nat.lt_succ_of_lt h2, h3⟩
  · intro a L' b' ha
    rw [hpage]
    by_cases hay : a = y
    · subst hay
      rw [hself] at ha
      cases ha
      refine ⟨_, hnewy, .inr (Nat.add_le_add_left h.pos n), ?_⟩
      intro i hi hin
      have hi0 : i = 0 := by omega
      subst hi0
      exact hrow
    · have ha' := hold ha hay
      by_cases hap : a = p
      · subst hap
        obtain ⟨rfl, rfl⟩ : L' = L ∧ b' = b := by
          rw [hp] at ha'
          cases ha'
          exact ⟨rfl, rfl⟩
        refine ⟨_, hnewp, rfl, hL, ?_⟩
        intro j hj
        by_cases hjq : j = q
        · subst hjq
          rw [Function.update_self, hself, hn]
          exact ⟨fun _ => rfl, fun hle => absurd hle (by omega)⟩
        · have hne : b' + j * indirectMaxCount t.pageSize ^ L' ≠ n := by
            intro hjn
            have hmul : j * indirectMaxCount t.pageSize ^ L' = q * indirectMaxCount t.pageSize ^ L' := by omega
            exact hjq (Nat.eq_of_mul_eq_mul_right (Nat.pow_pos h.pos) hmul)
          obtain ⟨h1, h2⟩ := hrefs j hj
          rw [Function.update_of_ne hjq]
          exact ⟨fun hlt => hkeep (h1 (by omega)), fun hle => h2 (by omega)⟩
      · obtain ⟨refs₁, hab⟩ | ⟨refs₁, hab⟩ := h.cases ha'
        · obtain ⟨hfull, hrefs₁⟩ := h.indirect ha' hab
          have hb' := (h.bounds a L' b' ha').2.1
          have hcb := add_le_of_multiples (h.dvd_count ha') hcn hb'
          refine ⟨_, (hblock a hap hay).trans hab, ?_, fun i hi hin => hrefs₁ i hi (by omega)⟩
          obtain h0 | hfull := hfull
          · exact .inl h0
          · by_cases hL'0 : L' = 0
            · exact .inl hL'0
            · -- a block that is just full lies below another one
              exfalso
              have hnb : n = b' + indirectMaxCount t.pageSize := le_antisymm hfull hcb
              have hLL : L ≤ L' := by
                by_contra hlt
                have hd : indirectMaxCount t.pageSize ^ (L' + 1) ∣ n := pow_dvd_of_le hdvdn (by omega)
                have hfar := add_le_of_multiples (h.bounds a L' b' ha').2.2 hd hb'
                have : indirectMaxCount t.pageSize ^ 1 < indirectMaxCount t.pageSize ^ (L' + 1) :=
                  Nat.pow_lt_pow_right h.two_le (by omega)
                rw [Nat.pow_one] at this
                omega
              have hfar := h.not_full hp hpb hL hq hn ha' hab hLL
              have : indirectMaxCount t.pageSize ^ 1 < indirectMaxCount t.pageSize ^ (L' + 1) :=
                Nat.pow_lt_pow_right h.two_le (by omega)
              rw [Nat.pow_one] at this
              omega
        · obtain ⟨-, hL', hrefs₁⟩ := h.top ha' hab
          refine ⟨_, (hblock a hap hay).trans hab, rfl, hL', ?_⟩
          intro j hj
          have hne : b' + j * indirectMaxCount t.pageSize ^ L' ≠ n := fun hjn =>
            hap (h.top_unique hp hL hq hn ha' hj hjn)
          obtain ⟨h1, h2⟩ := hrefs₁ j hj
          exact ⟨fun hlt => hkeep (h1 (by omega)), fun hle => h2 (by omega)⟩
  · intro a a' p' ha ha'
    obtain ⟨L', b'⟩ := p'
    have hcase : ∀ {a}, a ≠ y → Function.update place y (some (L - 1, n)) a = some (L', b') → b' < n :=
      fun hay ha => (h.bounds _ L' b' (hold ha hay)).2.1
    by_cases hay : a = y
    · by_cases hay' : a' = y
      · rw [hay, hay']
      · subst hay
        rw [hself] at ha
        cases ha
        exact absurd (hcase hay' ha') (lt_irrefl n)
    · by_cases hay' : a' = y
      · subst hay'
        rw [hself] at ha'
        cases ha'
        exact absurd (hcase hay ha) (lt_irrefl n)
      · exact h.injective a a' _ (hold ha hay) (hold ha' hay')
  · intro a L₁ b₁ refs₁ a' L₂ b₂ ha hab ha' hlt
    rw [hpage]
    by_cases hay : a = y
    · subst hay
      rw [hself] at ha
      cases ha
      by_cases hay' : a' = a
      · subst hay'
        rw [hself] at ha'
        cases ha'
        exact absurd hlt (lt_irrefl _)
      · exact .inl (h.bounds a' L₂ b₂ (hold ha' hay')).2.1
    · have ha₁ := hold ha hay
      have hap : a ≠ p := by
        rintro rfl
        rw [hnewp] at hab
        cases hab
      rw [hblock a hap hay] at hab
      by_cases hay' : a' = y
      · subst hay'
        rw [hself] at ha'
        cases ha'
        exact .inr (h.not_full hp hpb hL hq hn ha₁ hab (by omega))
      · exact h.alone a L₁ b₁ refs₁ a' L₂ b₂ ha₁ hab (hold ha' hay') hlt

/-- A `TIND` block comes between a `TIND` block and the `INDR` block in its slot `q`, which goes down by a level.
    The index is the one that `t` would be with `x` in that slot. -/
theorem lower (h : Placed rows n t R place) (hx : place x = some (L, b)) (hxb : t.block x = some (.indirectIndex refs))
    (hL : 1 ≤ L) {b₀ q : Nat} {refs₀ : Nat → Reference} (hp : place p = some (L + 1, b₀))
    (hpb : t.block p = some (.topIndirectIndex (L + 1) refs₀)) (hq : q < indirectMaxCount t.pageSize)
    (hqx : refs₀ q = x) (hbq : b = b₀ + q * indirectMaxCount t.pageSize ^ (L + 1)) {refs₁ : Nat → Reference}
    (hagt : missingFileAddr < a) (haplace : place a = none) (hpage : t'.pageSize = t.pageSize)
    (hroot : t'.indirectIndex = t.indirectIndex) (hused : t.used ≤ t'.used) (ha' : a < t'.pageSize * t'.used)
    (hnewp : t'.block p = some (.topIndirectIndex (L + 1) (Function.update refs₀ q a)))
    (hnewa : t'.block a = some (.topIndirectIndex L refs₁)) (hzero : refs₁ 0 = x)
    (hnull : ∀ j, j ≠ 0 → refs₁ j = nullFileAddr) (hblock : ∀ z, z ≠ p → z ≠ a → t'.block z = t.block z) :
    Placed rows n t' R (Function.update (Function.update place x (some (L - 1, b))) a (some (L, b))) := by
  obtain ⟨hLR, hb, hdvd⟩ := h.bounds x L b hx
  obtain ⟨hLR₀, -, hdvd₀⟩ := h.bounds p (L + 1) b₀ hp
  obtain ⟨hfull, hrefs⟩ := h.indirect hx hxb
  obtain ⟨-, -, hrefs₀⟩ := h.top hp hpb
  have hfar : indirectMaxCount t.pageSize ≤ indirectMaxCount t.pageSize ^ L := Nat.le_self_pow (by omega) _
  have hza : ∀ {z p}, place z = some p → z ≠ a := by
    rintro z p hz rfl
    rw [haplace] at hz
    cases hz
  have hax : a ≠ x := (hza hx).symm
  have hpx : p ≠ x := by
    rintro rfl
    rw [hpb] at hxb
    cases hxb
  set place' := Function.update (Function.update place x (some (L - 1, b))) a (some (L, b)) with hplace'
  have hself : place' a = some (L, b) := Function.update_self ..
  have hlow : place' x = some (L - 1, b) := by
    rw [hplace', Function.update_of_ne hax.symm, Function.update_self]
  have hkeep : ∀ {z}, z ≠ x → z ≠ a → place' z = place z := fun hzx hza => by
    rw [hplace', Function.update_of_ne hza, Function.update_of_ne hzx]
  constructor
  · exact hpage ▸ h.two_le
  · rw [hroot, hkeep ?_ (hza h.root)]
    · exact h.root
    · intro hrx
      have := h.root
      rw [hrx, hx] at this
      cases this
      exact absurd hLR₀ (by omega)
  · intro refs₂ hrefs₂
    rw [hroot] at hrefs₂
    by_cases hrp : t.indirectIndex = p
    · rw [hrp, hnewp] at hrefs₂
      cases hrefs₂
    · rw [hblock _ hrp (hza h.root)] at hrefs₂
      exact h.root_level refs₂ hrefs₂
  · exact hpage ▸ h.le_size
  · exact hpage ▸ h.size_le
  · exact lt_of_lt_of_le h.lt_used hused
  · intro z p hz
    by_cases hza : z = a
    · subst hza
      exact ⟨hagt, ha'⟩
    · have hplaced : ∃ p, place z = some p := by
        by_cases hzx : z = x
        · exact ⟨_, hzx ▸ hx⟩
        · exact ⟨p, by rwa [hkeep hzx hza] at hz⟩
      obtain ⟨p, hz⟩ := hplaced
      obtain ⟨h1, h2⟩ := h.address z p hz
      exact ⟨h1, lt_of_lt_of_le h2 (hpage ▸ Nat.mul_le_mul_left _ hused)⟩
  · intro z L' b' hz
    rw [hpage]
    by_cases hza : z = a
    · subst hza
      rw [hself] at hz
      cases hz
      exact ⟨hLR, hb, hdvd⟩
    · by_cases hzx : z = x
      · subst hzx
        rw [hlow] at hz
        cases hz
        exact ⟨(Nat.sub_le L 1).trans hLR, hb, pow_dvd_of_le hdvd (by omega)⟩
      · rw [hkeep hzx hza] at hz
        exact h.bounds z L' b' hz
  · intro z L' b' hz
    rw [hpage]
    by_cases hza' : z = a
    · subst hza'
      rw [hself] at hz
      cases hz
      refine ⟨_, hnewa, rfl, hL, ?_⟩
      intro j hj
      by_cases hj0 : j = 0
      · subst hj0
        rw [hzero, Nat.zero_mul, Nat.add_zero]
        exact ⟨fun _ => hlow, fun hle => absurd hle (by omega)⟩
      · have := Nat.le_mul_of_pos_left (indirectMaxCount t.pageSize ^ L) (Nat.pos_of_ne_zero hj0)
        exact ⟨fun hlt => absurd hlt (by omega), fun _ => hnull j hj0⟩
    · by_cases hzx : z = x
      · subst hzx
        rw [hlow] at hz
        cases hz
        exact ⟨_, (hblock z hpx.symm hza').trans hxb, .inr (by omega), hrefs⟩
      · rw [hkeep hzx hza'] at hz
        by_cases hzp : z = p
        · subst hzp
          obtain ⟨rfl, rfl⟩ : L' = L + 1 ∧ b' = b₀ := by
            rw [hp] at hz
            cases hz
            exact ⟨rfl, rfl⟩
          refine ⟨_, hnewp, rfl, Nat.le_add_left 1 L, ?_⟩
          intro j hj
          by_cases hjq : j = q
          · subst hjq
            rw [Function.update_self, hself, ← hbq]
            exact ⟨fun _ => rfl, fun hle => absurd hle (by omega)⟩
          · obtain ⟨h1, h2⟩ := hrefs₀ j hj
            rw [Function.update_of_ne hjq]
            refine ⟨fun hlt => ?_, h2⟩
            have hj' := h1 hlt
            rw [hkeep ?_ (hza hj')]
            · exact hj'
            · intro hjx
              rw [hjx, hx] at hj'
              have hbj : b = b' + j * indirectMaxCount t.pageSize ^ (L + 1) := (Prod.mk.inj (Option.some.inj hj')).2
              have hmul : j * indirectMaxCount t.pageSize ^ (L + 1) = q * indirectMaxCount t.pageSize ^ (L + 1) := by omega
              exact hjq (Nat.eq_of_mul_eq_mul_right (Nat.pow_pos h.pos) hmul)
        · obtain ⟨refs₂, hzb⟩ | ⟨refs₂, hzb⟩ := h.cases hz
          · exact ⟨_, (hblock z hzp hza').trans hzb, h.indirect hz hzb⟩
          · obtain ⟨-, hL', hrefs₂⟩ := h.top hz hzb
            refine ⟨_, (hblock z hzp hza').trans hzb, rfl, hL', ?_⟩
            intro j hj
            obtain ⟨h1, h2⟩ := hrefs₂ j hj
            refine ⟨fun hlt => ?_, h2⟩
            have hj' := h1 hlt
            rw [hkeep ?_ (hza hj')]
            · exact hj'
            · -- the block is in the slot of one `TIND` block only
              intro hjx
              rw [hjx, hx] at hj'
              obtain ⟨hLj, hbj⟩ := Prod.mk.inj (Option.some.inj hj')
              obtain rfl : L' = L + 1 := by omega
              have hqlt := Nat.mul_lt_mul_of_pos_right hq (Nat.pow_pos (n := L + 1) h.pos)
              have hjlt := Nat.mul_lt_mul_of_pos_right hj (Nat.pow_pos (n := L + 1) h.pos)
              have hbb : b' = b₀ := by
                refine eq_of_multiples (x := b) (h.bounds z _ b' hz).2.2 hdvd₀ (by omega) (by omega) ?_ ?_
                · rw [Nat.pow_succ']
                  omega
                · rw [Nat.pow_succ']
                  omega
              subst hbb
              exact hzp (h.injective z p _ hz hp)
  · intro z z' pl hz hz'
    have hother : ∀ {z}, z ≠ x → place z ≠ some (L - 1, b) := by
      intro z hzx hz
      have := h.alone x L b refs z (L - 1) b hx hxb hz (by omega)
      have := Nat.pow_pos (n := L + 1) h.pos
      omega
    by_cases hza₁ : z = a
    · by_cases hza₂ : z' = a
      · rw [hza₁, hza₂]
      · subst hza₁
        rw [hself] at hz
        cases hz
        by_cases hzx : z' = x
        · subst hzx
          rw [hlow] at hz'
          injection hz' with hz'
          exact absurd (Prod.mk.inj hz').1 (by omega)
        · rw [hkeep hzx hza₂] at hz'
          exact absurd (h.injective z' x _ hz' hx) hzx
    · by_cases hza₂ : z' = a
      · subst hza₂
        rw [hself] at hz'
        cases hz'
        by_cases hzx : z = x
        · subst hzx
          rw [hlow] at hz
          injection hz with hz
          exact absurd (Prod.mk.inj hz).1 (by omega)
        · rw [hkeep hzx hza₁] at hz
          exact absurd (h.injective z x _ hz hx) hzx
      · by_cases hzx : z = x
        · by_cases hzx' : z' = x
          · rw [hzx, hzx']
          · subst hzx
            rw [hlow] at hz
            cases hz
            rw [hkeep hzx' hza₂] at hz'
            exact absurd hz' (hother hzx')
        · by_cases hzx' : z' = x
          · subst hzx'
            rw [hlow] at hz'
            cases hz'
            rw [hkeep hzx hza₁] at hz
            exact absurd hz (hother hzx)
          · rw [hkeep hzx hza₁] at hz
            rw [hkeep hzx' hza₂] at hz'
            exact h.injective z z' _ hz hz'
  · intro z L₁ b₁ refs₂ z' L₂ b₂ hz hzb hz' hlt
    rw [hpage]
    have hza₁ : z ≠ a := by
      rintro rfl
      rw [hnewa] at hzb
      cases hzb
    have hzp : z ≠ p := by
      rintro rfl
      rw [hnewp] at hzb
      cases hzb
    rw [hblock z hzp hza₁] at hzb
    by_cases hzx : z = x
    · subst hzx
      rw [hlow] at hz
      cases hz
      have hzx' : z' ≠ z := by
        rintro rfl
        rw [hlow] at hz'
        cases hz'
        exact absurd hlt (lt_irrefl _)
      have hza₂ : z' ≠ a := by
        rintro rfl
        rw [hself] at hz'
        cases hz'
        exact absurd hlt (by omega)
      rw [hkeep hzx' hza₂] at hz'
      have hold := h.alone z L b refs z' L₂ b₂ hx hxb hz' (by omega)
      have hpow : indirectMaxCount t.pageSize ^ (L - 1 + 1) ≤ indirectMaxCount t.pageSize ^ (L + 1) :=
        Nat.pow_le_pow_right h.pos (by omega)
      omega
    · rw [hkeep hzx hza₁] at hz
      by_cases hza₂ : z' = a
      · subst hza₂
        rw [hself] at hz'
        cases hz'
        exact h.alone z L₁ b₁ refs₂ x L b hz hzb hx hlt
      · by_cases hzx' : z' = x
        · subst hzx'
          rw [hlow] at hz'
          cases hz'
          by_cases hLL : L = L₁
          · subst hLL
            have hne : b₁ ≠ b := by
              rintro rfl
              exact hzx (h.injective z z' _ hz hx)
            have hdvd₁ := (h.bounds z L b₁ hz).2.2
            obtain hlt' | hlt' := Nat.lt_or_gt_of_ne hne
            · exact .inr (add_le_of_multiples hdvd₁ hdvd hlt')
            · exact .inl hlt'
          · exact h.alone z L₁ b₁ refs₂ z' L b hz hzb hx (by omega)
        · rw [hkeep hzx' hza₂] at hz'
          exact h.alone z L₁ b₁ refs₂ z' L₂ b₂ hz hzb hz' hlt

/-- A full index gets a `TIND` block as its new root. -/
theorem grow (h : Placed rows n t R place) (hfull : n = indirectMaxCount t.pageSize ^ (R + 1)) {refs₁ : Nat → Reference}
    (ha : t.pageSize * t.used ≤ a) (hpage : t'.pageSize = t.pageSize) (hroot : t'.indirectIndex = a)
    (hused : t.used < t'.used) (ha' : a < t'.pageSize * t'.used)
    (hnewa : t'.block a = some (.topIndirectIndex (R + 1) refs₁)) (hzero : refs₁ 0 = t.indirectIndex)
    (hnull : ∀ j, j ≠ 0 → refs₁ j = nullFileAddr) (hblock : ∀ z, z ≠ a → t'.block z = t.block z) :
    Placed rows n t' (R + 1) (Function.update place a (some (R + 1, 0))) := by
  obtain ⟨hagt, haplace⟩ := h.fresh ha
  have hpos : 0 < indirectMaxCount t.pageSize ^ (R + 1) := Nat.pow_pos h.pos
  have hself : Function.update place a (some (R + 1, 0)) a = some (R + 1, 0) := Function.update_self ..
  have hkeep : ∀ {z p}, place z = some p → Function.update place a (some (R + 1, 0)) z = some p := by
    intro z p hz
    rw [Function.update_of_ne, hz]
    rintro rfl
    rw [haplace] at hz
    cases hz
  have hold : ∀ {z p}, Function.update place a (some (R + 1, 0)) z = some p → z ≠ a → place z = some p :=
    fun hz hza => by rwa [Function.update_of_ne hza] at hz
  constructor
  · exact hpage ▸ h.two_le
  · rw [hroot, hself]
  · intro refs₂ hrefs₂
    rw [hroot, hnewa] at hrefs₂
    cases hrefs₂
  · rw [hpage, hfull]
    exact Nat.pow_le_pow_right h.pos (by omega)
  · rw [hpage, hfull]
    exact .inr le_rfl
  · exact lt_of_le_of_lt h.lt_used hused
  · intro z p hz
    by_cases hza : z = a
    · subst hza
      exact ⟨hagt, ha'⟩
    · obtain ⟨h1, h2⟩ := h.address z p (hold hz hza)
      exact ⟨h1, lt_of_lt_of_le h2 (hpage ▸ Nat.mul_le_mul_left _ hused.le)⟩
  · intro z L' b' hz
    rw [hpage]
    by_cases hza : z = a
    · subst hza
      rw [hself] at hz
      cases hz
      exact ⟨le_rfl, by omega, Nat.dvd_zero _⟩
    · obtain ⟨h1, h2⟩ := h.bounds z L' b' (hold hz hza)
      exact ⟨h1.trans (Nat.le_succ R), h2⟩
  · intro z L' b' hz
    rw [hpage]
    by_cases hza : z = a
    · subst hza
      rw [hself] at hz
      cases hz
      refine ⟨_, hnewa, rfl, Nat.le_add_left 1 R, ?_⟩
      intro j hj
      rw [Nat.zero_add]
      by_cases hj0 : j = 0
      · subst hj0
        rw [hzero, Nat.zero_mul]
        exact ⟨fun _ => hkeep h.root, fun hle => absurd hle (by omega)⟩
      · have := Nat.le_mul_of_pos_left (indirectMaxCount t.pageSize ^ (R + 1)) (Nat.pos_of_ne_zero hj0)
        exact ⟨fun hlt => absurd hlt (by omega), fun _ => hnull j hj0⟩
    · have hz' := hold hz hza
      obtain ⟨refs₂, hzb⟩ | ⟨refs₂, hzb⟩ := h.cases hz'
      · exact ⟨_, (hblock z hza).trans hzb, h.indirect hz' hzb⟩
      · obtain ⟨-, hL', hrefs₂⟩ := h.top hz' hzb
        refine ⟨_, (hblock z hza).trans hzb, rfl, hL', ?_⟩
        intro j hj
        obtain ⟨h1, h2⟩ := hrefs₂ j hj
        exact ⟨fun hlt => hkeep (h1 hlt), h2⟩
  · intro z z' p hz hz'
    have htop : ∀ {z}, z ≠ a → Function.update place a (some (R + 1, 0)) z ≠ some (R + 1, 0) := by
      intro z hza hz
      have := (h.bounds z _ _ (hold hz hza)).1
      omega
    by_cases hza : z = a
    · by_cases hza' : z' = a
      · rw [hza, hza']
      · subst hza
        rw [hself] at hz
        cases hz
        exact absurd hz' (htop hza')
    · by_cases hza' : z' = a
      · subst hza'
        rw [hself] at hz'
        cases hz'
        exact absurd hz (htop hza)
      · exact h.injective z z' p (hold hz hza) (hold hz' hza')
  · intro z L₁ b₁ refs₂ z' L₂ b₂ hz hzb hz' hlt
    rw [hpage]
    have hza : z ≠ a := by
      rintro rfl
      rw [hnewa] at hzb
      cases hzb
    rw [hblock z hza] at hzb
    have hz₁ := hold hz hza
    have hza' : z' ≠ a := by
      rintro rfl
      rw [hself] at hz'
      cases hz'
      have := (h.bounds z L₁ b₁ hz₁).1
      omega
    exact h.alone z L₁ b₁ refs₂ z' L₂ b₂ hz₁ hzb (hold hz' hza') hlt

end Placed
end Snapwebsites.Snapdatabase
