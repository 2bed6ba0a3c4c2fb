import Mathlib.Data.List.Nodup
import Mathlib.Logic.Function.Basic
import Mathlib.Tactic.Common

/-! # Copying one cell after the other

Values are copied into cells, the `k`-th one from a source that is a value itself or a cell. A source that is a cell is read
when its turn comes, so it may have been written before. No value is disturbed by that exactly when each cell that is read
after it is written gets the value it had (`copied_eq_iff`). -/

inductive Source (α β : Type)
  | value (b : β)
  | cell (a : α)

namespace Source
variable {α β : Type}

def read (m : α → β) : Source α β → β
  | value b => b
  | cell a => m a

theorem read_agree {m m' : α → β} {I : α → Prop} {s : Source α β} (hm : ∀ a, I a → m a = m' a) (hs : ∀ a, s = .cell a → I a) :
    s.read m = s.read m' := by
  cases s with
  | value b => rfl
  | cell a => exact hm a (hs a rfl)

end Source

namespace Copy
variable {α β : Type} [DecidableEq α]

def write (m : α → β) (b : β) : Option α → α → β
  | none => m
  | some a => Function.update m a b

/-- The cells after `n` values are copied; a value whose destination is none of the cells is dropped. -/
def memory (m : α → β) (src : Nat → Source α β) (dest : Nat → Option α) : Nat → α → β
  | 0 => m
  | n + 1 => write (memory m src dest n) ((src n).read (memory m src dest n)) (dest n)

/-- The value that is copied when its turn comes. -/
def copied (m : α → β) (src : Nat → Source α β) (dest : Nat → Option α) (k : Nat) : β := (src k).read (memory m src dest k)

/-- A cell that is written and then read gets the value it had. -/
def Undisturbed (m : α → β) (src : Nat → Source α β) (dest : Nat → Option α) (n : Nat) : Prop :=
  ∀ k < n, ∀ i < k, ∀ a, src k = .cell a → dest i = some a → (src i).read m = m a

variable {m : α → β} {src : Nat → Source α β} {dest : Nat → Option α} {n k i : Nat} {a : α}

/-- A value for another cell leaves a cell alone. -/
theorem memory_succ_of_ne (h : dest n ≠ some a) : memory m src dest (n + 1) a = memory m src dest n a := by
  rw [memory]
  cases hc : dest n with
  | none => rfl
  | some c => exact Function.update_of_ne (fun heq => h (hc.trans (congrArg some heq.symm))) _ _

theorem memory_succ_self (h : dest n = some a) : memory m src dest (n + 1) a = copied m src dest n := by
  rw [memory, h]
  exact Function.update_self ..

theorem memory_of_not_dest (h : ∀ i < n, dest i ≠ some a) : memory m src dest n a = m a := by
  induction n with
  | zero => rfl
  | succ n ih => rw [memory_succ_of_ne (h n n.lt_succ_self), ih fun i hi => h i (Nat.lt_succ_of_lt hi)]

/-- A cell has what was copied into it last. -/
theorem memory_cases (m : α → β) (src : Nat → Source α β) (dest : Nat → Option α) (n : Nat) (a : α) :
    memory m src dest n a = m a ∨ ∃ i < n, dest i = some a ∧ memory m src dest n a = copied m src dest i := by
  induction n with
  | zero => exact Or.inl rfl
  | succ n ih =>
    by_cases hd : dest n = some a
    · exact Or.inr ⟨n, n.lt_succ_self, hd, memory_succ_self hd⟩
    · rw [memory_succ_of_ne hd]
      exact ih.imp_right fun ⟨i, hi, h⟩ => ⟨i, Nat.lt_succ_of_lt hi, h⟩

theorem memory_of_unique (hi : i < n) (hd : dest i = some a) (hunique : ∀ j < n, dest j = some a → j = i) :
    memory m src dest n a = copied m src dest i := by
  induction n with
  | zero => exact absurd hi (Nat.not_lt_zero i)
  | succ n ih =>
    by_cases hn : dest n = some a
    · rw [← hunique n n.lt_succ_self hn]
      exact memory_succ_self hn
    · have hlt : i < n := Nat.lt_of_le_of_ne (Nat.le_of_lt_succ hi) fun heq => hn (heq ▸ hd)
      rw [memory_succ_of_ne hn]
      exact ih hlt fun j hj => hunique j (Nat.lt_succ_of_lt hj)

theorem memory_dest (hinj : ∀ i j a, dest i = some a → dest j = some a → i = j) (hi : i < n) (hd : dest i = some a) :
    memory m src dest n a = copied m src dest i :=
  memory_of_unique hi hd fun j _ hj => hinj j i a hj hd

/-- What is copied: the value of the source, or what has been copied into the cell. -/
theorem copied_cell (hinj : ∀ i j a, dest i = some a → dest j = some a → i = j) (hsrc : src k = .cell a) (hi : i < k)
    (hd : dest i = some a) : copied m src dest k = copied m src dest i := by
  rw [copied, hsrc]
  exact memory_dest hinj hi hd

theorem copied_eq_iff (hinj : ∀ i j a, dest i = some a → dest j = some a → i = j) :
    (∀ k < n, copied m src dest k = (src k).read m) ↔ Undisturbed m src dest n := by
  constructor
  · intro h k hk i hi a hsrc hd
    have hkeep := h k hk
    rw [copied_cell hinj hsrc hi hd, h i (Nat.lt_trans hi hk), hsrc] at hkeep
    exact hkeep
  · intro h k
    induction k using Nat.strongRecOn with
    | ind k ih =>
      intro hk
      cases hsrc : src k with
      | value b => rw [copied, hsrc, Source.read, Source.read]
      | cell a =>
        by_cases hwritten : ∃ i < k, dest i = some a
        · obtain ⟨i, hi, hd⟩ := hwritten
          rw [copied_cell hinj hsrc hi hd, ih i hi (Nat.lt_trans hi hk)]
          exact h k hk i hi a hsrc hd
        · rw [copied, hsrc]
          exact memory_of_not_dest fun i hi hd => hwritten ⟨i, hi, hd⟩

/-! ### Copying in parts -/

theorem memory_add (m : α → β) (src : Nat → Source α β) (dest : Nat → Option α) (n k : Nat) : memory m src dest (n + k) =
    memory (memory m src dest n) (fun i => src (n + i)) (fun i => dest (n + i)) k := by
  induction k with
  | zero => rfl
  | succ k ih => rw [← Nat.add_assoc, memory, memory, ih]

theorem copied_add (m : α → β) (src : Nat → Source α β) (dest : Nat → Option α) (n k : Nat) : copied m src dest (n + k) =
    copied (memory m src dest n) (fun i => src (n + i)) (fun i => dest (n + i)) k := by
  rw [copied, copied, memory_add]

theorem memory_congr {src' : Nat → Source α β} {dest' : Nat → Option α} (hsrc : ∀ k < n, src k = src' k)
    (hdest : ∀ k < n, dest k = dest' k) : memory m src dest n = memory m src' dest' n := by
  induction n with
  | zero => rfl
  | succ n ih =>
    have hrest := ih (fun k hk => hsrc k (Nat.lt_succ_of_lt hk)) fun k hk => hdest k (Nat.lt_succ_of_lt hk)
    rw [memory, memory, hrest, hsrc n n.lt_succ_self, hdest n n.lt_succ_self]

/-! ### Copying as far as some cells are concerned -/

section
variable {m' : α → β} {dest' : Nat → Option α} {I : α → Prop}

/-- Two memories that agree on some cells, from which all is copied, agree on them afterwards. -/
theorem memory_agree (hm : ∀ a, I a → m a = m' a) (hsrc : ∀ k < n, ∀ a, src k = .cell a → I a)
    (hdest : ∀ k < n, ∀ a, I a → (dest k = some a ↔ dest' k = some a)) :
    ∀ a, I a → memory m src dest n a = memory m' src dest' n a := by
  induction n with
  | zero => exact hm
  | succ n ih =>
    have hrest := ih (fun k hk => hsrc k (Nat.lt_succ_of_lt hk)) fun k hk => hdest k (Nat.lt_succ_of_lt hk)
    have hread := Source.read_agree hrest (hsrc n n.lt_succ_self)
    have hwrite (b : β) (m : α → β) (d : Option α) (a : α) : write m b d a = if d = some a then b else m a := by
      cases d with
      | none => simp [write]
      | some c => simp [write, Function.update_apply, eq_comm (a := a)]
    intro a ha
    rw [memory, memory, hwrite, hwrite, hread, hrest a ha]
    exact if_congr (hdest n n.lt_succ_self a ha) rfl rfl

theorem copied_agree (hm : ∀ a, I a → m a = m' a) (hsrc : ∀ i < n, ∀ a, src i = .cell a → I a)
    (hdest : ∀ i < n, ∀ a, I a → (dest i = some a ↔ dest' i = some a)) (hk : k < n) :
    copied m src dest k = copied m' src dest' k :=
  Source.read_agree (memory_agree hm (fun i hi => hsrc i (Nat.lt_trans hi hk)) fun i hi => hdest i (Nat.lt_trans hi hk)) (hsrc k hk)

end

end Copy
