import Snapwebsites.HttpCookie.Cookie

/-! # Both ways of limiting a cookie

`set_expire()` of the request time plus `s` seconds against `set_expire_in(s)`. The first one compares with one
year but stores one day, and it reads the date as an unsigned 32-bit number, in which a date before 1970 is as
far away as one in 2106. The two agree when the date is within the year and not before 1970
(`expire_agrees_iff`). -/

namespace Snapwebsites
namespace HttpCookie

/-- One year, in seconds. -/
def year : Int := 86400 * 365

def IsInt64 (n : Int) : Prop := -2 ^ 63 ≤ n ∧ n < 2 ^ 63

/-- What `toTime_t()` gives for a number of milliseconds: the seconds as an `uint`, and `uint(-1)` for those out of range. -/
def timeT (n : Int) : Int := if 0 ≤ n.tdiv 1000 ∧ n.tdiv 1000 < 0xFFFFFFFF then n.tdiv 1000 else 0xFFFFFFFF

/-- What the documentation of `QDateTime` says of dates made of milliseconds since the epoch. -/
structure Clock {D : Type} (Q : Dates D) where
  toMSecs : D → Int
  toMSecs_from : ∀ n, IsInt64 n → toMSecs (Q.fromMSecsSinceEpoch n) = n
  toTimeT_from : ∀ n, IsInt64 n → Q.toTimeT (Q.fromMSecsSinceEpoch n) = timeT n

/-- Milliseconds since the epoch, with the unsigned seconds of `toTime_t()`. -/
def Dates.unsigned : Dates (Option Int) := { Dates.milliseconds with toTimeT := fun d => d.elim 0xFFFFFFFF timeT }

def Clock.unsigned : Clock Dates.unsigned where
  toMSecs d := d.getD 0
  toMSecs_from _ _ := rfl
  toTimeT_from _ _ := rfl

section
variable {D : Type} {Q : Dates D} (K : Clock Q) (now : Now D) (c : HttpCookie D)

/-- The request time in microseconds, the same in seconds. -/
structure Requested (start : Int) : Prop where
  nonneg : 0 ≤ start
  int64 : start < 2 ^ 63
  date : c.startDate now = start
  time : c.startTime now = start.tdiv 1000000

/-- The request time plus `s` seconds, in milliseconds. -/
def later (start s : Int) : Int := start.tdiv 1000 + s * 1000

def expireAt (start s : Int) : Int := K.toMSecs (c.setExpire Q now (Q.fromMSecsSinceEpoch (later start s))).expire

def expireIn (s : Int) : Int := K.toMSecs (c.setExpireIn Q now s).expire

/-- The date is within a year and not before 1970 (or the request comes in the last year before the unsigned seconds end). -/
def WithinYear (start s : Int) : Prop := s ≤ year ∧ (-1000 < later start s ∨ 0xFFFFFFFF - start.tdiv 1000000 ≤ year)

variable {K now c} {start s : Int}

/-- Truncation to seconds: the dates between one second before 1970 and 2106 are the ones in range. -/
theorem timeT_eq (n : Int) : timeT n = if -1000 < n ∧ n < 0xFFFFFFFF * 1000 then max (n / 1000) 0 else 0xFFFFFFFF := by
  unfold timeT
  rcases le_or_gt 0 n with hn | hn
  · rw [Int.tdiv_eq_ediv_of_nonneg hn]
    split_ifs <;> omega
  · obtain ⟨m, rfl⟩ : ∃ m, n = -m := ⟨-n, (neg_neg n).symm⟩
    rw [Int.neg_tdiv, Int.tdiv_eq_ediv_of_nonneg (by omega)]
    split_ifs <;> omega

theorem later_eq (h : 0 ≤ start) (s : Int) : later start s = start / 1000 + s * 1000 := by
  rw [later, Int.tdiv_eq_ediv_of_nonneg h]

theorem tdiv_start (h : 0 ≤ start) : start.tdiv 1000000 = start / 1000 / 1000 := by
  rw [Int.tdiv_eq_ediv_of_nonneg h]
  omega

theorem isInt64_later (h : Requested now c start) (hs : IsInt64 (later start s)) {t : Int} (hle : t ≤ s ∨ t ≤ year) (hge : s ≤ t ∨ 0 ≤ t) :
    IsInt64 (later start t) := by
  have hnonneg := h.nonneg
  have hint64 := h.int64
  rw [later_eq hnonneg] at hs ⊢
  unfold IsInt64 year at *
  omega

theorem expireIn_eq (h : Requested now c start) (hs : IsInt64 (later start s)) : expireIn K now c s = later start (min s year) := by
  have hmin := isInt64_later (t := min s year) h hs (.inl (min_le_left _ _)) (by unfold year; omega)
  unfold expireIn setExpireIn
  rw [h.date]
  exact K.toMSecs_from _ hmin

theorem expireAt_eq (h : Requested now c start) (hs : IsInt64 (later start s)) :
    expireAt K now c start s = if timeT (later start s) - start.tdiv 1000000 > year then later start 86400 else later start s := by
  have hday := isInt64_later (t := 86400) h hs (.inr (by decide)) (.inr (by decide))
  unfold expireAt setExpire
  rw [h.date, h.time, K.toTimeT_from _ hs]
  have hyear : (86400 * 365 : Int) = year := rfl
  rw [hyear]
  split_ifs
  · exact K.toMSecs_from _ hday
  · exact K.toMSecs_from _ hs

/-- The date is kept, in place of one day, just when its unsigned seconds are within the year. -/
theorem kept_iff (h : Requested now c start) : s ≤ year ∧ ¬ timeT (later start s) - start.tdiv 1000000 > year ↔ WithinYear start s := by
  have hnonneg := h.nonneg
  rw [WithinYear, timeT_eq, tdiv_start hnonneg, later_eq hnonneg]
  unfold year
  constructor
  · rintro ⟨hs, hkept⟩
    refine ⟨hs, ?_⟩
    split_ifs at hkept <;> omega
  · rintro ⟨hs, hdate⟩
    refine ⟨hs, ?_⟩
    split_ifs <;> omega

theorem expireAt_of_withinYear (h : Requested now c start) (hs : IsInt64 (later start s)) (hw : WithinYear start s) :
    expireAt K now c start s = later start s := by
  rw [expireAt_eq h hs, if_neg ((kept_iff h).mpr hw).2]

/-- The two agree to the second just when the date is within the year; then the date is a monotone function of the seconds, one
    year after the request at the latest. -/
theorem expire_agrees_iff (K : Clock Q) (h : Requested now c start) :
    (∀ s, IsInt64 (later start s) → (expireAt K now c start s / 1000 = expireIn K now c s / 1000 ↔ WithinYear start s)) ∧
    (∀ s s', IsInt64 (later start s) → IsInt64 (later start s') → WithinYear start s → WithinYear start s' → s ≤ s' →
      expireAt K now c start s ≤ expireAt K now c start s' ∧ expireAt K now c start s' ≤ later start year) := by
  have hnonneg := h.nonneg
  refine ⟨fun s hs => ⟨fun hagree => ?_, fun hw => ?_⟩, fun s s' hs hs' hw hw' hle => ?_⟩
  · rw [expireAt_eq h hs, expireIn_eq h hs] at hagree
    refine (kept_iff h).mp ?_
    rw [timeT_eq, tdiv_start hnonneg, later_eq hnonneg] at hagree ⊢
    rw [later_eq hnonneg, later_eq hnonneg] at hagree
    unfold year at *
    split_ifs at hagree ⊢ <;> omega
  · rw [expireAt_of_withinYear h hs hw, expireIn_eq h hs, min_eq_left hw.1]
  · rw [expireAt_of_withinYear h hs hw, expireAt_of_withinYear h hs' hw', later_eq hnonneg, later_eq hnonneg, later_eq hnonneg]
    have hyear := hw'.1
    omega

end

/-- A request on November 14, 2023, and a cookie of it. -/
def requestNow : Now (Option Int) := ⟨1700000000, 1700000000000000, some 1700000000000⟩

def requestCookie : HttpCookie (Option Int) :=
  { snap := some { startTime := 1700000000, startDate := 1700000000000000 }, name := ['a'], value := [], domain := [], path := ['/'],
    expire := none, nameOk := rfl }

theorem requestCookie_requested : Requested requestNow requestCookie 1700000000000000 := ⟨by decide, by decide, rfl, by decide⟩

theorem expire_agrees_iff_hour : expireAt Clock.unsigned requestNow requestCookie 1700000000000000 3600 / 1000 =
    expireIn Clock.unsigned requestNow requestCookie 3600 / 1000 ↔ WithinYear 1700000000000000 3600 :=
  (expire_agrees_iff Clock.unsigned requestCookie_requested).1 3600 ⟨by decide, by decide⟩

/-- A limit of 400 days: `set_expire()` stores one day, `set_expire_in()` one year. -/
theorem expire_disagrees : expireAt Clock.unsigned requestNow requestCookie 1700000000000000 (86400 * 400) / 1000 ≠
    expireIn Clock.unsigned requestNow requestCookie (86400 * 400) / 1000 := by decide

end HttpCookie
end Snapwebsites
