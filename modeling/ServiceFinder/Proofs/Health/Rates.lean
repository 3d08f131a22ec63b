/-
  ServiceFinder/Proofs/Health/Rates.lean
  ======================================
  **Rates are exact as far as 64 bits go, and never more than a hundred.**

  The rates of a server are read off two counters that may hold any numbers of 64 bits, whether
  or not outcomes lead to them.  To say that nothing is lost on the way, the same reckoning is
  done step by step with arithmetic that refuses (`Overrun`) what has no answer in its width.  It
  never refuses, because the failures that are reckoned with are at most the outcomes.
-/
import Mathlib.Data.Nat.ModEq
import ServiceFinder.Proofs.Health.ServerStats

namespace ServiceFinder

/-! ### Arithmetic that refuses -/

/-- Why there is no answer of the width asked for. -/
inductive Overrun where
  | belowZero
  | noDivisor
  | tooWide
deriving DecidableEq, Repr

namespace Overrun

def subtract (a b : UInt64) : Except Overrun UInt64 :=
  if b ≤ a then .ok (a - b) else .error belowZero

def divide (a b : UInt64) : Except Overrun UInt64 :=
  if b = 0 then .error noDivisor else .ok (a / b)

/-- The same number in 32 bits. -/
def narrow (a : UInt64) : Except Overrun UInt32 :=
  if a.toNat < UInt32.size then .ok a.toUInt32 else .error tooWide

/-- The hundredfold, or 2⁶⁴ − 1 if that is less. -/
def hundredfold (a : UInt64) : UInt64 := .ofNat (min (a.toNat * 100) (UInt64.size - 1))

/-- `part` of `total` in whole percent, rounded down. -/
def percent (part total : UInt64) : Except Overrun UInt32 :=
  if total = 0 then .ok 0
  else do narrow (← divide (hundredfold part) total)

theorem subtract_of_le {a b : UInt64} (h : b ≤ a) : subtract a b = .ok (a - b) := if_pos h

theorem divide_of_ne_zero {a b : UInt64} (h : b ≠ 0) : divide a b = .ok (a / b) := if_neg h

theorem narrow_of_lt {a : UInt64} (h : a.toNat < UInt32.size) : narrow a = .ok a.toUInt32 :=
  if_pos h

theorem hundredfold_toNat (a : UInt64) :
    (hundredfold a).toNat = min (a.toNat * 100) (UInt64.size - 1) :=
  UInt64.toNat_ofNat_of_lt' (Nat.lt_of_le_of_lt (Nat.min_le_right _ _) (by decide))

/-- A part of the whole is never refused. -/
theorem percent_of_le {part total : UInt64} (h : part ≤ total) :
    percent part total = .ok (percentage part total) := by
  unfold percent percentage
  by_cases hzero : total = 0
  · rw [if_pos hzero, if_pos hzero]
  · have hquotient : (hundredfold part / total).toNat =
        min (part.toNat * 100) (UInt64.size - 1) / total.toNat := by
      rw [UInt64.toNat_div, hundredfold_toNat]
    have hroom : (hundredfold part / total).toNat < UInt32.size := by
      rw [hquotient]
      exact Nat.lt_of_le_of_lt (hundredfold_div_le h) (by decide)
    rw [if_neg hzero, if_neg hzero, divide_of_ne_zero hzero, ← hquotient]
    exact narrow_of_lt hroom

/-- More than the whole may be too much for 32 bits: the failures are cut to the outcomes with
    reason. -/
example : percent 42949673 1 = .error tooWide := rfl

end Overrun

/-! ### Shares that make up the whole -/

section Shares

variable {part rest total : Nat}

theorem add_shares_le (h : part + rest = total) :
    part * 100 / total + rest * 100 / total ≤ 100 := by
  calc
    part * 100 / total + rest * 100 / total ≤ (part * 100 + rest * 100) / total :=
      Nat.div_add_div_le_add_div
    _ = 100 * total / total := by rw [← Nat.add_mul, h, Nat.mul_comm]
    _ ≤ 100 := Nat.div_le_of_le_mul (Nat.mul_comm 100 total).le

/-- What the two shares lack of a hundred is what their remainders make up. -/
theorem add_shares (h : part + rest = total) (pos : 0 < total) :
    part * 100 / total + rest * 100 / total +
      (if total ≤ part * 100 % total + rest * 100 % total then 1 else 0) = 100 := by
  rw [← Nat.add_div pos, ← Nat.add_mul, h, Nat.mul_div_cancel_left _ pos]

/-- The remainders of shares make up the whole, unless there are none. -/
theorem le_remainders_iff (h : part + rest = total) (pos : 0 < total) :
    total ≤ part * 100 % total + rest * 100 % total ↔ ¬total ∣ 100 * part := by
  have hnone : (part * 100 % total + rest * 100 % total) % total = 0 := by
    rw [← Nat.add_mod, ← Nat.add_mul, h, Nat.mul_mod_right]
  rw [Nat.mul_comm 100 part, Nat.dvd_iff_mod_eq_zero]
  constructor
  · intro hle hzero
    have hlt : rest * 100 % total < total := Nat.mod_lt _ pos
    omega
  · intro hrest
    refine Nat.le_of_not_lt ?_
    intro hlt
    rw [Nat.mod_eq_of_lt hlt] at hnone
    exact hrest (Nat.eq_zero_of_add_eq_zero_right hnone)

theorem ninetynine_or_hundred (h : part + rest = total) (pos : 0 < total) :
    part * 100 / total + rest * 100 / total = 99 ∨
      part * 100 / total + rest * 100 / total = 100 := by
  have hrounded := add_shares h pos
  split at hrounded
  · exact .inl (Nat.succ.inj hrounded)
  · exact .inr hrounded

theorem add_shares_eq_hundred_iff (h : part + rest = total) (pos : 0 < total) :
    part * 100 / total + rest * 100 / total = 100 ↔ total ∣ 100 * part := by
  have hrounded := add_shares h pos
  rw [← not_iff_not, ← le_remainders_iff h pos]
  split at hrounded <;> omega

end Shares

section Percentages

variable {part total : UInt64}

theorem percentage_le_share (h : part ≤ total) :
    (percentage part total).toNat ≤ part.toNat * 100 / total.toNat := by
  rw [percentage_toNat h]
  exact Nat.div_le_div_right (Nat.min_le_left _ _)

theorem percentage_eq_share (h : part ≤ total) (fits : 100 * total.toNat < UInt64.size) :
    (percentage part total).toNat = part.toNat * 100 / total.toNat := by
  have hle : part.toNat ≤ total.toNat := UInt64.le_iff_toNat_le.mp h
  rw [percentage_toNat h, Nat.min_eq_left (by omega)]

/-- With the first hundredfold that does not fit, all of them are less than a hundred percent. -/
example : 100 * 184467440737095517 ≥ UInt64.size ∧
    percentage 184467440737095517 184467440737095517 = 99 := by decide

end Percentages

namespace ServerStats

/-- The rate of failures, reckoned with arithmetic that refuses. -/
def reckonFailedRate (s : ServerStats) : Except Overrun UInt32 := Overrun.percent s.failures s.total

/-- The rate of successes, reckoned with arithmetic that refuses. -/
def reckonSuccessRate (s : ServerStats) : Except Overrun UInt32 := do
  Overrun.percent (← Overrun.subtract s.total s.failures) s.total

theorem successes_toNat (s : ServerStats) :
    (s.total - s.failures).toNat = s.total.toNat - s.failures.toNat :=
  UInt64.toNat_sub_of_le _ _ (failures_le_total s)

theorem successes_le_total (s : ServerStats) : s.total - s.failures ≤ s.total := by
  rw [UInt64.le_iff_toNat_le, successes_toNat]
  exact Nat.sub_le _ _

theorem reckonFailedRate_eq (s : ServerStats) : s.reckonFailedRate = .ok s.failedRate :=
  Overrun.percent_of_le (failures_le_total s)

theorem reckonSuccessRate_eq (s : ServerStats) : s.reckonSuccessRate = .ok s.successRate := by
  unfold reckonSuccessRate
  rw [Overrun.subtract_of_le (failures_le_total s)]
  exact Overrun.percent_of_le (successes_le_total s)

theorem failures_add_successes (s : ServerStats) :
    s.failures.toNat + (s.total - s.failures).toNat = s.total.toNat := by
  rw [successes_toNat]
  exact Nat.add_sub_of_le (UInt64.le_iff_toNat_le.mp (failures_le_total s))

theorem failedRate_add_successRate_le (s : ServerStats) :
    s.failedRate.toNat + s.successRate.toNat ≤ 100 := by
  calc
    s.failedRate.toNat + s.successRate.toNat ≤
        s.failures.toNat * 100 / s.total.toNat +
          (s.total - s.failures).toNat * 100 / s.total.toNat :=
      Nat.add_le_add (percentage_le_share (failures_le_total s))
        (percentage_le_share (successes_le_total s))
    _ ≤ 100 := add_shares_le (failures_add_successes s)

/-- **The rates of a server are exact and bounded.**  Whatever 64-bit counts are on record, both
    rates are reckoned without going below zero, without dividing by zero and without losing bits
    of a result, and together they are at most a hundred.  If there are outcomes, the failures among
    them, and their hundredfold fits into 64 bits, then the rates are the shares of the failures
    and of the successes in percent, each rounded down.  They add up to a hundred if nothing had
    to be rounded, and to 99 if not. -/
theorem rates_are_shares (s : ServerStats) :
    s.reckonFailedRate = .ok s.failedRate ∧ s.reckonSuccessRate = .ok s.successRate ∧
    s.failedRate.toNat ≤ 100 ∧ s.successRate.toNat ≤ 100 ∧
    s.failedRate.toNat + s.successRate.toNat ≤ 100 ∧
    (0 < s.total.toNat → 100 * s.total.toNat < UInt64.size → s.failed ≤ s.total →
      s.failedRate.toNat = 100 * s.failed.toNat / s.total.toNat ∧
      s.successRate.toNat = 100 * (s.total.toNat - s.failed.toNat) / s.total.toNat ∧
      (s.failedRate.toNat + s.successRate.toNat = 99 ∨
        s.failedRate.toNat + s.successRate.toNat = 100) ∧
      (s.failedRate.toNat + s.successRate.toNat = 100 ↔
        s.total.toNat ∣ 100 * s.failed.toNat)) := by
  have hsum := failedRate_add_successRate_le s
  refine ⟨reckonFailedRate_eq s, reckonSuccessRate_eq s, by omega, by omega, hsum, ?_⟩
  intro pos fits hfailed
  have hfailures : s.failures.toNat = s.failed.toNat := by
    rw [failures, UInt64.toNat_min]
    exact Nat.min_eq_left (UInt64.le_iff_toNat_le.mp hfailed)
  have hwhole := failures_add_successes s
  have hfailedRate : s.failedRate.toNat = s.failures.toNat * 100 / s.total.toNat :=
    percentage_eq_share (failures_le_total s) fits
  have hsuccessRate : s.successRate.toNat = (s.total - s.failures).toNat * 100 / s.total.toNat :=
    percentage_eq_share (successes_le_total s) fits
  have hshare : 100 * s.failed.toNat / s.total.toNat = s.failedRate.toNat := by
    rw [hfailedRate, hfailures, Nat.mul_comm]
  have hrest : 100 * (s.total.toNat - s.failed.toNat) / s.total.toNat = s.successRate.toNat := by
    rw [hsuccessRate, successes_toNat, hfailures, Nat.mul_comm]
  refine ⟨hshare.symm, hrest.symm, ?_, ?_⟩
  · rw [hfailedRate, hsuccessRate]
    exact ninetynine_or_hundred hwhole pos
  · rw [hfailedRate, hsuccessRate, ← hfailures]
    exact add_shares_eq_hundred_iff hwhole pos

/-- As many outcomes as have a hundredfold in 64 bits. -/
def mostCounted (failed : UInt64) : ServerStats :=
  { startingAt 0 with total := 184467440737095516, failed }

/-- A third of the most outcomes is rounded, a quarter is not. -/
theorem rates_of_a_third_and_a_quarter :
    (100 * (mostCounted 61489146912365172).total.toNat < UInt64.size ∧
      (mostCounted 61489146912365172).failedRate.toNat = 33 ∧
      (mostCounted 61489146912365172).successRate.toNat = 66) ∧
    (mostCounted 46116860184273879).failedRate.toNat +
      (mostCounted 46116860184273879).successRate.toNat = 100 := by
  have hfits : 100 * (mostCounted 61489146912365172).total.toNat < UInt64.size := by decide
  obtain ⟨-, -, -, -, -, hthird⟩ := rates_are_shares (mostCounted 61489146912365172)
  obtain ⟨hfailed, hsuccess, -⟩ := hthird (by decide) hfits (by decide)
  obtain ⟨-, -, -, -, -, hquarter⟩ := rates_are_shares (mostCounted 46116860184273879)
  obtain ⟨-, -, -, hwhole⟩ := hquarter (by decide) (by decide) (by decide)
  exact ⟨⟨hfits, hfailed.trans (by decide), hsuccess.trans (by decide)⟩, hwhole.mpr (by decide)⟩

end ServerStats

end ServiceFinder
