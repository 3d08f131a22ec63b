/-
  ServiceFinder/Proofs/Health/ServerStats.lean
  ============================================
  **How one more outcome changes the judgement of a server.**

  Within a window a failure makes every count worse, so it never frees an isolated server;
  a success clears the failures in a row but only dilutes the share of failures.  An outcome
  that starts a new window is judged alone.
-/
import Mathlib.Data.UInt
import ServiceFinder.Health.Isolation

namespace ServiceFinder

/-! ### Percentages -/

/-- A part of the whole is at most a hundred percent of it, wherever its hundredfold stops. -/
theorem hundredfold_div_le {part total : UInt64} (h : part ≤ total) :
    min (part.toNat * 100) (UInt64.size - 1) / total.toNat ≤ 100 := by
  refine Nat.div_le_of_le_mul ?_
  calc
    min (part.toNat * 100) (UInt64.size - 1) ≤ part.toNat * 100 := Nat.min_le_left _ _
    _ ≤ total.toNat * 100 := Nat.mul_le_mul_right 100 (UInt64.le_iff_toNat_le.mp h)

theorem percentage_toNat {part total : UInt64} (h : part ≤ total) :
    (percentage part total).toNat =
      min (part.toNat * 100) (UInt64.size - 1) / total.toNat := by
  unfold percentage
  split
  · rename_i hzero
    simp [hzero]
  · exact UInt32.toNat_ofNat_of_lt' (Nat.lt_of_le_of_lt (hundredfold_div_le h) (by decide))

/-- One more part of one more does not make the share smaller. -/
theorem share_le_share_succ {part total : Nat} (h : part ≤ total) :
    part * 100 / total ≤ (part + 1) * 100 / (total + 1) := by
  rw [Nat.le_div_iff_mul_le (Nat.succ_pos total)]
  have hwhole : part * 100 / total * total ≤ part * 100 := Nat.div_mul_le_self _ _
  have hshare : part * 100 / total ≤ 100 :=
    Nat.div_le_of_le_mul (Nat.mul_le_mul_right 100 h)
  calc
    part * 100 / total * (total + 1) = part * 100 / total * total + part * 100 / total :=
      Nat.mul_succ _ _
    _ ≤ part * 100 + 100 := Nat.add_le_add hwhole hshare
    _ = (part + 1) * 100 := (Nat.succ_mul part 100).symm

theorem toNat_succ {n : UInt64} (h : n.toNat + 1 < UInt64.size) : (n + 1).toNat = n.toNat + 1 := by
  rw [UInt64.toNat_add]
  exact Nat.mod_eq_of_lt h

theorem succ_eq_zero {n : UInt64} (h : UInt64.size ≤ n.toNat + 1) : n + 1 = 0 := by
  have hlast : n.toNat + 1 = UInt64.size := Nat.le_antisymm n.toNat_lt_size h
  refine UInt64.toNat_inj.mp ?_
  rw [UInt64.toNat_add]
  show (n.toNat + 1) % UInt64.size = 0
  rw [hlast, Nat.mod_self]

namespace ServerStats

variable {s : ServerStats} {width now : Millis}

theorem failures_le_total (s : ServerStats) : s.failures ≤ s.total := by
  rw [UInt64.le_iff_toNat_le, failures, UInt64.toNat_min]
  exact Nat.min_le_right _ _

theorem failedRate_toNat (s : ServerStats) :
    s.failedRate.toNat =
      min (min s.failed.toNat s.total.toNat * 100) (UInt64.size - 1) / s.total.toNat := by
  rw [failedRate, percentage_toNat (failures_le_total s), failures, UInt64.toNat_min]

/-! ### Windows -/

theorem rolled_of_le (h : elapsed s.windowStart now ≤ width) : s.rolled width now = s :=
  if_neg (UInt64.not_lt.mpr h)

theorem rolled_of_lt (h : width < elapsed s.windowStart now) :
    s.rolled width now =
      { s with total := 0, failed := 0, continuous := 0, windowStart := now } :=
  if_pos h

theorem markFailure_of_le (h : elapsed s.windowStart now ≤ width) :
    s.markFailure width now =
      { s with total := s.total + 1, failed := s.failed + 1, continuous := s.continuous + 1,
               lastVisit := max s.lastVisit now } := by
  rw [markFailure, rolled_of_le h]

theorem markSuccess_of_le (h : elapsed s.windowStart now ≤ width) :
    s.markSuccess width now =
      { s with total := s.total + 1, continuous := 0, lastVisit := max s.lastVisit now,
               lastActive := max s.lastActive now } := by
  rw [markSuccess, rolled_of_le h]

/-- The outcome is the first one of its window. -/
def Opens (width now : Millis) (s : ServerStats) : Prop :=
  width < elapsed s.windowStart now ∨ s.total = 0 ∧ s.failed = 0 ∧ s.continuous = 0

theorem opens_startingAt (width now t : Millis) : (startingAt t).Opens width now :=
  .inr ⟨rfl, rfl, rfl⟩

theorem counts_rolled_of_opens (h : s.Opens width now) :
    (s.rolled width now).total = 0 ∧ (s.rolled width now).failed = 0 ∧
      (s.rolled width now).continuous = 0 := by
  rcases h with h | h
  · rw [rolled_of_lt h]
    exact ⟨rfl, rfl, rfl⟩
  · unfold rolled
    split
    · exact ⟨rfl, rfl, rfl⟩
    · exact h

/-! ### Counts that have not come round -/

/-- After `n` outcomes, unless they are too many to count, the window has at most so many, the
    failures among them, and those since the last success among the failures. -/
def Tallied (n : Nat) (s : ServerStats) : Prop :=
  n < UInt64.size → s.total.toNat ≤ n ∧ s.failed.toNat ≤ s.total.toNat ∧
    s.continuous.toNat ≤ s.failed.toNat

theorem tallied_startingAt (n : Nat) (t : Millis) : (startingAt t).Tallied n :=
  fun _ => ⟨Nat.zero_le _, Nat.le_refl _, Nat.le_refl _⟩

theorem Tallied.rolled {n : Nat} (h : s.Tallied n) (width now : Millis) :
    (s.rolled width now).Tallied n := by
  unfold ServerStats.rolled
  split
  · exact fun _ => ⟨Nat.zero_le _, Nat.le_refl _, Nat.le_refl _⟩
  · exact h

theorem Tallied.mark {n : Nat} (h : s.Tallied n) (success : Bool) (width now : Millis) :
    (s.mark success width now).Tallied (n + 1) := by
  intro few
  obtain ⟨htotal, hfailed, hcontinuous⟩ := h.rolled width now (Nat.lt_of_succ_lt few)
  have htotal' : ((s.rolled width now).total + 1).toNat = (s.rolled width now).total.toNat + 1 :=
    toNat_succ (by omega)
  cases success with
  | true =>
    show ((s.rolled width now).total + 1).toNat ≤ n + 1 ∧
      (s.rolled width now).failed.toNat ≤ ((s.rolled width now).total + 1).toNat ∧
        0 ≤ (s.rolled width now).failed.toNat
    omega
  | false =>
    have hfailed' : ((s.rolled width now).failed + 1).toNat =
        (s.rolled width now).failed.toNat + 1 := toNat_succ (by omega)
    have hcontinuous' : ((s.rolled width now).continuous + 1).toNat =
        (s.rolled width now).continuous.toNat + 1 := toNat_succ (by omega)
    show ((s.rolled width now).total + 1).toNat ≤ n + 1 ∧
      ((s.rolled width now).failed + 1).toNat ≤ ((s.rolled width now).total + 1).toNat ∧
        ((s.rolled width now).continuous + 1).toNat ≤ ((s.rolled width now).failed + 1).toNat
    omega

end ServerStats

namespace IsolationPolicy

open ServerStats

variable {p : IsolationPolicy} {s : ServerStats} {width now : Millis}

theorem isIsolated_iff :
    p.isIsolated s = true ↔ p.enabled = true ∧ p.minRequests.toNat ≤ s.total.toNat ∧
      (0 < p.continuousThreshold.toNat ∧ p.continuousThreshold.toNat ≤ s.continuous.toNat ∨
        0 < p.errorThreshold.toNat ∧ p.errorThreshold.toNat ≤ s.failedRate.toNat) := by
  simp only [isIsolated, tooManyInARow, tooLargeAShare, Bool.and_eq_true, Bool.or_eq_true,
    decide_eq_true_eq, UInt64.lt_iff_toNat_lt, UInt64.le_iff_toNat_le, UInt32.lt_iff_toNat_lt,
    UInt32.le_iff_toNat_le, UInt64.toNat_zero, UInt32.toNat_zero, and_assoc]

theorem tooLargeAShare_iff :
    p.tooLargeAShare s = true ↔
      0 < p.errorThreshold.toNat ∧ p.errorThreshold.toNat ≤ s.failedRate.toNat := by
  simp only [tooLargeAShare, Bool.and_eq_true, decide_eq_true_eq, UInt32.lt_iff_toNat_lt,
    UInt32.le_iff_toNat_le, UInt32.toNat_zero]

/-- A server without any outcome is not isolated. -/
theorem isIsolated_startingAt (p : IsolationPolicy) (t : Millis) :
    p.isIsolated (startingAt t) = false := by
  rw [← Bool.not_eq_true, isIsolated_iff]
  have hrate : (startingAt t).failedRate.toNat = 0 := rfl
  have hcontinuous : (startingAt t).continuous.toNat = 0 := rfl
  omega

/-! ### A failure -/

/-- One failure alone is enough to isolate a server. -/
def isolatesAtOnce (p : IsolationPolicy) : Bool :=
  p.enabled && p.minRequests ≤ 1 &&
    (p.continuousThreshold == 1 || (0 < p.errorThreshold && p.errorThreshold ≤ 100))

theorem isolatesAtOnce_iff :
    p.isolatesAtOnce = true ↔ p.enabled = true ∧ p.minRequests.toNat ≤ 1 ∧
      (p.continuousThreshold.toNat = 1 ∨
        0 < p.errorThreshold.toNat ∧ p.errorThreshold.toNat ≤ 100) := by
  simp only [isolatesAtOnce, Bool.and_eq_true, Bool.or_eq_true, decide_eq_true_eq, beq_iff_eq,
    UInt64.le_iff_toNat_le, UInt32.lt_iff_toNat_lt, UInt32.le_iff_toNat_le, UInt32.toNat_zero,
    and_assoc, ← UInt64.toNat_inj]
  exact Iff.rfl

theorem isIsolated_first_failure (p : IsolationPolicy) (h : s.Opens width now) :
    p.isIsolated (s.markFailure width now) = p.isolatesAtOnce := by
  obtain ⟨htotal, hfailed, hcontinuous⟩ := counts_rolled_of_opens h
  have htotal' : (s.markFailure width now).total.toNat = 1 := by
    simp only [markFailure, htotal]
    rfl
  have hcontinuous' : (s.markFailure width now).continuous.toNat = 1 := by
    simp only [markFailure, hcontinuous]
    rfl
  have hrate : (s.markFailure width now).failedRate.toNat = 100 := by
    simp only [failedRate, failures, markFailure, htotal, hfailed]
    rfl
  rw [Bool.eq_iff_iff, isIsolated_iff, isolatesAtOnce_iff, htotal', hcontinuous', hrate]
  refine and_congr_right ?_
  intro _
  omega

/-- **Within its window a failure does not free an isolated server.** -/
theorem isIsolated_markFailure {n : Nat} (h : p.isIsolated s = true) (tallied : s.Tallied n)
    (within : elapsed s.windowStart now ≤ width) (few : 100 * (n + 1) < UInt64.size) :
    p.isIsolated (s.markFailure width now) = true := by
  obtain ⟨hcount, hfailed, hcontinuous⟩ := tallied (by omega)
  have hmark := markFailure_of_le within
  have htotal' : (s.markFailure width now).total.toNat = s.total.toNat + 1 := by
    rw [hmark]
    exact toNat_succ (by omega)
  have hcontinuous' : (s.markFailure width now).continuous.toNat = s.continuous.toNat + 1 := by
    rw [hmark]
    exact toNat_succ (by omega)
  have hfailed' : (s.markFailure width now).failed.toNat = s.failed.toNat + 1 := by
    rw [hmark]
    exact toNat_succ (by omega)
  have hrate : s.failedRate.toNat ≤ (s.markFailure width now).failedRate.toNat := by
    rw [failedRate_toNat, failedRate_toNat, htotal', hfailed', Nat.min_eq_left hfailed,
      Nat.min_eq_left (Nat.succ_le_succ hfailed), Nat.min_eq_left (by omega),
      Nat.min_eq_left (by omega)]
    exact share_le_share_succ hfailed
  obtain ⟨henabled, hmin, hrule⟩ := isIsolated_iff.mp h
  rw [isIsolated_iff, htotal', hcontinuous']
  exact ⟨henabled, by omega, by omega⟩

/-! ### A success -/

/-- A success that opens a window frees the server. -/
theorem isIsolated_first_success (p : IsolationPolicy) (h : s.Opens width now) :
    p.isIsolated (s.markSuccess width now) = false := by
  obtain ⟨htotal, hfailed, -⟩ := counts_rolled_of_opens h
  have hcontinuous' : (s.markSuccess width now).continuous.toNat = 0 := rfl
  have hrate : (s.markSuccess width now).failedRate.toNat = 0 := by
    simp only [failedRate, failures, markSuccess, htotal, hfailed]
    rfl
  rw [← Bool.not_eq_true, isIsolated_iff, hcontinuous', hrate]
  omega

/-- **Within its window a success leaves an isolated server isolated just when the share of
    failures is still too large.** -/
theorem isIsolated_markSuccess (h : p.isIsolated s = true)
    (within : elapsed s.windowStart now ≤ width) :
    p.isIsolated (s.markSuccess width now) = p.tooLargeAShare { s with total := s.total + 1 } := by
  have hmark := markSuccess_of_le within
  have hcontinuous' : (s.markSuccess width now).continuous.toNat = 0 := rfl
  have htotal' : (s.markSuccess width now).total = s.total + 1 := by rw [hmark]
  have hrate : (s.markSuccess width now).failedRate =
      failedRate { s with total := s.total + 1 } := by
    rw [hmark]
    rfl
  obtain ⟨henabled, hmin, -⟩ := isIsolated_iff.mp h
  rw [Bool.eq_iff_iff, isIsolated_iff, tooLargeAShare_iff, hcontinuous', htotal', hrate]
  constructor
  · rintro ⟨-, -, hrow | hshare⟩
    · omega
    · exact hshare
  · intro hshare
    -- a count that has come round to zero has no share
    have hround : s.total.toNat + 1 < UInt64.size := by
      refine Nat.lt_of_not_le ?_
      intro hfull
      rw [succ_eq_zero hfull] at hshare
      have hnone : (failedRate { s with total := 0 }).toNat = 0 := rfl
      omega
    exact ⟨henabled, by rw [toNat_succ hround]; omega, .inr hshare⟩

/-- **Within its window a success isolates no server that has outcomes enough to be judged by.** -/
theorem not_isIsolated_markSuccess {n : Nat} (h : p.isIsolated s = false)
    (enough : p.minRequests ≤ s.total) (tallied : s.Tallied n)
    (within : elapsed s.windowStart now ≤ width) (few : 100 * (n + 1) < UInt64.size) :
    p.isIsolated (s.markSuccess width now) = false := by
  obtain ⟨hcount, hfailed, -⟩ := tallied (by omega)
  have hmark := markSuccess_of_le within
  have htotal' : (s.markSuccess width now).total.toNat = s.total.toNat + 1 := by
    rw [hmark]
    exact toNat_succ (by omega)
  have hfailed' : (s.markSuccess width now).failed = s.failed := by rw [hmark]
  have hcontinuous' : (s.markSuccess width now).continuous.toNat = 0 := rfl
  have hrate : (s.markSuccess width now).failedRate.toNat ≤ s.failedRate.toNat := by
    rw [failedRate_toNat, failedRate_toNat, htotal', hfailed', Nat.min_eq_left hfailed,
      Nat.min_eq_left (Nat.le_succ_of_le hfailed)]
    rcases Nat.eq_zero_or_pos s.total.toNat with hnone | hsome
    · -- of no outcomes none has failed
      simp [Nat.le_zero.mp (hnone ▸ hfailed)]
    · exact Nat.div_le_div_left (Nat.le_succ _) hsome
  rw [← Bool.not_eq_true, isIsolated_iff] at h ⊢
  rw [htotal', hcontinuous']
  rintro ⟨henabled, -, hrow | hshare⟩
  · omega
  · exact h ⟨henabled, UInt64.le_iff_toNat_le.mp enough, .inr (by omega)⟩

end IsolationPolicy

end ServiceFinder
