/-
  ServiceFinder/Proofs/Health/Judging.lean
  ========================================
  **Within a window failures only tell against a server, and successes only for it.**

  A server is judged by the outcomes of the window on record alone.  Which outcomes these are is
  told beside the statistics (`Reached`), for a clock that moves in whatever way: whether an
  outcome begins a window is a matter of its time and of the beginning on record.  From this the
  order of the counters follows, and from the order that a failure frees nobody and that a
  success isolates nobody who was judged already.
-/
import ServiceFinder.Proofs.Health.Windows

namespace ServiceFinder

namespace ServerStats

/-- The statistics that a server can have come to, with the outcomes of the window on record. -/
inductive Reached (width : Millis) : List Mark → ServerStats → Prop
  | start (t₀ : Millis) : Reached width [] (startingAt t₀)
  | within {ms : List Mark} {s : ServerStats} (m : Mark) :
      Reached width ms s → elapsed s.windowStart m.time ≤ width →
        Reached width (ms ++ [m]) (s.mark m.success width m.time)
  | next {ms : List Mark} {s : ServerStats} (m : Mark) :
      Reached width ms s → width < elapsed s.windowStart m.time →
        Reached width [m] (s.mark m.success width m.time)

namespace Reached

variable {width : Millis} {ms : List Mark} {s : ServerStats}

theorem counts (h : Reached width ms s) : Counts ms s := by
  induction h with
  | start t₀ => exact ⟨rfl, rfl, rfl⟩
  | within m _ within ih => exact ih.mark m within
  | next m _ late _ => exact counts_first m late

theorem tallied (h : Reached width ms s) : s.Tallied ms.length := by
  intro few
  obtain ⟨htotal, -, -, hcontinuous, hfailed⟩ := h.counts.toNat few
  exact ⟨Nat.le_of_eq htotal, UInt64.le_iff_toNat_le.mp hfailed,
    UInt64.le_iff_toNat_le.mp hcontinuous⟩

/-- One more outcome leads on, whenever it comes. -/
theorem mark (h : Reached width ms s) (m : Mark) :
    ∃ ms', Reached width ms' (s.mark m.success width m.time) := by
  by_cases late : width < elapsed s.windowStart m.time
  · exact ⟨_, h.next m late⟩
  · exact ⟨_, h.within m (UInt64.not_lt.mp late)⟩

end Reached

/-- No row of outcomes and clock moves leads anywhere else, also if the clock goes back. -/
theorem reached_run (width : Millis) (c : Clock) (es : List Event) :
    ∃ ms, Reached width ms (run width c (startingAt c.now) es) := by
  have hrow (rest : List Mark) {ms : List Mark} {s : ServerStats} (h : Reached width ms s) :
      ∃ ms', Reached width ms' (rest.foldl (fun s m => s.mark m.success width m.time) s) := by
    induction rest generalizing ms s with
    | nil => exact ⟨ms, h⟩
    | cons m rest ih =>
      obtain ⟨_, hmark⟩ := h.mark m
      exact ih hmark
  rw [run_eq_foldl]
  exact hrow _ (.start c.now)

end ServerStats

namespace IsolationPolicy

open ServerStats

/-- **Isolation is monotone within a window.**  Under every policy, and whatever a server has been
    through, its total is the number of outcomes `ms` in its window, unless these are so many
    that the counter has come round.  While a hundred times one more of them fits into 64 bits, an
    outcome that begins no window changes the judgement one way only: a failure never frees an
    isolated server, and a success never isolates one that is not, if it has outcomes enough to
    be judged by. -/
theorem isolation_monotone_in_window (p : IsolationPolicy) {width now : Millis} {ms : List Mark}
    {s : ServerStats} (reached : Reached width ms s)
    (few : 100 * (ms.length + 1) < UInt64.size) (within : elapsed s.windowStart now ≤ width) :
    s.total.toNat = ms.length ∧
      (p.isIsolated s = true → p.isIsolated (s.markFailure width now) = true) ∧
      (p.isIsolated s = false → p.minRequests ≤ s.total →
        p.isIsolated (s.markSuccess width now) = false) := by
  refine ⟨(reached.counts.toNat (by omega)).1, ?_, ?_⟩
  · intro h
    exact isIsolated_markFailure h reached.tallied within few
  · intro h enough
    exact not_isIsolated_markSuccess h enough reached.tallied within few

namespace Halves

/-- Isolates at every other outcome. -/
def policy : IsolationPolicy :=
  { errorThreshold := 50, continuousThreshold := 100, minRequests := 4 }

/-- Two failures and two successes, taking turns; the window before them has run out, and the
    clock went back once. -/
def marks : List Mark := [⟨700, false⟩, ⟨710, true⟩, ⟨650, false⟩, ⟨720, true⟩]

def even : ServerStats := tally 600 0 (⟨0, true⟩ :: marks)

/-- A third success. -/
def more : List Mark := marks ++ [⟨730, true⟩]

def better : ServerStats := even.markSuccess 600 730

theorem reached_even : Reached 600 marks even := by
  have opened : Reached 600 [⟨0, true⟩] (tally 600 0 [⟨0, true⟩]) :=
    (Reached.start 0).within ⟨0, true⟩ (by decide)
  have first : Reached 600 [⟨700, false⟩] (tally 600 0 [⟨0, true⟩, ⟨700, false⟩]) :=
    opened.next ⟨700, false⟩ (by decide)
  exact ((first.within ⟨710, true⟩ (by decide)).within ⟨650, false⟩ (by decide)).within ⟨720, true⟩
    (by decide)

theorem reached_better : Reached 600 more better :=
  reached_even.within ⟨730, true⟩ (by decide)

end Halves

/-- At one half the server is isolated, and another failure does not free it; a success does, and
    after that no success isolates it. -/
theorem isolation_monotone_about_one_half :
    (Reached 600 Halves.marks Halves.even ∧
      100 * (Halves.marks.length + 1) < UInt64.size ∧
      elapsed Halves.even.windowStart 730 ≤ 600 ∧ Halves.policy.isIsolated Halves.even = true ∧
      Halves.policy.isIsolated (Halves.even.markFailure 600 730) = true) ∧
    (Reached 600 Halves.more Halves.better ∧
      100 * (Halves.more.length + 1) < UInt64.size ∧
      elapsed Halves.better.windowStart 740 ≤ 600 ∧
      Halves.policy.isIsolated Halves.better = false ∧
      Halves.policy.minRequests ≤ Halves.better.total ∧
      Halves.policy.isIsolated (Halves.better.markSuccess 600 740) = false) := by
  have hfew : 100 * (Halves.marks.length + 1) < UInt64.size := by decide
  have hfew' : 100 * (Halves.more.length + 1) < UInt64.size := by decide
  have hwithin : elapsed Halves.even.windowStart 730 ≤ 600 := by decide
  have hwithin' : elapsed Halves.better.windowStart 740 ≤ 600 := by decide
  have hisolated : Halves.policy.isIsolated Halves.even = true := by decide
  have hfree : Halves.policy.isIsolated Halves.better = false := by decide
  have henough : Halves.policy.minRequests ≤ Halves.better.total := by decide
  obtain ⟨-, hfailure, -⟩ :=
    isolation_monotone_in_window Halves.policy Halves.reached_even hfew hwithin
  obtain ⟨-, -, hsuccess⟩ :=
    isolation_monotone_in_window Halves.policy Halves.reached_better hfew' hwithin'
  exact ⟨⟨Halves.reached_even, hfew, hwithin, hisolated, hfailure hisolated⟩,
    Halves.reached_better, hfew', hwithin', hfree, henough, hsuccess hfree henough⟩

end IsolationPolicy

end ServiceFinder
