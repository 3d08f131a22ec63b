/-
  ServiceFinder/Timer.lean
  ========================
  **How long a timer runs.**

  Sleeps, late starts, the answers of a scripted registry and the time between two
  pulls take as long as a timer that is set for them.  No timer runs longer than
  thirty years, however far it is set.  The first pull alone waits for a moment and
  not for a timer, and comes when it should.
-/

namespace ServiceFinder

namespace Timer

/-- Thirty years of 365 days, in milliseconds. -/
def longest : Nat := 30 * 365 * 24 * 60 * 60 * 1000

/-- The milliseconds that a timer set to `ms` runs. -/
def run (ms : Nat) : Nat := min ms longest

theorem run_le (ms : Nat) : run ms ≤ ms := Nat.min_le_left ms longest

theorem run_pos {ms : Nat} (h : ms ≠ 0) : 0 < run ms :=
  Nat.lt_min.mpr ⟨Nat.pos_of_ne_zero h, by decide⟩

theorem run_of_le {ms : Nat} (h : ms ≤ longest) : run ms = ms := Nat.min_eq_left h

end Timer

end ServiceFinder
