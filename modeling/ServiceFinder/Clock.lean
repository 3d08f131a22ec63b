/-
  ServiceFinder/Clock.lean
  ========================
  **The clock that statistics and permits are stamped with.**

  Times are milliseconds in 64 bits.  A clock may be set to any time and moved on
  by any amount; moving on wraps at 2⁶⁴.  The time between two readings never goes
  below zero: a clock that was set back makes everything look recent.
-/

namespace ServiceFinder

/-- Milliseconds, 64 bits wide. -/
abbrev Millis := UInt64

/-- The time from `since` to `now`, zero when the clock has gone back. -/
def elapsed (since now : Millis) : Millis := if since ≤ now then now - since else 0

theorem elapsed_toNat (since now : Millis) :
    (elapsed since now).toNat = now.toNat - since.toNat := by
  unfold elapsed
  split
  · rename_i h; exact UInt64.toNat_sub_of_le _ _ h
  · rename_i h
    have : now.toNat < since.toNat := by
      rw [UInt64.le_iff_toNat_le] at h; omega
    simp only [UInt64.toNat_zero]; omega

structure Clock where
  now : Millis := 0
deriving DecidableEq, Repr, Inhabited

namespace Clock

def set (t : Millis) (_ : Clock) : Clock := ⟨t⟩

/-- Move on by `d`, modulo 2⁶⁴. -/
def advance (d : Millis) (c : Clock) : Clock := ⟨c.now + d⟩

end Clock

end ServiceFinder
