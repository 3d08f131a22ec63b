/-
  ServiceFinder/Health/ServerStats.lean
  =====================================
  **The outcomes of one server, counted over a window of time.**

  Counts belong to a window that starts with the first outcome after the last
  window ran out.  A window is looked at only when an outcome is recorded: it runs
  out when more than its width has passed, so an outcome at exactly its width still
  belongs to it.  Reading never starts a new window.
-/
import ServiceFinder.Clock

namespace ServiceFinder

/-- `part` of `total` in whole percent, rounded down; zero of nothing is zero.  The
    hundredfold stops at 2⁶⁴ − 1 instead of overflowing. -/
def percentage (part total : UInt64) : UInt32 :=
  if total = 0 then 0
  else UInt32.ofNat (min (part.toNat * 100) (UInt64.size - 1) / total.toNat)

structure ServerStats where
  /-- Outcomes in the current window. -/
  total : UInt64 := 0
  failed : UInt64 := 0
  /-- Failures since the last success in the current window. -/
  continuous : UInt64 := 0
  windowStart : Millis
  /-- The time of the latest outcome. -/
  lastVisit : Millis
  /-- The time of the latest success. -/
  lastActive : Millis
deriving DecidableEq, Repr

namespace ServerStats

/-- A server first heard of at `now`. -/
def startingAt (now : Millis) : ServerStats :=
  { windowStart := now, lastVisit := now, lastActive := now }

/-- The window that an outcome at `now` belongs to. -/
def rolled (width now : Millis) (s : ServerStats) : ServerStats :=
  if width < elapsed s.windowStart now then
    { s with total := 0, failed := 0, continuous := 0, windowStart := now }
  else s

def markSuccess (width now : Millis) (s : ServerStats) : ServerStats :=
  let s := s.rolled width now
  { s with total := s.total + 1, continuous := 0,
           lastVisit := max s.lastVisit now, lastActive := max s.lastActive now }

def markFailure (width now : Millis) (s : ServerStats) : ServerStats :=
  let s := s.rolled width now
  { s with total := s.total + 1, failed := s.failed + 1, continuous := s.continuous + 1,
           lastVisit := max s.lastVisit now }

def mark (success : Bool) (width now : Millis) (s : ServerStats) : ServerStats :=
  if success then s.markSuccess width now else s.markFailure width now

/-- The failures that a rate is computed from: never more than the outcomes. -/
def failures (s : ServerStats) : UInt64 := min s.failed s.total

def failedRate (s : ServerStats) : UInt32 := percentage s.failures s.total

def successRate (s : ServerStats) : UInt32 := percentage (s.total - s.failures) s.total

end ServerStats

end ServiceFinder
