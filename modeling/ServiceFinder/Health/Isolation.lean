/-
  ServiceFinder/Health/Isolation.lean
  ===================================
  **When a server is isolated, and when it is probed.**

  A server with enough outcomes in its window is isolated for too many failures in a
  row or for too large a share of failures; a threshold of zero turns its rule off.
  An isolated server that has been left alone for long enough is probed by one
  invocation, the one that is granted the permit.
-/
import ServiceFinder.Health.ServerStats
import ServiceFinder.Health.Permit

namespace ServiceFinder

structure IsolationPolicy where
  enabled : Bool := true
  /-- Isolate at this percentage of failures. -/
  errorThreshold : UInt32 := 0
  /-- Isolate at this many failures in a row. -/
  continuousThreshold : UInt64 := 5
  /-- Judge no server by fewer outcomes. -/
  minRequests : UInt64 := 5
  /-- Probe after more than this time without an outcome. -/
  singleTestTime : Millis := 60000
deriving DecidableEq, Repr, Inhabited

inductive Availability where
  | available
  | isolated
  | probe
deriving DecidableEq, Repr

namespace Availability

def name : Availability → String
  | available => "available"
  | isolated => "isolated"
  | probe => "probe"

def isSelectable (a : Availability) : Bool := a != isolated

end Availability

namespace IsolationPolicy

def tooManyInARow (p : IsolationPolicy) (s : ServerStats) : Bool :=
  0 < p.continuousThreshold && p.continuousThreshold ≤ s.continuous

def tooLargeAShare (p : IsolationPolicy) (s : ServerStats) : Bool :=
  0 < p.errorThreshold && p.errorThreshold ≤ s.failedRate

def isIsolated (p : IsolationPolicy) (s : ServerStats) : Bool :=
  p.enabled && p.minRequests ≤ s.total && (p.tooManyInARow s || p.tooLargeAShare s)

/-- Left alone for long enough to be probed. -/
def isQuiet (p : IsolationPolicy) (now : Millis) (s : ServerStats) : Bool :=
  p.singleTestTime < elapsed s.lastVisit now

/-- Judge a server for invocation `i`.  The permit is applied for only when the
    server is isolated and quiet; the first component tells how that went. -/
def check (p : IsolationPolicy) (now : Millis) (i : Invocation) (s : ServerStats)
    (permit : Permit) : Option Bool × Availability × Permit :=
  if p.isIsolated s then
    if p.isQuiet now s then
      let (granted, permit) := permit.apply now i
      (some granted, if granted then .probe else .isolated, permit)
    else (none, .isolated, permit)
  else (none, .available, permit)

end IsolationPolicy

end ServiceFinder
