/-
  ServiceFinder/Health/Monitor.lean
  =================================
  **The health of all servers, under one clock.**

  The monitor ties the tracker, the isolation policy and the permit together: a
  server is checked by its statistics at the clock's time, and the end of an
  invocation is recorded for its server and gives the permit back if the invocation
  held it.  Every application for the permit, and every server passed over as
  isolated, is measured.
-/
import ServiceFinder.Health.Isolation
import ServiceFinder.Health.Tracker
import ServiceFinder.Measurement

namespace ServiceFinder

/-- What the monitor was asked, and what it answered. -/
inductive Verdict where
  | checked (server : String) (answer : Availability)
  | applied (invocation : Invocation) ( granted : Bool)
deriving DecidableEq, Repr

structure Monitor where
  clock : Clock := {}
  /-- The width of a window of statistics. -/
  window : Millis := 60000
  policy : IsolationPolicy := {}
  permit : Permit := { ttl := 60000 }
  tracker : Tracker := {}
  measured : List Measurement := []
  /-- Every check and every application, latest first. -/
  history : List Verdict := []
deriving DecidableEq, Repr

namespace Monitor

def now (m : Monitor) : Millis := m.clock.now

def holder (m : Monitor) : Option Invocation := m.permit.holder m.now

def setClock (t : Millis) (m : Monitor) : Monitor := { m with clock := m.clock.set t }

def advanceClock (d : Millis) (m : Monitor) : Monitor :=
  { m with clock := m.clock.advance d }

/-- Apply for the permit. -/
def apply (i : Invocation) (m : Monitor) : Bool × Monitor :=
  let (granted, permit) := m.permit.apply m.now i
  (granted, { m with permit, measured := .permit granted :: m.measured,
                     history := .applied i granted :: m.history })

def release (m : Monitor) : Monitor := { m with permit := m.permit.release }

def checkAndRelease (i : Invocation) (m : Monitor) : Bool × Monitor :=
  let (released, permit) := m.permit.checkAndRelease i
  (released, { m with permit })

/-- The statistics of a server, observed from now on if it was not before. -/
def statsFor (server : String) (m : Monitor) : ServerStats × Monitor :=
  let (stats, tracker) := m.tracker.statsFor m.now server
  (stats, { m with tracker })

def isIsolated (m : Monitor) (s : ServerStats) : Bool := m.policy.isIsolated s

/-- Record an outcome of a server. -/
def mark (success : Bool) (server : String) (m : Monitor) : Monitor :=
  { m with tracker := m.tracker.mark success m.window m.now server }

/-- An invocation of a server is over: record its outcome, then give the permit
    back if it held it. -/
def finish (server : String) (success : Bool) (i : Invocation) (m : Monitor) : Monitor :=
  ((m.mark success server).checkAndRelease i).2

/-- Judge a server for an invocation, observing it from now on. -/
def check (server : String) (i : Invocation) (m : Monitor) : Availability × Monitor :=
  let (stats, m) := m.statsFor server
  let (applied?, a, permit) := m.policy.check m.now i stats m.permit
  let m := match applied? with
    | some granted =>
      { m with permit, measured := .permit granted :: m.measured,
               history := .applied i granted :: m.history }
    | none => { m with permit }
  (a, { m with measured := (if a = .isolated then [.isolated] else []) ++ m.measured,
               history := .checked server a :: m.history })

/-- Forget every server that is not in `live`. -/
def retain (live : List String) (m : Monitor) : Monitor :=
  { m with tracker := m.tracker.retain live }

end Monitor

end ServiceFinder
