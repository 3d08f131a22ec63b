/-
  ServiceFinder/Health/Tracker.lean
  =================================
  **The statistics of every server.**

  Each server that was ever asked about has a record.  A server that disappears
  loses its record, and starts over with a fresh one should it come back; whoever
  still holds the old record keeps seeing what it last said.  Records are therefore
  numbered and never reused, and the tracker says which number is current for
  which server.
-/
import ServiceFinder.Health.ServerStats

namespace ServiceFinder

abbrev RecordId := Nat

structure Tracker where
  /-- Every record ever made, in the order in which they were made. -/
  records : List ServerStats := []
  /-- The current record of each server. -/
  current : List (String × RecordId) := []
deriving DecidableEq, Repr, Inhabited

namespace Tracker

def recordOf? (t : Tracker) (server : String) : Option RecordId := t.current.lookup server

def record? (t : Tracker) (r : RecordId) : Option ServerStats := t.records[r]?

/-- The statistics of a server that has a record. -/
def get? (t : Tracker) (server : String) : Option ServerStats :=
  (t.recordOf? server).bind t.record?

def size (t : Tracker) : Nat := t.current.length

/-- The record of a server, made at `now` if it has none. -/
def observe (now : Millis) (server : String) (t : Tracker) : RecordId × Tracker :=
  match t.recordOf? server with
  | some r => (r, t)
  | none =>
    (t.records.length,
      { records := t.records ++ [.startingAt now],
        current := t.current ++ [(server, t.records.length)] })

/-- The statistics of a server, from `now` on if it was not observed before. -/
def statsFor (now : Millis) (server : String) (t : Tracker) : ServerStats × Tracker :=
  let (r, t) := t.observe now server
  ((t.record? r).getD (.startingAt now), t)

/-- Record an outcome of a server. -/
def mark (success : Bool) (width now : Millis) (server : String) (t : Tracker) : Tracker :=
  let (r, t) := t.observe now server
  { t with records := t.records.modify r (·.mark success width now) }

/-- Forget every server that is not in `live`. -/
def retain (live : List String) (t : Tracker) : Tracker :=
  { t with current := t.current.filter (live.contains ·.1) }

end Tracker

end ServiceFinder
