/-
  ServiceFinder/Measurement.lean
  ==============================
  **What is counted.**

  Everything worth counting is kept as a list of measurements, latest first.  A
  counter's value is the number of its measurements; the gauge shows the latest
  one.  What was never measured has no value.
-/
import ServiceFinder.Directory.Status

namespace ServiceFinder

inductive Measurement where
  /-- A view was refreshed, with this outcome. -/
  | refreshed (status : CacheStatus)
  /-- A view was dropped because its service is gone. -/
  | evicted
  /-- A periodic sweep was skipped because another one had the lock. -/
  | sweepDropped
  /-- A server was passed over as isolated. -/
  | isolated
  /-- The permit to probe was applied for. -/
  | permit ( granted : Bool)
  /-- The number of cached views. -/
  | cached (views : Nat)
deriving DecidableEq, Repr

namespace Measurement

/-- The counters, each under its public name; a label stands in braces. -/
def counters : List (String × Measurement) :=
  CacheStatus.all.map (fun s =>
      ("discovery_cache_refresh_total\x7bstatus=" ++ s.name ++ "\x7d", refreshed s))
    ++ [("discovery_cache_evictions_total", evicted),
        ("discovery_refresh_dropped_total", sweepDropped),
        ("discovery_server_isolated_total", isolated),
        ("discovery_trying_chance_total\x7bresult=granted\x7d", permit true),
        ("discovery_trying_chance_total\x7bresult=denied\x7d", permit false)]

/-- The value of every counter that was ever touched. -/
def totals (ms : List Measurement) : List (String × Nat) :=
  (counters.map fun c => (c.1, ms.count c.2)).filter (·.2 != 0)

/-- The value that a gauge measurement sets. -/
def views? : Measurement → Option Nat
  | cached n => some n
  | _ => none

/-- The gauge under its public name, once it was set. -/
def gauges (ms : List Measurement) : List (String × Nat) :=
  match ms.findSome? views? with
  | some n => [("discovery_cache_entries", n)]
  | none => []

end Measurement

end ServiceFinder
