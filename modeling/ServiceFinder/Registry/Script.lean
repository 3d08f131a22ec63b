/-
  ServiceFinder/Registry/Script.lean
  ==================================
  **A registry that answers as it was told to.**

  Each key has a list of deliveries, which are used up one per lookup; the last one
  is repeated for ever.  A key without any is not found.  Each delivery is held back
  by a timer.
-/
import ServiceFinder.Registry.Basic
import ServiceFinder.Timer

namespace ServiceFinder

structure Script where
  lines : List (ServiceKey × List Delivery) := []
deriving DecidableEq, Repr, Inhabited

namespace Script

/-- Answer lookups of `key` with these deliveries from now on. -/
def serve (key : ServiceKey) (deliveries : List Delivery) (s : Script) : Script :=
  ⟨(key, deliveries) :: s.lines.filter (·.1 != key)⟩

def next (key : ServiceKey) (s : Script) : Delivery × Script :=
  match s.lines.lookup key with
  | none | some [] => ({ answer := .notFound }, s)
  | some [last] => (last, s)
  | some (first :: rest) => (first, s.serve key rest)

instance : Registry Script where
  lookup key s := let (d, s) := s.next key; ({ d with delay := Timer.run d.delay }, s)

end Script

end ServiceFinder
