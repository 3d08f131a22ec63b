/-
  ServiceFinder/Registry/Basic.lean
  =================================
  **Where instance lists come from.**

  A registry is asked for the instances of a key and answers after a delay.  An
  answer is the list with a revision, the statement that there is no such service,
  or a failure.  A registry is any type with such a lookup; looking up may change
  it, and two equal questions may be answered differently.
-/
import ServiceFinder.Failure
import ServiceFinder.Service.Instance

namespace ServiceFinder

/-- The instances of a key at one moment, marked with the registry's revision. -/
structure Listing where
  instances : List Instance := []
  revision : Option String := none
deriving DecidableEq, Repr, Inhabited

inductive Answer where
  | found (listing : Listing)
  | notFound
  | failed (cause : LookupFailure)
deriving DecidableEq, Repr

/-- An answer and the milliseconds that it takes. -/
structure Delivery where
  answer : Answer
  delay : Nat := 0
deriving DecidableEq, Repr

class Registry (σ : Type) where
  /-- The answer to a lookup made now. -/
  lookup : ServiceKey → σ → Delivery × σ

end ServiceFinder
