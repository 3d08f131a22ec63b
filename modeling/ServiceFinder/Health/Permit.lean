/-
  ServiceFinder/Health/Permit.lean
  ================================
  **The permit to probe an isolated server.**

  There is one permit for all servers.  Whoever is granted it holds a token that
  names the invocation and expires after a fixed time; until then every other
  application is refused.  A token goes back when the invocation that holds it is
  over, even if that is reported late, and never by another invocation's report.
-/
import ServiceFinder.Clock

namespace ServiceFinder

/-- The name of one invocation of a service. -/
abbrev Invocation := String

structure Token where
  invocation : Invocation
  grantedAt : Millis
  ttl : Millis
deriving DecidableEq, Repr

/-- A token expires once its time to live has passed in full. -/
def Token.isExpired (now : Millis) (t : Token) : Bool := t.ttl ≤ elapsed t.grantedAt now

structure Permit where
  ttl : Millis
  /-- The latest token that was neither given back nor replaced. -/
  token : Option Token := none
deriving DecidableEq, Repr

namespace Permit

/-- Whether an application at `now` would be granted. -/
def isFree (now : Millis) (p : Permit) : Bool := p.token.all (·.isExpired now)

def apply (now : Millis) (i : Invocation) (p : Permit) : Bool × Permit :=
  if p.isFree now then (true, { p with token := some ⟨i, now, p.ttl⟩ }) else (false, p)

/-- Take the permit back from whoever holds it. -/
def release (p : Permit) : Permit := { p with token := none }

/-- Give the permit back if `i` holds it, expired or not. -/
def checkAndRelease (i : Invocation) (p : Permit) : Bool × Permit :=
  if p.token.any (·.invocation == i) then (true, p.release) else (false, p)

/-- The invocation that holds the permit and may still use it. -/
def holder (now : Millis) (p : Permit) : Option Invocation :=
  (p.token.filter (!·.isExpired now)).map (·.invocation)

end Permit

end ServiceFinder
