/-
  ServiceFinder/Balance/Rule.lean
  ===============================
  **Whose turn it is.**

  A rule picks one of a list of servers and remembers what it needs for the next
  pick.  Rotation counts its picks in 64 bits and takes the server at that position,
  modulo the number of servers.  The random rule draws the position; nothing is known of
  the generator but that it draws a position that there is (`Draws`).  Neither rule uses up
  a turn on an empty list.
-/

namespace ServiceFinder

structure Rotation where
  /-- Turns taken so far, modulo 2⁶⁴. -/
  turns : UInt64 := 0
deriving DecidableEq, Repr, Inhabited

/-- The server whose turn it is. -/
def Rotation.next {α : Type} (servers : List α) (r : Rotation) : Option α × Rotation :=
  if servers.isEmpty then (none, r)
  else (servers[r.turns.toNat % servers.length]?, ⟨r.turns + 1⟩)

/-- What a random generator is going to draw. -/
structure Draws where
  /-- The `k`-th draw from now on if it is made among `n + 1` positions. -/
  draw : Nat → (n : Nat) → Fin (n + 1)

/-- The generator that draws the first position again and again. -/
instance : Inhabited Draws := ⟨⟨fun _ _ => 0⟩⟩

namespace Draws

/-- The generator after one draw. -/
def tail (d : Draws) : Draws := ⟨fun k => d.draw (k + 1)⟩

/-- A server drawn from the list. -/
def next {α : Type} (d : Draws) : List α → Option α × Draws
  | [] => (none, d)
  | server :: rest => ((server :: rest)[(d.draw 0 rest.length).val]?, d.tail)

end Draws

inductive RuleKind where
  | roundRobin
  | random
deriving DecidableEq, Repr, Inhabited

namespace RuleKind

/-- The spelling in a configuration. -/
def name : RuleKind → String
  | roundRobin => "round_robin"
  | random => "random"

def all : List RuleKind := [roundRobin, random]

def ofName? (s : String) : Option RuleKind := all.find? (·.name == s)

end RuleKind

inductive Rule where
  | roundRobin (rotation : Rotation)
  | random (draws : Draws)

namespace Rule

/-- A rule that has not picked yet.  Only the random rule is going to need `draws`. -/
def ofKind (draws : Draws) : RuleKind → Rule
  | .roundRobin => .roundRobin {}
  | .random => .random draws

def next {α : Type} (servers : List α) : Rule → Option α × Rule
  | .roundRobin r => let (s, r) := r.next servers; (s, .roundRobin r)
  | .random d => let (s, d) := d.next servers; (s, .random d)

end Rule

end ServiceFinder
