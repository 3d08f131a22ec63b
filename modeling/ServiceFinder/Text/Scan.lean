/-
  ServiceFinder/Text/Scan.lean
  ============================
  **Reading a text from its beginning.**

  A scan takes a value off the front of a text and leaves the rest, or fails.  Of
  two scans tried in turn the second starts where the first one did.

  Whatever is repeated takes at least one character each time, so nothing is
  repeated more often than the whole text has characters.  That number is handed to
  every scan, as a bound for its repetitions.
-/

namespace ServiceFinder

abbrev Scan := ReaderT Nat (StateT (List Char) Option)

namespace Scan

def satisfy (p : Char → Bool) : Scan Char := fun
  | _, c :: rest => if p c then some (c, rest) else none
  | _, [] => none

def char (c : Char) : Scan Unit := fun
  | _, d :: rest => if c = d then some ((), rest) else none
  | _, [] => none

/-- These characters, one after the other. -/
def chars : List Char → Scan Unit
  | [] => pure ()
  | c :: cs => do char c; chars cs

/-- The next character, which stays where it is. -/
def peek : Scan Char := fun
  | _, c :: rest => some (c, c :: rest)
  | _, [] => none

/-- Nothing is left. -/
def done : Scan Unit := fun _ cs => if cs.isEmpty then some ((), cs) else none

def takeWhile (p : Char → Bool) : Scan (List Char) := fun _ cs =>
  some (cs.takeWhile p, cs.dropWhile p)

def skipWhile (p : Char → Bool) : Scan Unit := fun _ cs => some ((), cs.dropWhile p)

/-- One character of the first kind, then as many as there are. -/
def takeWhile1 (p : Char → Bool) : Scan (List Char) := do
  let c ← satisfy p
  return c :: (← takeWhile p)

def maybe {α : Type} (s : Scan α) : Scan (Option α) := (some <$> s) <|> pure none

/-- As often as it succeeds, but at most so many times. -/
def atMost {α : Type} (s : Scan α) : Nat → Scan (List α)
  | 0 => pure []
  | n + 1 => (do let a ← s; return a :: (← atMost s n)) <|> pure []

/-- As often as it succeeds. -/
def many {α : Type} (s : Scan α) : Scan (List α) := do atMost s (← read)

/-- One or more, with something in between. -/
def sepBy1 {α : Type} (s : Scan α) (between : Scan Unit) : Scan (List α) := do
  let first ← s
  return first :: (← many (do between; s))

/-- None or more, with something in between. -/
def sepBy {α : Type} (s : Scan α) (between : Scan Unit) : Scan (List α) :=
  sepBy1 s between <|> pure []

/-- What a scan makes of a whole text. -/
def run? {α : Type} (s : Scan α) (cs : List Char) : Option α :=
  match s cs.length cs with
  | some (a, []) => some a
  | _ => none

end Scan

end ServiceFinder
