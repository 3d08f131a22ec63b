/-
  ServiceFinder/Logging/Level.lean
  ================================
  **Words that name a log level.**

  A level is written as a word, in any case, or as a number from 0 to 5.
-/

namespace ServiceFinder.LogLevel

def words : List String := ["error", "warn", "info", "debug", "trace", "off"]

def isDigit (c : Char) : Bool := '0' ≤ c && c ≤ '9'

/-- A number without a sign, or with a plus sign. -/
def unsigned? (cs : List Char) : Option Nat :=
  let ds := match cs with
    | '+' :: ds => ds
    | ds => ds
  if ds.isEmpty || !ds.all isDigit then none
  else some (ds.foldl (fun n d => n * 10 + (d.toNat - 48)) 0)

def isNumbered (cs : List Char) : Bool := (unsigned? cs).any (· ≤ 5)

/-- Whether a text names a level; the empty text stands for one. -/
def isLevel (cs : List Char) : Bool :=
  cs.isEmpty || isNumbered cs || words.contains (String.ofList (cs.map Char.toLower))

end ServiceFinder.LogLevel
