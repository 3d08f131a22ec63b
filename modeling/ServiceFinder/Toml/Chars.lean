/-
  ServiceFinder/Toml/Chars.lean
  =============================
  **White space, line ends and comments in TOML.**
-/
import ServiceFinder.Text.Scan

namespace ServiceFinder.Toml

open Scan

/-- Space or tab. -/
def isSpace (c : Char) : Bool := c == ' ' || c == '\t'

/-- A character that may stand in a comment, or bare in a string where quotes and
    backslashes are: no control character but the tab. -/
def isPlain (c : Char) : Bool := c == '\t' || (0x20 ≤ c.toNat && c.toNat != 0x7F)

def isDigit (c : Char) : Bool := '0' ≤ c && c ≤ '9'

def isHexDigit (c : Char) : Bool :=
  isDigit c || ('a' ≤ c && c ≤ 'f') || ('A' ≤ c && c ≤ 'F')

/-- The value of a digit in any base up to 16. -/
def digitValue (c : Char) : Nat :=
  if isDigit c then c.toNat - 48
  else if 'a' ≤ c then c.toNat - 87
  else c.toNat - 55

/-- The number that digits write in a base. -/
def number (base : Nat) (digits : List Char) : Nat :=
  digits.foldl (fun n c => n * base + digitValue c) 0

def spaces : Scan Unit := skipWhile isSpace

/-- A line feed, alone or after a carriage return. -/
def newline : Scan Unit := char '\n' <|> chars ['\r', '\n']

def comment : Scan Unit := do
  char '#'
  skipWhile isPlain

def lineEnd : Scan Unit := newline <|> done

/-- What may follow on a line after all that counts. -/
def lineRest : Scan Unit := do
  spaces
  let _ ← maybe comment
  lineEnd

/-- White space, line ends and comments, wherever they may break an array. -/
def gap : Scan Unit := do
  let _ ← many ((do let _ ← satisfy isSpace) <|> newline <|> comment)

end ServiceFinder.Toml
