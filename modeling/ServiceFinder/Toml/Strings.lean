/-
  ServiceFinder/Toml/Strings.lean
  ===============================
  **Strings and keys in TOML.**

  A string between double quotes has escapes, one between single quotes has none.
  Between three quotes it runs over lines: a line end right after the opening is
  dropped, every other one counts as a line feed, and up to two quotes may stand
  anywhere, also right before the closing.
-/
import ServiceFinder.Toml.Chars

namespace ServiceFinder.Toml

open Scan

/-- The character of a number, if there is one. -/
def scalar? (n : Nat) : Option Char :=
  if n < 0xD800 ∨ (0xDFFF < n ∧ n < 0x110000) then some (Char.ofNat n) else none

/-- Exactly `n` hexadecimal digits. -/
def hexDigits : Nat → Scan (List Char)
  | 0 => pure []
  | n + 1 => do return (← satisfy isHexDigit) :: (← hexDigits n)

/-- A character by its number, in exactly `n` digits. -/
def hexEscape (n : Nat) : Scan Char := do
  match scalar? (number 16 (← hexDigits n)) with
  | some c => return c
  | none => failure

/-- A backslash and what it stands for. -/
def escape : Scan Char := do
  char '\\'
  match ← satisfy fun _ => true with
  | 'b' => return Char.ofNat 8
  | 't' => return '\t'
  | 'n' => return '\n'
  | 'f' => return Char.ofNat 12
  | 'r' => return '\r'
  | '"' => return '"'
  | '\\' => return '\\'
  | 'u' => hexEscape 4
  | 'U' => hexEscape 8
  | _ => failure

def isBasic (c : Char) : Bool := isPlain c && c != '"' && c != '\\'

def isLiteral (c : Char) : Bool := isPlain c && c != '\''

def basicString : Scan (List Char) := do
  char '"'
  let cs ← many (satisfy isBasic <|> escape)
  char '"'
  return cs

def literalString : Scan (List Char) := do
  char '\''
  let cs ← takeWhile isLiteral
  char '\''
  return cs

/-! ### Strings over several lines -/

/-- One or two quotes that another character follows. -/
def quotes (q : Char) : Scan (List Char) := do
  let qs ← (do chars [q, q]; return [q, q]) <|> (do char q; return [q])
  if (← peek) = q then failure else return qs

/-- Three quotes, and up to two more in front of them. -/
def closing (q : Char) : Scan (List Char) :=
  (do chars [q, q, q, q, q]; return [q, q]) <|> (do chars [q, q, q, q]; return [q])
    <|> (do chars [q, q, q]; return [])

def lineFeed : Scan (List Char) := do
  newline
  return ['\n']

/-- A backslash at the end of a line, up to what comes next. -/
def foldedLines : Scan (List Char) := do
  char '\\'
  spaces
  newline
  let _ ← many ((do let _ ← satisfy isSpace) <|> newline)
  return []

def opening (q : Char) : Scan Unit := do
  chars [q, q, q]
  let _ ← maybe newline

def longString (q : Char) (piece : Scan (List Char)) : Scan (List Char) := do
  opening q
  let pieces ← many (piece <|> lineFeed <|> quotes q)
  return pieces.flatten ++ (← closing q)

def basicLongString : Scan (List Char) :=
  longString '"' (takeWhile1 isBasic <|> foldedLines <|> (do return [← escape]))

def literalLongString : Scan (List Char) := longString '\'' (takeWhile1 isLiteral)

def string : Scan String := do
  let cs ← basicLongString <|> basicString <|> literalLongString <|> literalString
  return String.ofList cs

/-! ### Keys -/

def isBareKey (c : Char) : Bool :=
  isDigit c || ('a' ≤ c && c ≤ 'z') || ('A' ≤ c && c ≤ 'Z') || c == '_' || c == '-'

def simpleKey : Scan String := do
  let cs ← takeWhile1 isBareKey <|> basicString <|> literalString
  return String.ofList cs

/-- The deepest that keys, arrays and tables on a line may go. -/
def depthLimit : Nat := 80

/-- A key and the tables on the way to it. -/
def key : Scan (List String × String) := do
  let names ← sepBy1 (do spaces; let k ← simpleKey; spaces; return k) (char '.')
  match names.getLast? with
  | some last => if names.length < depthLimit then return (names.dropLast, last) else failure
  | none => failure

end ServiceFinder.Toml
