/-
  ServiceFinder/Json/Reading.lean
  ===============================
  **Reading a JSON text.**

  Of several fields of one name the last one stands.  A number is an integer only if
  it is written as one, without a point or an exponent, and is not minus zero.
-/
import ServiceFinder.Document.Basic
import ServiceFinder.Text.Scan

namespace ServiceFinder.Json

open Scan

/-- How deep arrays and objects may nest. -/
def depthLimit : Nat := 127

def isBlank (c : Char) : Bool := c == ' ' || c == '\t' || c == '\n' || c == '\r'

def blanks : Scan Unit := skipWhile isBlank

/-- A character, and the white space after it. -/
def mark (c : Char) : Scan Unit := do
  char c
  blanks

/-! ### Strings -/

def isDigit (c : Char) : Bool := '0' ≤ c && c ≤ '9'

def isHexDigit (c : Char) : Bool :=
  isDigit c || ('a' ≤ c && c ≤ 'f') || ('A' ≤ c && c ≤ 'F')

def hexValue (c : Char) : Nat :=
  if isDigit c then c.toNat - 48 else if 'a' ≤ c then c.toNat - 87 else c.toNat - 55

/-- Four hexadecimal digits. -/
def unit : Scan Nat := do
  let a ← satisfy isHexDigit
  let b ← satisfy isHexDigit
  let c ← satisfy isHexDigit
  let d ← satisfy isHexDigit
  return ((hexValue a * 16 + hexValue b) * 16 + hexValue c) * 16 + hexValue d

/-- A character by its number; beyond 16 bits it takes a pair. -/
def numbered : Scan Char := do
  let high ← unit
  if 0xD800 ≤ high ∧ high < 0xDC00 then
    chars ['\\', 'u']
    let low ← unit
    if 0xDC00 ≤ low ∧ low < 0xE000 then
      return Char.ofNat (0x10000 + (high - 0xD800) * 0x400 + (low - 0xDC00))
    else failure
  else if 0xDC00 ≤ high ∧ high < 0xE000 then failure
  else return Char.ofNat high

def escape : Scan Char := do
  char '\\'
  match ← satisfy fun _ => true with
  | '"' => return '"'
  | '\\' => return '\\'
  | '/' => return '/'
  | 'b' => return Char.ofNat 8
  | 'f' => return Char.ofNat 12
  | 'n' => return '\n'
  | 'r' => return '\r'
  | 't' => return '\t'
  | 'u' => numbered
  | _ => failure

def isPlain (c : Char) : Bool := 0x20 ≤ c.toNat && c != '"' && c != '\\'

def string : Scan String := do
  char '"'
  let parts ← many (takeWhile1 isPlain <|> (do return [← escape]))
  mark '"'
  return String.ofList parts.flatten

/-! ### Numbers -/

def wholeDigits : Scan (List Char) := do
  if (← peek) = '0' then
    char '0'
    return ['0']
  else takeWhile1 isDigit

def fraction : Scan Unit := do
  char '.'
  let _ ← takeWhile1 isDigit

def exponent : Scan Unit := do
  let _ ← satisfy fun c => c == 'e' || c == 'E'
  let _ ← maybe (satisfy fun c => c == '+' || c == '-')
  let _ ← takeWhile1 isDigit

def number : Scan Document := do
  let negative ← maybe (char '-')
  let digits ← wholeDigits
  let part ← maybe fraction
  let power ← maybe exponent
  blanks
  let n : Int := digits.foldl (fun n c => n * 10 + hexValue c) (0 : Nat)
  if part.isSome || power.isSome || (negative.isSome && n == 0) then return .float
  else return .integer (if negative.isSome then -n else n)

/-! ### Values -/

/-- Put a field in the place of those of its name. -/
def put (fields : List (String × Document)) (f : String × Document) :
    List (String × Document) :=
  fields.filter (·.1 != f.1) ++ [f]

def word (w : String) (d : Document) : Scan Document := do
  chars w.toList
  blanks
  return d

def arrayOf (value : Scan Document) : Scan Document := do
  mark '['
  let items ← sepBy value (mark ',')
  mark ']'
  return .array items

def fieldOf (value : Scan Document) : Scan (String × Document) := do
  let name ← string
  mark ':'
  return (name, ← value)

def objectOf (value : Scan Document) : Scan Document := do
  mark '\x7b'
  let fields ← sepBy (fieldOf value) (mark ',')
  mark '\x7d'
  return .table (fields.foldl put [])

/-- A value that holds no others. -/
def scalar : Scan Document := do
  match ← peek with
  | '"' => return .text (← string)
  | 't' => word "true" (.bool true)
  | 'f' => word "false" (.bool false)
  | 'n' => word "null" .null
  | _ => number

/-- A value with at most this many arrays and objects around each value within it,
    and the white space after it. -/
def value : Nat → Scan Document
  | 0 => scalar
  | depth + 1 => do
    match ← peek with
    | '[' => arrayOf (value depth)
    | '\x7b' => objectOf (value depth)
    | _ => scalar

end ServiceFinder.Json

namespace ServiceFinder

/-- The value that a JSON text stands for. -/
def Document.ofJson? (text : String) : Option Document :=
  (do Json.blanks; Json.value Json.depthLimit : Scan Document).run? text.toList

end ServiceFinder
