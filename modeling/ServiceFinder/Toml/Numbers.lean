/-
  ServiceFinder/Toml/Numbers.lean
  ===============================
  **Numbers in TOML.**

  Underscores may stand between digits.  An integer has to fit 64 bits with a sign,
  and only a single zero may start one.  A float may be as small as can be, but one
  that would round to positive infinity is refused.
-/
import ServiceFinder.Toml.Chars

namespace ServiceFinder.Toml

open Scan

/-- Digits, with single underscores in between. -/
def digitRun (isDigit : Char → Bool) : Scan (List Char) := do
  let d ← satisfy isDigit
  return d :: (← many (satisfy isDigit <|> (do char '_'; satisfy isDigit)))

/-- Whether a minus sign stands here; a plus sign is skipped. -/
def sign : Scan Bool :=
  (do char '-'; return true) <|> (do char '+'; return false) <|> pure false

/-- Decimal digits without leading zeros. -/
def decimalDigits : Scan (List Char) := do
  if (← peek) = '0' then
    char '0'
    return ['0']
  else digitRun isDigit

def fitsInt64 (n : Int) : Bool := Int64.minValue.toInt ≤ n && n ≤ Int64.maxValue.toInt

def checked (n : Int) : Scan Int := if fitsInt64 n then pure n else failure

/-- Digits in a base, under its mark. -/
def basedInteger (mark : Char) (base : Nat) (isDigit : Char → Bool) : Scan Int := do
  chars ['0', mark]
  checked (number base (← digitRun isDigit))

def decimalInteger : Scan Int := do
  let negative ← sign
  let n : Int := number 10 (← decimalDigits)
  checked (if negative then -n else n)

def integer : Scan Int :=
  basedInteger 'x' 16 isHexDigit
    <|> basedInteger 'o' 8 (fun c => '0' ≤ c && c ≤ '7')
    <|> basedInteger 'b' 2 (fun c => c == '0' || c == '1')
    <|> decimalInteger

/-! ### Floats -/

/-- Halfway from the largest finite number to the next power of two: from here on,
    numbers round to infinity. -/
def overflowAt : Nat := Nat.pow 2 1024 - Nat.pow 2 970

/-- Whether `m · 10 ^ e` rounds to infinity. -/
def overflows (m : Nat) (e : Int) : Bool :=
  let size : Int := (Nat.toDigits 10 m).length + e
  if m = 0 || size < 300 then false
  else if 320 < size then true
  else if 0 ≤ e then overflowAt ≤ m * Nat.pow 10 e.toNat
  else overflowAt * Nat.pow 10 (-e).toNat ≤ m

/-- The fraction of a float. -/
def fraction : Scan (List Char) := do
  char '.'
  digitRun isDigit

/-- The exponent of a float. -/
def exponent : Scan Int := do
  let _ ← satisfy fun c => c == 'e' || c == 'E'
  let negative ← sign
  let n : Int := number 10 (← digitRun isDigit)
  return if negative then -n else n

/-- A float is recognized, not kept: no setting is one. -/
def float : Scan Unit := do
  let negative ← sign
  let whole ← decimalDigits
  let (part, e) ← (do return ([], ← exponent))
    <|> (do return (← fraction, (← maybe exponent).getD 0))
  if !negative && overflows (number 10 (whole ++ part)) (e - part.length) then failure

/-- Infinity, or not a number. -/
def special : Scan Unit := do
  let _ ← sign
  chars ['i', 'n', 'f'] <|> chars ['n', 'a', 'n']

end ServiceFinder.Toml
