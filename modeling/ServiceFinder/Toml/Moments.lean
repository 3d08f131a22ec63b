/-
  ServiceFinder/Toml/Moments.lean
  ===============================
  **Dates and times in TOML.**

  They are recognized, not kept: no setting is one.  A day must be one of its month,
  in leap years too; a second may be a leap second.
-/
import ServiceFinder.Toml.Chars

namespace ServiceFinder.Toml

open Scan

/-- Exactly `n` digits. -/
def fixedDigits : Nat → Scan (List Char)
  | 0 => pure []
  | n + 1 => do return (← satisfy isDigit) :: (← fixedDigits n)

/-- A number of two digits within bounds. -/
def twoDigits (least most : Nat) : Scan Nat := do
  let n := number 10 (← fixedDigits 2)
  if least ≤ n ∧ n ≤ most then return n else failure

def isLeap (year : Nat) : Bool := year % 4 == 0 && (year % 100 != 0 || year % 400 == 0)

def daysIn (year month : Nat) : Nat :=
  if month = 2 then if isLeap year then 29 else 28
  else if month ∈ [4, 6, 9, 11] then 30
  else 31

def date : Scan Unit := do
  let year := number 10 (← fixedDigits 4)
  char '-'
  let month ← twoDigits 1 12
  char '-'
  let _ ← twoDigits 1 (daysIn year month)

def time : Scan Unit := do
  let _ ← twoDigits 0 23
  char ':'
  let _ ← twoDigits 0 59
  char ':'
  let _ ← twoDigits 0 60
  let _ ← maybe (do char '.'; takeWhile1 isDigit)

def offset : Scan Unit := do
  match ← satisfy fun _ => true with
  | 'Z' | 'z' => return
  | '+' | '-' =>
    let _ ← twoDigits 0 23
    char ':'
    let _ ← twoDigits 0 59
  | _ => failure

/-- What separates a date from its time. -/
def dateTimeMark : Scan Unit := do
  let _ ← satisfy fun c => c == 'T' || c == 't' || c == ' '

def moment : Scan Unit :=
  (do date
      let _ ← maybe (do dateTimeMark; time; maybe offset))
    <|> time

end ServiceFinder.Toml
