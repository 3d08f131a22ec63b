/-
  ServiceFinder/Toml/Reading.lean
  ===============================
  **Reading a TOML text.**

  `Document.ofToml?` gives the table that a text stands for, or nothing where it is
  not TOML.
-/
import ServiceFinder.Toml.Assembly
import ServiceFinder.Toml.Moments
import ServiceFinder.Toml.Numbers
import ServiceFinder.Toml.Strings

namespace ServiceFinder.Toml

open Scan

/-! ### Values -/

/-- A value, given how to read the values within it. -/
def plainValue : Scan Document :=
  (do return .text (← string))
    <|> (do chars ['t', 'r', 'u', 'e']; return .bool true)
    <|> (do chars ['f', 'a', 'l', 's', 'e']; return .bool false)
    <|> (do moment; return .datetime)
    <|> (do float; return .float)
    <|> (do special; return .float)
    <|> (do return .integer (← integer))

def arrayOf (value : Scan Document) : Scan Document := do
  char '['
  let items ← sepBy (do gap; let v ← value; gap; return v) (char ',')
  if !items.isEmpty then let _ ← maybe (char ',')
  gap
  char ']'
  return .array items

/-- A key, an equals sign and a value. -/
def assignment (value : Scan Document) : Scan Assignment := do
  let (path, name) ← key
  char '='
  spaces
  return { path, name, value := ← value }

def tableOf (value : Scan Document) : Scan Document := do
  char '\x7b'
  let assignments ← sepBy (do let a ← assignment value; spaces; return a) (char ',')
  spaces
  char '\x7d'
  match ofAssignments? assignments with
  | some d => return d
  | none => failure

/-- A value with at most this many arrays and tables around each value within it. -/
def value : Nat → Scan Document
  | 0 => plainValue
  | depth + 1 => do
    match ← peek with
    | '[' => arrayOf (value depth)
    | '\x7b' => tableOf (value depth)
    | _ => plainValue

/-! ### Lines -/

def header : Scan Header := do
  char '['
  let element ← (do char '['; return true) <|> pure false
  let (path, name) ← key
  char ']'
  if element then char ']'
  lineRest
  return if element then .element path name else .table path name

def assignmentLine : Scan Assignment := do
  let a ← assignment (value (depthLimit - 1))
  lineRest
  return a

/-- Lines that say nothing. -/
def blankLines : Scan Unit := do
  spaces
  let _ ← many (do
    (do comment; lineEnd) <|> newline
    spaces)

/-- Assignments up to the next header. -/
def assignments : Scan (List Assignment) := do
  blankLines
  many (do let a ← assignmentLine; blankLines; return a)

def block : Scan Block := do
  let h ← header
  return { header := h, assignments := ← assignments }

def blocks : Scan (List Block) := do
  let _ ← maybe (char '\ufeff')
  let top ← assignments
  return { header := .top, assignments := top } :: (← many block)

end ServiceFinder.Toml

namespace ServiceFinder

/-- The table that a TOML text stands for. -/
def Document.ofToml? (text : String) : Option Document :=
  (Toml.blocks.run? text.toList).bind Toml.ofBlocks?

end ServiceFinder
