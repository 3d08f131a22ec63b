/-
  ServiceFinder/Json/Writing.lean
  ===============================
  **Writing a value as JSON.**

  Control characters and the line ends that are not control characters are written
  by their numbers, all other characters as they are.  What JSON has no word for is
  written as null.
-/
import ServiceFinder.Document.Basic

namespace ServiceFinder.Json

def hexDigit (n : Nat) : Char := (Nat.toDigits 16 (n % 16)).headD '0'

/-- A character of 16 bits by its number. -/
def byNumber (n : Nat) : List Char :=
  ['\\', 'u', hexDigit (n / 4096), hexDigit (n / 256), hexDigit (n / 16), hexDigit n]

def isControl (c : Char) : Bool :=
  c.toNat < 0x20 || c.toNat == 0x7F || c.toNat == 0x85 || c.toNat == 0x2028
    || c.toNat == 0x2029

def escapeChar (c : Char) : List Char :=
  if c = '"' then ['\\', '"']
  else if c = '\\' then ['\\', '\\']
  else if isControl c then byNumber c.toNat
  else [c]

def quote (s : String) : String :=
  "\"" ++ String.ofList (s.toList.flatMap escapeChar) ++ "\""

end ServiceFinder.Json

namespace ServiceFinder.Document

mutual

/-- The JSON text of a value. -/
def toJson : Document → String
  | null | float | datetime => "null"
  | bool b => if b then "true" else "false"
  | integer n => toString n
  | text s => Json.quote s
  | array items => "[" ++ ",".intercalate (itemsToJson items) ++ "]"
  | table fields => "\x7b" ++ ",".intercalate (fieldsToJson fields) ++ "\x7d"

def itemsToJson : List Document → List String
  | [] => []
  | d :: ds => d.toJson :: itemsToJson ds

def fieldsToJson : List (String × Document) → List String
  | [] => []
  | (name, d) :: fs => (Json.quote name ++ ":" ++ d.toJson) :: fieldsToJson fs

end

end ServiceFinder.Document
