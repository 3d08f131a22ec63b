/-
  ServiceFinder/Document/Basic.lean
  =================================
  **A value read from a text format.**

  Configuration and definitions come as documents: trees of tables and arrays over
  plain values.  A document no longer knows its spelling, only what a reader of
  values may depend on: a number with a point or an exponent is not an integer.
-/

namespace ServiceFinder

inductive Document where
  | null
  | bool (b : Bool)
  | integer (n : Int)
  /-- A number that is not an integer, whatever its value. -/
  | float
  | datetime
  | text (s : String)
  | array (items : List Document)
  | table (fields : List (String × Document))
deriving Repr, Inhabited

namespace Document

/-- The value of a field of a table. -/
def get? (name : String) : Document → Option Document
  | table fields => fields.lookup name
  | _ => none

/-- A table or an array without anything in it. -/
def isEmptyCollection : Document → Bool
  | array items => items.isEmpty
  | table fields => fields.isEmpty
  | _ => false

end Document

end ServiceFinder
