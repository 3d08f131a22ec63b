/-
  ServiceFinder/Document/Decode.lean
  ==================================
  **Reading values of a type from a document.**

  A reader gives the value of its type that a document stands for, or nothing where
  the document is of another shape.  A record is read from a table by its field
  names, fields of other names being ignored, or from an array by position.  A name
  out of a fixed set is read from its text, or from a table that has the name as its
  only field.

  Two dialects differ in the corners.  In data, an array must not be longer than the
  record, a name in a table stands over null, and null is a value.  In settings, the
  rest of a longer array is ignored, a name in a table stands over an empty table or
  array, and a date and time reads as a record that has none of the fields.
-/
import ServiceFinder.Document.Basic

namespace ServiceFinder

/-- A reader of values of type `α`. -/
abbrev Reader (α : Type) := Document → Option α

inductive Dialect where
  | data
  | settings
deriving DecidableEq, Repr

/-- The fields of a record as a document gives them. -/
inductive Fields where
  | named (fields : List (String × Document))
  /-- The values of these fields, in this order, as far as they go. -/
  | positional (fields : List (String × Document))
deriving Repr, Inhabited

namespace Fields

def get? (f : Fields) (name : String) : Option Document :=
  match f with
  | named fields | positional fields => fields.lookup name

/-- A field that has to be there. -/
def required {α : Type} (f : Fields) (name : String) (read : Reader α) : Option α :=
  (f.get? name).bind read

/-- A field that stands for `value` where it is left out. -/
def defaulted {α : Type} (f : Fields) (name : String) (value : α) (read : Reader α) : Option α :=
  match f.get? name with
  | none => some value
  | some d => read d

/-- A field that may be left out of a table, but not of an array. -/
def optional {α : Type} (f : Fields) (name : String) (read : Reader α) : Option (Option α) :=
  match f, f.get? name with
  | named _, none => some none
  | positional _, none => none
  | _, some d => (read d).map some

end Fields

namespace Document

/-! ### Plain values -/

def asBool : Reader Bool
  | bool b => some b
  | _ => none

def asText : Reader String
  | text s => some s
  | _ => none

/-- An integer from 0 up to `limit`, `limit` not included. -/
def asBelow (limit : Nat) : Reader Nat
  | integer n => if 0 ≤ n ∧ n < limit then some n.toNat else none
  | _ => none

def asWord64 : Reader UInt64 := fun d => (d.asBelow UInt64.size).map UInt64.ofNat

def asWord32 : Reader UInt32 := fun d => (d.asBelow UInt32.size).map UInt32.ofNat

/-- Null reads as nothing. -/
def asNullable {α : Type} (read : Reader α) : Reader (Option α)
  | null => some none
  | d => (read d).map some

def asList {α : Type} (read : Reader α) : Reader (List α)
  | array items => items.mapM read
  | _ => none

/-- A table under names of any kind. -/
def asMap {α : Type} (read : Reader α) : Reader (List (String × α))
  | table fields => fields.mapM fun f => (read f.2).map (f.1, ·)
  | _ => none

/-! ### Names and records -/

/-- A name of a fixed set. -/
def asName {α : Type} (dialect : Dialect) (ofName? : String → Option α) : Reader α
  | text s => ofName? s
  | table [(name, value)] =>
    let stands := match dialect, value with
      | .data, null => true
      | .data, _ => false
      | .settings, value => value.isEmptyCollection
    if stands then ofName? name else none
  | _ => none

/-- The fields of a record whose fields have these names. -/
def asFields (dialect : Dialect) (names : List String) : Reader Fields
  | table fields => some (.named fields)
  | array items =>
    if dialect = .data ∧ names.length < items.length then none
    else some (.positional (names.zip items))
  | datetime => if dialect = .settings then some (.named []) else none
  | _ => none

end Document

end ServiceFinder
