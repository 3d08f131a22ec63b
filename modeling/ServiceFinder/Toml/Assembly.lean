/-
  ServiceFinder/Toml/Assembly.lean
  ================================
  **Putting tables together.**

  A table may be written piece by piece: under its own header, by the headers of
  tables within it, by dotted keys.  A tree remembers for each table how it came
  about, because that decides who may still add to it: a table that only came about
  on the way to another one may get its own header once, dotted keys may only add to
  tables that dotted keys made, and nothing may be written twice.
-/
import ServiceFinder.Document.Basic

namespace ServiceFinder.Toml

inductive Tree where
  | value (v : Document)
  /-- A table; `implicit` if it only came about on the way to another one, `dotted`
      if dotted keys made it. -/
  | table (implicit dotted : Bool) (items : List (String × Tree))
  /-- The tables under headers in double brackets. -/
  | tables (elements : List (List (String × Tree)))
deriving Inhabited

abbrev Items := List (String × Tree)

namespace Items

def replace (name : String) (t : Tree) (items : Items) : Items :=
  items.map fun x => if x.1 = name then (name, t) else x

end Items

/-- Edit the table at the end of a path, making the tables on the way.  The edit is
    told whether dotted keys made the table. -/
def within (dotted : Bool) (edit : Bool → Items → Option Items) :
    List String → Bool → Items → Option Items
  | [], made, items => edit made items
  | name :: path, _, items =>
    match items.lookup name with
    | none => do
      let inner ← within dotted edit path dotted []
      return items ++ [(name, .table true dotted inner)]
    | some (.value _) => none
    | some (.table implicit made inner) =>
      if dotted && !implicit then none
      else do
        let inner ← within dotted edit path made inner
        return Items.replace name (.table implicit made inner) items
    | some (.tables elements) => do
      let last ← within dotted edit path false (← elements.getLast?)
      return Items.replace name (.tables (elements.dropLast ++ [last])) items

/-- A value under a key, perhaps a dotted one. -/
structure Assignment where
  path : List String
  name : String
  value : Document

/-- Add an assignment to the table that it is written in. -/
def Assignment.addTo (items : Items) (a : Assignment) : Option Items :=
  within true
    (fun made items =>
      if made = a.path.isEmpty || (items.lookup a.name).isSome then none
      else some (items ++ [(a.name, .value a.value)]))
    a.path false items

def addAll (assignments : List Assignment) (items : Items) : Option Items :=
  assignments.foldlM Assignment.addTo items

inductive Header where
  /-- What comes before all headers. -/
  | top
  | table (path : List String) (name : String)
  /-- A header in double brackets. -/
  | element (path : List String) (name : String)

/-- A header and the assignments under it. -/
structure Block where
  header : Header
  assignments : List Assignment

/-- Add a block to the tree of the whole text. -/
def Block.addTo (root : Items) (b : Block) : Option Items :=
  match b.header with
  | .top => addAll b.assignments root
  | .table path name =>
    within false
      (fun _ items =>
        match items.lookup name with
        | none => do return items ++ [(name, .table false false (← addAll b.assignments []))]
        | some (.table true false inner) => do
          let inner ← addAll b.assignments inner
          return items.filter (·.1 != name) ++ [(name, .table false false inner)]
        | some _ => none)
      path false root
  | .element path name =>
    within false
      (fun _ items =>
        match items.lookup name with
        | none => do return items ++ [(name, .tables [← addAll b.assignments []])]
        | some (.tables elements) => do
          let element ← addAll b.assignments []
          return Items.replace name (.tables (elements ++ [element])) items
        | some _ => none)
      path false root

mutual

/-- The value that a tree stands for. -/
def Tree.document : Tree → Document
  | .value v => v
  | .table _ _ items => .table (documentFields items)
  | .tables elements => .array (documentElements elements)

def documentFields : List (String × Tree) → List (String × Document)
  | [] => []
  | (name, t) :: rest => (name, t.document) :: documentFields rest

def documentElements : List (List (String × Tree)) → List Document
  | [] => []
  | items :: rest => .table (documentFields items) :: documentElements rest

end

/-- The table that a text of these blocks stands for. -/
def ofBlocks? (blocks : List Block) : Option Document := do
  let root ← blocks.foldlM Block.addTo []
  return .table (documentFields root)

/-- The table that assignments between braces stand for. -/
def ofAssignments? (assignments : List Assignment) : Option Document := do
  return .table (documentFields (← addAll assignments []))

end ServiceFinder.Toml
