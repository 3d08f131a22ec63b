/-
  ServiceFinder/Logging/Pattern/Reading.lean
  ==========================================
  **Reading a pattern.**

  Groups may be named, each name once, and may switch flags.  In verbose mode white
  space and comments may stand between any two parts, also within a class and between
  hexadecimal digits.  There are no back references, no look-around and no repetition
  with bounds: a field of a log filter can not hold what closes the bounds.
-/
import ServiceFinder.Logging.Pattern.Basic
import ServiceFinder.Text.Alphanumeric
import ServiceFinder.Text.Blank

namespace ServiceFinder.PatternText

/-- How far a pattern is read. -/
structure Cursor where
  rest : List Char
  verbose : Bool := false
  /-- The names of groups so far. -/
  names : List (List Char) := []
deriving Repr

abbrev Read := StateT Cursor Option

/-! ### Single characters and white space -/

def rest : Read (List Char) := do return (← get).rest

def peek? : Read (Option Char) := do return (← rest).head?

/-- The character that has to come next. -/
def peek : Read Char := do
  match ← peek? with
  | some c => return c
  | none => failure

def advance (n : Nat) : Read Unit := modify fun k => { k with rest := k.rest.drop n }

/-- White space and comments in front of a text. -/
def skipBlank (inComment : Bool) : List Char → List Char
  | [] => []
  | c :: cs =>
    if inComment then skipBlank (c != '\n') cs
    else if Text.isBlank c then skipBlank false cs
    else if c = '#' then skipBlank true cs
    else c :: cs

def skipSpace : Read Unit := modify fun k =>
  if k.verbose then { k with rest := skipBlank false k.rest } else k

/-- Go on to the next character, which has to be there. -/
def advanceTo : Read Unit := do
  advance 1
  skipSpace
  let _ ← peek

/-- Take these characters if they come next. -/
def takes (cs : List Char) : Read Bool := do
  if cs.isPrefixOf (← rest) then
    advance cs.length
    return true
  else return false

/-- The first character that is neither white space nor the mark of a comment. -/
def firstBeyond (marked : Bool) : List Char → Option Char
  | [] => none
  | c :: cs =>
    if Text.isBlank c then firstBeyond marked cs
    else if !marked && c = '#' then firstBeyond true cs
    else some c

/-- The character after the next one; in verbose mode the first one that is not
    white space, if there is any. -/
def peekBeyond : Read (Option Char) := do
  let k ← get
  let after := k.rest.drop 1
  if k.verbose then return (firstBeyond false after).or after.head?
  else return after.head?

/-! ### Escapes -/

def isHex (c : Char) : Bool :=
  ('0' ≤ c && c ≤ '9') || ('a' ≤ c && c ≤ 'f') || ('A' ≤ c && c ≤ 'F')

def hexValue (c : Char) : Nat :=
  if c ≤ '9' then c.toNat - 48 else if 'a' ≤ c then c.toNat - 87 else c.toNat - 55

/-- The number that so many hexadecimal digits write. -/
def hexNumber (value : Nat) : Nat → Read Nat
  | 0 => return value
  | n + 1 => do
    let c ← peek
    if isHex c then
      advance 1
      skipSpace
      hexNumber (value * 16 + hexValue c) n
    else failure

/-- A character by its number. -/
def charByNumber (digits : Nat) : Read PatternChar := do
  advanceTo
  let n ← hexNumber 0 digits
  if n < 0xD800 ∨ (0xDFFF < n ∧ n < 0x110000) then
    return { char := Char.ofNat n, byByte := digits == 2 }
  else failure

/-- The control characters that have a letter. -/
def control? : Char → Option Char
  | 'a' => some (Char.ofNat 0x07)
  | 'f' => some (Char.ofNat 0x0C)
  | 't' => some '\t'
  | 'n' => some '\n'
  | 'r' => some '\r'
  | 'v' => some (Char.ofNat 0x0B)
  | _ => none

/-- A character that a backslash makes stand for itself. -/
def isMark (c : Char) : Bool := c.toNat < 0x80 && !c.isAlphanum && c != '<' && c != '>'

/-- A backslash and what it stands for. -/
def escape : Read Pattern := do
  advance 1
  let c ← peek
  match c with
  | 'x' => return .char (← charByNumber 2)
  | 'u' => return .char (← charByNumber 4)
  | 'U' => return .char (← charByNumber 8)
  | 'p' | 'P' =>
    advanceTo
    if (← peek) ∈ ['\x7b', '\\'] then failure
    advance 1
    skipSpace
    return .property
  | 'd' | 's' | 'w' => advance 1; return .shorthand false
  | 'D' | 'S' | 'W' => advance 1; return .shorthand true
  | 'A' | 'z' => advance 1; return .anchor
  | 'b' | 'B' | '<' | '>' => advance 1; return .boundary
  | _ =>
    advance 1
    if isMark c then return .char { char := c }
    else match control? c with
      | some c => return .char { char := c }
      | none => failure

/-! ### Classes -/

def classNames : List String :=
  ["alnum", "alpha", "ascii", "blank", "cntrl", "digit", "graph", "lower", "print",
   "punct", "space", "upper", "word", "xdigit"]

/-- A class by name at the beginning of a text, and what follows it. -/
def namedClass? : List Char → Option (Bool × List Char)
  | '[' :: ':' :: cs =>
    let negated := cs.head? == some '^'
    let cs := if negated then cs.drop 1 else cs
    let name := String.ofList (cs.takeWhile (· != ':'))
    match cs.dropWhile (· != ':') with
    | ':' :: ']' :: rest => if classNames.contains name then some (negated, rest) else none
    | _ => none
  | _ => none

/-- What may stand in a class of all that an escape can be. -/
def ofEscape? : Pattern → Option ClassSet
  | .char c => some (.char c)
  | .shorthand negated => some (.shorthand negated)
  | .property => some .property
  | _ => none

def classItem : Read ClassSet := do
  let c ← peek
  if c = '\\' then
    match ofEscape? (← escape) with
    | some s => return s
    | none => failure
  else
    advance 1
    return .char { char := c }

/-- One item of a class, or two with a dash between them, in order. -/
def classRange : Read ClassSet := do
  let first ← classItem
  skipSpace
  let beyond ← peekBeyond
  if (← peek) ≠ '-' ∨ beyond = some ']' ∨ beyond = some '-' then return first
  else
    advanceTo
    match first, ← classItem with
    | .char a, .char b => if a.char ≤ b.char then return .range a b else failure
    | _, _ => failure

/-- The items of a class as one set. -/
def ofItems : List ClassSet → ClassSet
  | [] => .empty
  | [s] => s
  | items => .union items

/-- A set after what stands before an operator. -/
def afterOperator (left : Option ClassSet) (items : List ClassSet) : ClassSet :=
  match left with
  | some l => .operation l (ofItems items)
  | none => ofItems items

/-- The dashes at the beginning of a class. -/
def leadingDashes : Nat → Read (List ClassSet)
  | 0 => failure
  | n + 1 => do
    if (← peek) = '-' then
      advanceTo
      return .char { char := '-' } :: (← leadingDashes n)
    else return []

/-- The beginning of a class: whether it is negated, and what stands for itself only
    here. -/
def classOpening (size : Nat) : Read (Bool × List ClassSet) := do
  advanceTo
  let negated := (← peek) = '^'
  if negated then advanceTo
  let dashes ← leadingDashes size
  if dashes.isEmpty ∧ (← peek) = ']' then
    advanceTo
    return (negated, [.char { char := ']' }])
  else return (negated, dashes)

def isOperator : List Char → Bool
  | '&' :: '&' :: _ | '-' :: '-' :: _ | '~' :: '~' :: _ => true
  | _ => false

/-- The inside of a class up to its closing bracket, given what was read of it; every
    call takes at least one character, so `size` calls are enough for a text of less
    than `size` characters. -/
def classInside : Nat → Option ClassSet → List ClassSet → Read ClassSet
  | 0, _, _ => failure
  | size + 1, left, items => do
    skipSpace
    let text ← rest
    match text with
    | [] => failure
    | ']' :: _ =>
      advance 1
      return afterOperator left items
    | '[' :: _ =>
      match namedClass? text with
      | some (negated, after) =>
        modify fun k => { k with rest := after }
        classInside size left (items ++ [.named negated])
      | none =>
        let (negated, first) ← classOpening size
        let set ← classInside size none first
        classInside size left (items ++ [.bracketed negated set])
    | _ =>
      if isOperator text then
        advance 2
        classInside size (some (afterOperator left items)) []
      else
        let s ← classRange
        classInside size left (items ++ [s])

def characterClass (size : Nat) : Read Pattern := do
  let (negated, first) ← classOpening size
  return .bracketed negated (← classInside size none first)

/-! ### Groups and repetition -/

def flag? : Char → Option PatternFlag
  | 'i' => some .ignoreCase
  | 'm' => some .multiLine
  | 's' => some .dotAll
  | 'U' => some .swapGreed
  | 'u' => some .unicode
  | 'R' => some .crlf
  | 'x' => some .verbose
  | _ => none

/-- The flags that are switched on and, after a minus sign, off; none is named
    twice. -/
def settings? (cs : List Char) : Option FlagSettings :=
  if cs.Nodup ∧ cs.getLast? ≠ some '-' then do
    let on ← (cs.takeWhile (· != '-')).mapM flag?
    let off ← ((cs.dropWhile (· != '-')).drop 1).mapM flag?
    return on.map (·, true) ++ off.map (·, false)
  else none

/-- What a group's flags make of verbose mode. -/
def verboseAfter (settings : FlagSettings) (before : Bool) : Bool :=
  (settings.lookup .verbose).getD before

def setVerbose (on : Bool) : Read Unit := modify fun k => { k with verbose := on }

def isNamePart (c : Char) : Bool :=
  c == '_' || c == '.' || c == '[' || c == ']' || Text.isAlphanumeric c

def isName : List Char → Bool
  | [] => false
  | c :: cs => (c == '_' || Text.isAlphabetic c) && cs.all isNamePart

/-- The name of a group, up to its closing bracket. -/
def groupName : Read Unit := do
  let k ← get
  let name := k.rest.takeWhile (· != '>')
  match k.rest.dropWhile (· != '>') with
  | [] => failure
  | _ :: after =>
    if isName name ∧ name ∉ k.names then
      set { k with rest := after, names := name :: k.names }
    else failure

/-- What a bracket opens. -/
inductive Opening where
  | group (settings : FlagSettings)
  /-- Nothing but flags, and the bracket is closed again. -/
  | flags (settings : FlagSettings)

def groupOpening : Read Opening := do
  advance 1
  skipSpace
  if (← takes "?=".toList) || (← takes "?!".toList) then failure
  if (← takes "?<=".toList) || (← takes "?<!".toList) then failure
  let named ← do
    if ← takes "?P<".toList then pure true else takes "?<".toList
  if named then
    groupName
    return .group []
  else if ← takes ['?'] then
    let text ← rest
    let ends (c : Char) : Bool := c == ':' || c == ')'
    match settings? (text.takeWhile (!ends ·)), text.dropWhile (!ends ·) with
    | some settings, ':' :: after =>
      modify fun k => { k with rest := after }
      return .group settings
    | some settings, ')' :: after =>
      modify fun k => { k with rest := after }
      if settings.isEmpty then failure else return .flags settings
    | _, _ => failure
  else return .group []

def ofSequence : List Pattern → Pattern
  | [] => .empty
  | [p] => p
  | ps => .sequence ps

/-- The branches so far and the last one as one pattern. -/
def ofBranches (branches : List Pattern) (last : List Pattern) : Pattern :=
  if branches.isEmpty then ofSequence last
  else .alternatives (branches ++ [ofSequence last])

/-- The last part of a branch repeated; flags can not be. -/
def repeatLast? (parts : List Pattern) : Option (List Pattern) :=
  match parts.getLast? with
  | none | some (.flags _) | some .empty => none
  | some p => some (parts.dropLast ++ [.repeated p])

/-- A pattern up to the end of its group or of the text, given what was read of it;
    every call takes at least one character, so `size` calls are enough for a text of
    less than `size` characters. -/
def inside : Nat → List Pattern → List Pattern → Read Pattern
  | 0, _, _ => failure
  | size + 1, branches, parts => do
    skipSpace
    match ← peek? with
    | none | some ')' => return ofBranches branches parts
    | some '|' =>
      advance 1
      inside size (branches ++ [ofSequence parts]) []
    | some '(' =>
      let before := (← get).verbose
      match ← groupOpening with
      | .flags settings =>
        setVerbose (verboseAfter settings before)
        inside size branches (parts ++ [.flags settings])
      | .group settings =>
        setVerbose (verboseAfter settings before)
        let p ← inside size [] []
        if (← peek) ≠ ')' then failure
        setVerbose before
        advance 1
        inside size branches (parts ++ [.group settings p])
    | some '[' =>
      let p ← characterClass size
      inside size branches (parts ++ [p])
    | some '\x7b' => failure
    | some c =>
      if c ∈ ['*', '+', '?'] then
        match repeatLast? parts with
        | some parts =>
          advance 1
          let _ ← takes ['?']
          inside size branches parts
        | none => failure
      else if c = '\\' then
        let p ← escape
        inside size branches (parts ++ [p])
      else
        advance 1
        let p : Pattern := match c with
          | '.' => .dot
          | '^' | '$' => .anchor
          | c => .char { char := c }
        inside size branches (parts ++ [p])

end ServiceFinder.PatternText

namespace ServiceFinder

/-- The pattern that a text writes. -/
def Pattern.ofText? (cs : List Char) : Option Pattern :=
  match (PatternText.inside (cs.length + 2) [] []).run { rest := cs } with
  | some (p, k) => if k.rest.isEmpty then some p else none
  | none => none

/-- Whether a text is a pattern that can be used. -/
def Pattern.accepts (cs : List Char) : Bool := (Pattern.ofText? cs).any Pattern.isUsable

end ServiceFinder
