/-
  ServiceFinder/Logging/Pattern/Basic.lean
  ========================================
  **Patterns that fields of log events are matched with.**

  A pattern is a regular expression.  What matters here is only its shape: how deep
  it nests, and whether an automaton can be built for it.

  The automaton works on UTF-8 and comes without tables of character properties.
  While a pattern speaks of Unicode, which it does from the start, it can use neither
  the shorthands for digits, spaces and words nor properties, can not ignore case,
  and can not look at word boundaries.  Where it speaks of bytes instead, all of this
  is about ASCII and allowed, but nothing may match a part of a character: no dot, no
  complement, no byte beyond ASCII.
-/

namespace ServiceFinder

/-- A single character of a pattern. -/
structure PatternChar where
  char : Char
  /-- Whether it is written as a byte, by two hexadecimal digits. -/
  byByte : Bool := false
deriving DecidableEq, Repr

namespace PatternChar

def isAscii (c : PatternChar) : Bool := c.char.toNat < 0x80

end PatternChar

/-- What a class in square brackets holds. -/
inductive ClassSet where
  | empty
  | char (c : PatternChar)
  | range (first last : PatternChar)
  /-- A class by name, such as all letters. -/
  | named (negated : Bool)
  /-- The shorthand for digits, spaces or words. -/
  | shorthand (negated : Bool)
  | property
  | bracketed (negated : Bool) (set : ClassSet)
  | union (items : List ClassSet)
  /-- What two sets have in common, or what one has and the other does not. -/
  | operation (left right : ClassSet)
deriving Repr, Inhabited

/-- What can be switched within a pattern. -/
inductive PatternFlag where
  | ignoreCase
  | multiLine
  | dotAll
  | swapGreed
  | unicode
  | crlf
  /-- White space and comments may stand anywhere. -/
  | verbose
deriving DecidableEq, Repr

abbrev FlagSettings := List (PatternFlag × Bool)

inductive Pattern where
  | empty
  /-- Flags that are switched for the rest of the group. -/
  | flags (settings : FlagSettings)
  | char (c : PatternChar)
  | dot
  /-- The beginning or the end of a line or of the text. -/
  | anchor
  /-- The beginning or the end of a word, or neither. -/
  | boundary
  | shorthand (negated : Bool)
  | property
  | bracketed (negated : Bool) (set : ClassSet)
  | repeated (p : Pattern)
  | group (settings : FlagSettings) (p : Pattern)
  | alternatives (ps : List Pattern)
  | sequence (ps : List Pattern)
deriving Repr, Inhabited

/-! ### Depth -/

/-- How deep a pattern may nest. -/
def Pattern.depthLimit : Nat := 250

mutual

/-- How many brackets, unions and operations stand around what is innermost. -/
def ClassSet.depth : ClassSet → Nat
  | .bracketed _ set => set.depth + 1
  | .union items => itemsDepth items + 1
  | .operation left right => max left.depth right.depth + 1
  | _ => 0

def itemsDepth : List ClassSet → Nat
  | [] => 0
  | s :: rest => max s.depth (itemsDepth rest)

end

mutual

def Pattern.depth : Pattern → Nat
  | .bracketed _ set => set.depth + 1
  | .repeated p => p.depth + 1
  | .group _ p => p.depth + 1
  | .alternatives ps => partsDepth ps + 1
  | .sequence ps => partsDepth ps + 1
  | _ => 0

def partsDepth : List Pattern → Nat
  | [] => 0
  | p :: rest => max p.depth (partsDepth rest)

end

/-! ### Whether an automaton can be built -/

/-- What a part of a pattern speaks of. -/
structure PatternMode where
  ignoreCase : Bool := false
  unicode : Bool := true
deriving DecidableEq, Repr

namespace PatternMode

def switch (m : PatternMode) : PatternFlag × Bool → PatternMode
  | (.ignoreCase, on) => { m with ignoreCase := on }
  | (.unicode, on) => { m with unicode := on }
  | _ => m

def apply (settings : FlagSettings) (m : PatternMode) : PatternMode := settings.foldl switch m

/-- Whether single characters may be named. -/
def namesChars (m : PatternMode) : Bool := !(m.unicode && m.ignoreCase)

/-- Whether a character may stand in a class. -/
def holds (m : PatternMode) (c : PatternChar) : Bool :=
  m.namesChars && (m.unicode || c.isAscii)

/-- Whether a complement may be taken. -/
def complements (m : PatternMode) (negated : Bool) : Bool := m.unicode || !negated

end PatternMode

mutual

def ClassSet.isBuildable (m : PatternMode) : ClassSet → Bool
  | .empty => true
  | .char c => m.holds c
  | .range first last => m.holds first && m.holds last
  | .named negated => m.namesChars && m.complements negated
  | .shorthand negated => !m.unicode && !negated
  | .property => false
  | .bracketed negated set => m.complements negated && set.isBuildable m
  | .union items => itemsBuildable m items
  | .operation left right => left.isBuildable m && right.isBuildable m

def itemsBuildable (m : PatternMode) : List ClassSet → Bool
  | [] => true
  | s :: rest => s.isBuildable m && itemsBuildable m rest

end

mutual

/-- Go through a pattern from left to right: the mode after it, if an automaton can
    be built for it. -/
def Pattern.build? (m : PatternMode) : Pattern → Option PatternMode
  | .empty | .anchor => some m
  | .flags settings => some (m.apply settings)
  | .char c =>
    if m.namesChars && (m.unicode || c.isAscii || !c.byByte) then some m else none
  | .dot => if m.unicode then some m else none
  | .boundary => if m.unicode then none else some m
  | .shorthand negated => if !m.unicode && !negated then some m else none
  | .property => none
  | .bracketed negated set =>
    if (ClassSet.bracketed negated set).isBuildable m then some m else none
  | .repeated p => p.build? m
  | .group settings p => (p.build? (m.apply settings)).map fun _ => m
  | .alternatives ps => buildParts? m ps
  | .sequence ps => buildParts? m ps

def buildParts? (m : PatternMode) : List Pattern → Option PatternMode
  | [] => some m
  | p :: rest =>
    match p.build? m with
    | some m => buildParts? m rest
    | none => none

end

/-- Whether a pattern nests no deeper than it may and an automaton can be built. -/
def Pattern.isUsable (p : Pattern) : Bool :=
  p.depth ≤ Pattern.depthLimit && (p.build? {}).isSome

end ServiceFinder
