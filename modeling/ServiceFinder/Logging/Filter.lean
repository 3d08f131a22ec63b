/-
  ServiceFinder/Logging/Filter.lean
  =================================
  **Which log filters are taken.**

  A log filter lists directives between commas.  A directive is a level, or a target
  with an optional span in square brackets, with optional fields in braces, and an
  optional level after an equals sign.  Any word will do for a target, so what can go
  wrong is a bad beginning, an unclosed bracket, an empty list of fields, a field
  matched by something that is no pattern, and a word after the equals sign that is
  no level.

  Positions in a directive are counted in bytes, without the white space in front of
  it, but the words between them are cut out of the whole directive.
-/
import ServiceFinder.Config.Basic
import ServiceFinder.Logging.Level
import ServiceFinder.Logging.Pattern.Reading
import ServiceFinder.Text.Alphanumeric

namespace ServiceFinder

/-- Split a text at every `sep`. -/
def splitAll (sep : Char) : List Char → List (List Char)
  | [] => [[]]
  | c :: cs =>
    if c = sep then [] :: splitAll sep cs
    else match splitAll sep cs with
      | [] => [[c]]
      | first :: rest => (c :: first) :: rest

namespace LogFilter

/-! ### Fields -/

/-- The digits of a number with a point and an exponent, either of which may be
    missing. -/
def isDecimal (cs : List Char) : Bool :=
  let whole := cs.takeWhile LogLevel.isDigit
  let rest := cs.dropWhile LogLevel.isDigit
  let (part, rest) := match rest with
    | '.' :: rest => (rest.takeWhile LogLevel.isDigit, rest.dropWhile LogLevel.isDigit)
    | rest => ([], rest)
  !(whole.isEmpty && part.isEmpty) && match rest with
    | [] => true
    | e :: rest =>
      let digits := match rest with
        | '+' :: ds | '-' :: ds => ds
        | ds => ds
      (e == 'e' || e == 'E') && !digits.isEmpty && digits.all LogLevel.isDigit

/-- Whether a text is a number, infinity or not a number. -/
def isNumber (cs : List Char) : Bool :=
  let body := match cs with
    | '+' :: body | '-' :: body => body
    | body => body
  isDecimal body
    || ["inf", "infinity", "nan"].contains (String.ofList (body.map Char.toLower))

/-- What a field is compared with: a number or else a pattern. -/
def isComparand (cs : List Char) : Bool := isNumber cs || Pattern.accepts cs

/-- A field by its name alone, or with what it is compared with. -/
def isField (cs : List Char) : Bool :=
  match splitAll '=' cs with
  | _ :: value :: _ => isComparand value
  | _ => true

/-! ### Directives -/

/-- How far a directive is read; positions are those where a word begins. -/
inductive State where
  | start
  | word (first : Nat)
  | span
  | fields (first : Nat)
  | closed
  /-- After the square brackets. -/
  | target
  | level (first : Nat)
deriving DecidableEq, Repr

/-- What is left of a text after so many bytes. -/
def dropBytes : Nat → List Char → List Char
  | _, [] => []
  | n, c :: cs => if n = 0 then c :: cs else dropBytes (n - c.utf8Size) cs

/-- The first so many bytes of a text. -/
def takeBytes : Nat → List Char → List Char
  | _, [] => []
  | n, c :: cs => if n = 0 then [] else c :: takeBytes (n - c.utf8Size) cs

/-- The characters of a directive from one position up to another. -/
def slice (directive : List Char) (first last : Nat) : List Char :=
  dropBytes first (takeBytes last directive)

/-- Read the character at a position. -/
def State.next (directive : List Char) (i : Nat) (c : Char) : State → Option State
  | start =>
    if c = '[' then some span
    else if c = '-' || c = ':' || c = '_' || Text.isAlphanumeric c then some (word i)
    else none
  | word first =>
    if c = '=' then some (level (i + 1)) else if c = '[' then some span else some (word first)
  | span =>
    if c = ']' then some target else if c = '\x7b' then some (fields (i + 1)) else some span
  | fields first =>
    if c = '\x7d' then
      let field := slice directive first i
      if !field.isEmpty && isField field then some closed else none
    else some (fields first)
  | closed => if c = ']' then some target else none
  | target => if c = '=' then some (level (i + 1)) else none
  | level first => some (level first)

/-- Whether a directive may end here. -/
def State.isFinal (directive : List Char) : State → Bool
  | word _ | target => true
  | level first => LogLevel.isLevel (dropBytes first directive)
  | start | span | fields _ | closed => false

def scan (directive : List Char) : Nat → State → List Char → Option State
  | _, s, [] => some s
  | i, s, c :: cs => (s.next directive i c).bind fun s => scan directive (i + c.utf8Size) s cs

def isDirective (directive : List Char) : Bool :=
  (scan directive 0 .start (Text.trimBlank directive)).any (·.isFinal directive)

/-- Whether a text is a log filter; nothing between two commas is no directive. -/
def accepts (filter : String) : Bool :=
  ((splitAll ',' filter.toList).filter (!·.isEmpty)).all isDirective

end LogFilter

/-- Why logging does not start. -/
inductive LoggingError where
  | badFilter
  /-- Some other part of the process logs already. -/
  | alreadyStarted
deriving DecidableEq, Repr

/-- Start logging in a process that logs already or does not. -/
def LoggingConfig.start (started : Bool) (c : LoggingConfig) : Except LoggingError Unit :=
  if !LogFilter.accepts c.level then .error .badFilter
  else if started then .error .alreadyStarted
  else .ok ()

end ServiceFinder
