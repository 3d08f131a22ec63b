/-
  ServiceFinder/Text/Blank.lean
  =============================
  **Blank text.**

  A field that a person may have left empty counts as empty when it holds nothing
  but white space.  White space is the Unicode property `White_Space`, so a
  no-break space is blank, while a zero-width space and the information
  separators U+001C to U+001F are not.
-/

namespace ServiceFinder.Text

/-- The Unicode property `White_Space`. -/
def isBlank (c : Char) : Bool :=
  let n := c.toNat
  (0x09 ≤ n && n ≤ 0x0D) || n == 0x20 || n == 0x85 || n == 0xA0 || n == 0x1680
    || (0x2000 ≤ n && n ≤ 0x200A) || n == 0x2028 || n == 0x2029 || n == 0x202F
    || n == 0x205F || n == 0x3000

/-- Nothing but white space, or nothing at all. -/
def allBlank (s : String) : Bool := s.toList.all isBlank

/-- The text without its leading and trailing white space. -/
def trimBlank (cs : List Char) : List Char :=
  ((cs.dropWhile isBlank).reverse.dropWhile isBlank).reverse

/-- Both sides of the first `sep`, if the text has one. -/
def cutAt (sep : Char) (s : String) : Option (String × String) :=
  match s.toList.dropWhile (· != sep) with
  | [] => none
  | _ :: rest => some (String.ofList (s.toList.takeWhile (· != sep)), String.ofList rest)

example : allBlank "\u00a0\u2028 \t" = true ∧ allBlank "\u200b" = false := by decide

end ServiceFinder.Text
