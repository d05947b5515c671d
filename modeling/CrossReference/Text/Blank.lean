set_option autoImplicit false

/-! # Words of a line

The lines of a cross-reference section are split into words at the characters with the Unicode
property White_Space. That is not the white space of the document syntax: it has the vertical tab
and the wide spaces, and it lacks NUL. -/

namespace CrossReference.Text

/-- The property White_Space. -/
def isBlank (c : Char) : Bool :=
  let code := c.toNat
  (0x09 ≤ code && code ≤ 0x0D) || code = 0x20 || code = 0x85 || code = 0xA0 || code = 0x1680 ||
    (0x2000 ≤ code && code ≤ 0x200A) || code = 0x2028 || code = 0x2029 || code = 0x202F ||
    code = 0x205F || code = 0x3000

/-- The words of a text whose first word has begun with `current`, last character first. -/
def wordsFrom (current : List Char) : List Char → List (List Char)
  | [] => if current.isEmpty then [] else [current.reverse]
  | c :: rest =>
    if !isBlank c then wordsFrom (c :: current) rest
    else if current.isEmpty then wordsFrom [] rest
    else current.reverse :: wordsFrom [] rest

/-- The words of a text: the longest runs of characters without a blank, none of them empty. -/
def words (text : List Char) : List (List Char) := wordsFrom [] text

end CrossReference.Text
