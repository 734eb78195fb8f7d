/-!
# Blank characters

The characters that trimming removes: the characters with the Unicode `White_Space`
property together with the four information separators U+001C to U+001F, 29 in all.
-/

namespace Sugiru.Text

/-- The blank characters as ranges of code points, lowest first, both ends included. -/
def blankRanges : List (Nat × Nat) :=
  [(0x09, 0x0D), (0x1C, 0x20), (0x85, 0x85), (0xA0, 0xA0), (0x1680, 0x1680),
   (0x2000, 0x200A), (0x2028, 0x2029), (0x202F, 0x202F), (0x205F, 0x205F), (0x3000, 0x3000)]

/-- Whether a character is blank. -/
def isBlank (c : Char) : Bool :=
  blankRanges.any (fun r => decide (r.1 ≤ c.toNat) && decide (c.toNat ≤ r.2))

/-- A character list with its trailing blanks dropped. -/
def dropTrailingBlanks (cs : List Char) : List Char :=
  (cs.reverse.dropWhile isBlank).reverse

/-- A text with its trailing blanks dropped. -/
def trimEnd (s : String) : String := String.ofList (dropTrailingBlanks s.toList)

/-- A text with its leading and trailing blanks dropped. -/
def trim (s : String) : String :=
  String.ofList (dropTrailingBlanks (s.toList.dropWhile isBlank))

/-- Whether a text holds only blanks. -/
def isBlankText (s : String) : Bool := s.toList.all isBlank

end Sugiru.Text
