import ControlStream.Text.Ranges

/-!
# Blank characters

The white space of Unicode, and cutting it off the ends of a text.

## Main definitions

* `isBlank`: white space.
* `dropBlanks`, `dropTrailingBlanks`, `trimBlanks`: cut blanks off the front, the end or both.
-/

namespace ControlStream

def blankRanges : Ranges :=
  [(0x09, 0x0D), (0x20, 0x20), (0x85, 0x85), (0xA0, 0xA0), (0x1680, 0x1680), (0x2000, 0x200A),
    (0x2028, 0x2029), (0x202F, 0x202F), (0x205F, 0x205F), (0x3000, 0x3000)]

def isBlank (c : Char) : Bool := blankRanges.contains c

def dropBlanks (s : List Char) : List Char := s.dropWhile isBlank

def dropTrailingBlanks (s : List Char) : List Char := (s.reverse.dropWhile isBlank).reverse

def trimBlanks (s : List Char) : List Char := dropTrailingBlanks (dropBlanks s)

end ControlStream
