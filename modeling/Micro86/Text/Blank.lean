import Micro86.Text.Line

/-! Blank characters, and the words between them. -/
namespace Micro86.Text

/-- Line breaks, tabs and the spaces of every width. -/
def isBlank (c : Char) : Bool :=
  isLineBreak c || [0x09, 0x1F, 0x20, 0xA0, 0x1680, 0x202F, 0x205F, 0x3000].contains c.toNat ||
    (0x2000 ≤ c.toNat && c.toNat ≤ 0x200A)

/-- The maximal runs of characters that are not blank. -/
def words (text : List Char) : List (List Char) :=
  (text.splitOnP isBlank).filter fun word => !word.isEmpty

/-- The text without the blanks at its two ends. -/
def trim (text : List Char) : List Char :=
  ((text.dropWhile isBlank).reverse.dropWhile isBlank).reverse

end Micro86.Text
