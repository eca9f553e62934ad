/-! The first occurrence of one text in another. -/
namespace Micro86.Text

/-- Where `needle` first starts, counting from `start`. -/
def indexFrom? (needle : List Char) : Nat → List Char → Option Nat
  | i,[] => if needle.isEmpty then some i else none
  | i,c :: rest => if needle.isPrefixOf (c :: rest) then some i else indexFrom? needle (i+1) rest

def indexOf? (needle text : List Char) : Option Nat := indexFrom? needle 0 text

/-- The text before the first `needle`, all of it where there is none. -/
def before (needle text : List Char) : List Char :=
  match indexOf? needle text with
  | some i => text.take i
  | none => text

/-- The text after the first `needle`. -/
def after? (needle text : List Char) : Option (List Char) :=
  (indexOf? needle text).map fun i => text.drop (i+needle.length)

end Micro86.Text
