/-!
Lines of a text. A carriage return followed by a line feed is one break, and a break at
the very end opens no further line.
-/
namespace Micro86.Text

/-- The characters that end a line. -/
def isLineBreak (c : Char) : Bool :=
  [0x0A, 0x0B, 0x0C, 0x0D, 0x1C, 0x1D, 0x1E, 0x85, 0x2028, 0x2029].contains c.toNat

/-- One character of `unifyBreaks`: the unified rest, and whether a line feed starts it. -/
def breakStep (c : Char) (rest : List Char × Bool) : List Char × Bool :=
  if c = '\r' then (if rest.2 then rest.1 else '\n' :: rest.1,false)
  else (c :: rest.1,c = '\n')

/-- Writes a carriage return, alone or before a line feed, as one line feed. -/
def unifyBreaks (text : List Char) : List Char := (text.foldr breakStep ([],false)).1

/-- The lines of a text, without their breaks. -/
def lines (text : List Char) : List (List Char) :=
  let parts := (unifyBreaks text).splitOnP isLineBreak
  if parts.getLast? = some [] then parts.dropLast else parts

/-- Lines with their numbers, counted from one. -/
def numberedLines (text : List Char) : List (List Char × Nat) := (lines text).zipIdx 1

/-- Every line, followed by a line feed. -/
def unlines (ls : List String) : String := String.join (ls.map (· ++ "\n"))

/-- The text without one line feed at its end. -/
def dropFinalBreak (text : List Char) : List Char :=
  if text.getLast? = some '\n' then text.dropLast else text

end Micro86.Text
