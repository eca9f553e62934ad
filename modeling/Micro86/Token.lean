import Micro86.Text.Blank
import Micro86.Text.Search

/-!
Tokens of a source text: the words of every line, up to the comment marker, with the number
of the line.
-/
namespace Micro86

structure Token where
  value : String
  /-- The line of the token; zero for a token that stands in no text. -/
  line : Int
  deriving DecidableEq, Repr

/-- An empty text cannot mark a comment. -/
inductive MarkerError
  | empty
  deriving DecidableEq, Repr

def MarkerError.message : MarkerError → String
  | .empty => "empty separator"

namespace Source

/-- The marker of comments in assembly sources. -/
def comment : List Char := [';']

/-- The words of one line before its comment. -/
def lineTokens (marker : List Char) (line : List Char × Nat) : List Token :=
  (Text.words (Text.before marker line.1)).map fun word => ⟨String.ofList word,line.2⟩

def tokens (marker text : List Char) : List Token :=
  (Text.numberedLines text).flatMap (lineTokens marker)

/-- The lines of a text up to their comments. -/
def stripComments (marker text : List Char) : List Char :=
  ['\n'].intercalate ((Text.lines text).map (Text.before marker))

/-- Refuses an empty marker, as soon as there is a line to look for it in. -/
def checkMarker (marker text : List Char) : Except MarkerError Unit :=
  if marker.isEmpty && !(Text.lines text).isEmpty then .error .empty else .ok ()

end Source
end Micro86
