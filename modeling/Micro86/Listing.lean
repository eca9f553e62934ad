import Micro86.Journal
import Micro86.Text.Blank
import Micro86.Text.Numeral
import Micro86.Text.Search

/-!
Word listings: one word a line, of one to eight hexadecimal digits; a number sign starts a
comment. The first bad line ends the reading.
-/
namespace Micro86

/-- A line that is no word, with its number, its whole text and the listing's name. -/
structure ListingError where
  line : Nat
  text : List Char
  source : String
  deriving DecidableEq, Repr

/-- The message without its place. -/
def ListingError.bareMessage : String := "Invalid instruction"

def ListingError.message (e : ListingError) : String :=
  s!"{ListingError.bareMessage} (line {e.line} in {e.source})"

namespace Listing

/-- A line before its comment, without the blanks around it. -/
def content (line : List Char) : List Char := Text.trim (Text.before ['#'] line)

def isWord (text : List Char) : Bool :=
  1 ≤ text.length && text.length ≤ 8 && text.all Text.isHexDigit

/-- The words of the lines; `read` holds those so far, last first. -/
def wordsFrom (source : String) (read : List Nat) :
    List (List Char × Nat) → Except ListingError (List Nat)
  | [] => .ok read.reverse
  | (text,line) :: rest =>
    let word := content text
    if word.isEmpty then wordsFrom source read rest
    else if isWord word then wordsFrom source (Text.hexValue word :: read) rest
    else .error ⟨line,text,source⟩

def parse (source : String) (text : List Char) : Except ListingError (List Nat) :=
  wordsFrom source [] (Text.numberedLines text)

/-- What is reported when a listing has been read. -/
def records (source : String) (words : List Nat) : List Record :=
  [⟨.debug,.listing,s!"{source}: {words.length} words read"⟩]

end Listing
end Micro86
