import Micro86.Text.Numeral
import Micro86.Text.Search

/-!
Banners around generated text: a header of comments with the circumstances, the text itself,
and a line that marks its end.
-/
namespace Micro86

/-- A moment of local time. -/
structure Moment where
  year : Int
  month : Int
  day : Int
  hour : Int
  minute : Int
  second : Int
  deriving DecidableEq, Repr

def Moment.render (m : Moment) : String :=
  let two := Text.decimalPadded 2
  s!"{two m.hour}:{two m.minute}:{two m.second}, {two m.month}/{two m.day}/{Text.decimal m.year}"

/-- What the text inside a banner is. -/
inductive BannerKind
  | words
  | code
  deriving DecidableEq, Repr

namespace BannerKind

/-- The characters that start a comment. -/
def comment : BannerKind → String
  | words => "#"
  | code => "//"

def title : BannerKind → String
  | words => "Micro86 instructions."
  | code => "C++ code."

def done : BannerKind → String
  | words => "Assembled"
  | code => "Translated"

def doing : BannerKind → String
  | words => "assembling"
  | code => "translating"

def units : BannerKind → String
  | words => "instructions"
  | code => "operations"

end BannerKind

/-- The circumstances that a header tells. -/
structure Circumstances where
  count : Int
  vars : Int
  elapsed : Int
  now : Moment
  deriving DecidableEq, Repr

namespace Banner

/-- The circumstances as they stand in a header. -/
structure Figures where
  count : String
  vars : String
  elapsed : String
  date : String
  deriving DecidableEq, Repr

/-- The line that the text follows. -/
def opening (kind : BannerKind) : String := s!"{kind.comment} === CODE === {kind.comment}\n\n"

/-- What follows the text. -/
def closing (kind : BannerKind) : String := s!"\n{kind.comment} === EOF === {kind.comment}\n"

def header (kind : BannerKind) (f : Figures) : String :=
  s!"{kind.comment} {kind.title}\n" ++
  s!"{kind.comment} {kind.done} using M86Asm.\n" ++
  s!"{kind.comment} Dated: {f.date}.\n" ++
  s!"{kind.comment} Approx. {kind.doing} time: {f.elapsed} ms.\n" ++
  s!"{kind.comment} Number of {kind.units}: {f.count}.\n" ++
  s!"{kind.comment} Number of memory units allocated: {f.vars}.\n\n"

/-- A text with a banner around it. -/
def frame (kind : BannerKind) (f : Figures) (body : String) : String :=
  header kind f ++ opening kind ++ body ++ closing kind

/-- Puts a banner around a text, unless one of its numbers cannot be written. -/
def wrap (kind : BannerKind) (c : Circumstances) (body : String) :
    Except Text.Unwritable String := do
  let elapsed ← Text.writable c.elapsed
  let count ← Text.writable c.count
  let vars ← Text.writable c.vars
  return frame kind ⟨count.text,vars.text,elapsed.text,c.now.render⟩ body

/-- The text inside a banner of one kind. -/
def inner? (kind : BannerKind) (text : List Char) : Option (List Char) :=
  let last := (closing kind).toList
  if last.isSuffixOf text then
    (Text.after? (opening kind).toList text).map fun rest => rest.take (rest.length - last.length)
  else none

/-- Takes a banner off; a text without one stays as it is. -/
def strip (text : List Char) : List Char :=
  ((inner? .words text).or (inner? .code text)).getD text

end Banner
end Micro86
