/-! What the stages of the tools report while they work. -/
namespace Micro86

inductive Level
  | debug
  | info
  | warning
  | error
  deriving DecidableEq, Repr

namespace Level

def name : Level → String
  | debug => "DEBUG"
  | info => "INFO"
  | warning => "WARNING"
  | error => "ERROR"

def rank : Level → Nat
  | debug => 0
  | info => 1
  | warning => 2
  | error => 3

end Level

/-- The part of the library that a record comes from. -/
inductive Topic
  | instructionSet
  | program
  | image
  | gotoProgram
  | listing
  | command
  deriving DecidableEq, Repr

structure Record where
  level : Level
  topic : Topic
  message : String
  deriving DecidableEq, Repr

namespace Record

/-- The line that a terminal shows. -/
def line (r : Record) : String := s!"[{r.level.name}] {r.message}\n"

/-- The lines of all records that are at least as serious as `level`. -/
def render (level : Level) (records : List Record) : String :=
  String.join ((records.filter fun r => level.rank ≤ r.level.rank).map line)

end Record
end Micro86
