import Micro86.GotoProgram.Statement
import Micro86.Text.Line

/-!
Whole programs of labelled statements: declarations, one operation for every instruction,
and an exit behind the last of them that is reached by running off the code.
-/
namespace Micro86

namespace GotoProgram

/-- The statements of one instruction; the labels stand in front of the first. -/
structure Operation where
  labels : List String
  statements : List Statement
  deriving DecidableEq, Repr

end GotoProgram

structure GotoProgram where
  declarations : List (String × Int)
  operations : List GotoProgram.Operation
  /-- The labels of the exit behind the last operation. -/
  endLabels : List String
  deriving DecidableEq, Repr

namespace GotoProgram

/-- Labels in front of a line. -/
def labelled (labels : List String) (line : String) : String :=
  String.join (labels.map (· ++ ": ")) ++ line

def Operation.lines (o : Operation) : List String :=
  match o.statements with
  | [] => []
  | first :: rest => labelled o.labels first.render :: rest.map Statement.render

def prologue : List String := [
  "#include <iostream>",
  "#include <cstdlib>",
  "using namespace std;",
  "",
  "int main() \x7b",
  s!"int {accumulator} = 0, {comparison};",
  s!"char {byteBuffer};",
  "cin >> noskipws;"]

def lines (g : GotoProgram) : List String :=
  prologue ++ ["", "// === Declarations ===", ""] ++
  (g.declarations.map fun (name,value) => s!"int {name} = {Text.decimal value};") ++
  ["", "// === Operations ===", ""] ++
  g.operations.flatMap Operation.lines ++
  ["", "// === HALT Bypassed ===", "", labelled g.endLabels (Statement.exit 1).render, "\x7d"]

/-- The program as C++ text. -/
def render (g : GotoProgram) : String := Text.unlines g.lines

end GotoProgram
end Micro86
