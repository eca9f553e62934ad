import Micro86.Text.Numeral

/-!
Statements over integer variables, an accumulator, the last comparison and a byte of input,
with jumps to named labels. They are written in C++.
-/
namespace Micro86.GotoProgram

def accumulator : String := "_acc"
def comparison : String := "_cmp"
def byteBuffer : String := "_byte"

/-- What a statement reads. -/
inductive Expr
  | cell (name : String)
  | number (value : Int)
  deriving DecidableEq, Repr

inductive Operator
  | add
  | sub
  | mul
  | div
  | mod
  deriving DecidableEq, Repr

/-- How the last comparison is tested against zero. -/
inductive Test
  | eq
  | ne
  | lt
  | le
  | gt
  | ge
  deriving DecidableEq, Repr

inductive Statement
  | exit (code : Nat)
  | load (e : Expr)
  | store (name : String)
  | compute (op : Operator) (e : Expr)
  | compare (e : Expr)
  | jump (label : String)
  | branch (test : Test) (label : String)
  | readByte
  | takeByte
  | writeChar
  deriving DecidableEq, Repr

def Expr.render : Expr → String
  | cell name => name
  | number value => Text.decimal value

def Operator.render : Operator → String
  | add => "+"
  | sub => "-"
  | mul => "*"
  | div => "/"
  | mod => "%"

def Test.render : Test → String
  | eq => "=="
  | ne => "!="
  | lt => "<"
  | le => "<="
  | gt => ">"
  | ge => ">="

def Statement.render : Statement → String
  | exit code => s!"exit({code});"
  | load e => s!"{accumulator} = {e.render};"
  | store name => s!"{name} = {accumulator};"
  | compute op e => s!"{accumulator} {op.render}= {e.render};"
  | compare e => s!"{comparison} = {accumulator} - {e.render};"
  | jump label => s!"goto {label};"
  | branch test label => s!"if ({comparison} {test.render} 0) goto {label};"
  | readByte => s!"cin >> {byteBuffer};"
  | takeByte => s!"{accumulator} = (int) {byteBuffer};"
  | writeChar => s!"cout << (char) {accumulator};"

end Micro86.GotoProgram
