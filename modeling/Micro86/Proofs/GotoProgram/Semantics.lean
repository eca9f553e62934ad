import Micro86.GotoProgram.Basic
import Micro86.Proofs.Word

/-!
The meaning of programs of labelled statements, as C++ has it. An integer has 32 bits, a
character eight bits and a sign. A run has no meaning from the first statement on that leaves
the integers, divides by zero, uses what is not set, or reads at the end of the input.
-/
namespace Micro86.GotoProgram

/-- Why a run has no meaning from here on. -/
inductive Undefined
  | overflow
  | zeroDivisor
  | unset
  | endOfInput
  /-- No statement has the label that is jumped to. -/
  | noLabel
  deriving DecidableEq, Repr

structure State where
  /-- The operation that comes next; behind the last one stands the exit. -/
  place : Nat := 0
  acc : Int := 0
  comparison : Option Int := none
  byte : Option Int := none
  store : String → Int
  input : List Char
  output : List Char := []
  /-- The code of the exit that was taken. -/
  exited : Option Nat := none

/-- Before the first operation: the declared variables have their values. -/
def start (g : GotoProgram) (input : List Char) : State where
  store name := (g.declarations.lookup name).getD 0
  input := input

def integer (n : Int) : Except Undefined Int :=
  if Word.InRange n then .ok n else .error .overflow

def assigned (value : Option Int) : Except Undefined Int :=
  match value with
  | some n => .ok n
  | none => .error .unset

def Expr.eval (s : State) : Expr → Except Undefined Int
  | cell name => .ok (s.store name)
  | number n => integer n

/-- Division cuts towards zero. A remainder has no meaning where its quotient has none. -/
def Operator.apply (op : Operator) (a b : Int) : Except Undefined Int :=
  match op with
  | add => integer (a+b)
  | sub => integer (a - b)
  | mul => integer (a*b)
  | div => if b = 0 then .error .zeroDivisor else integer (a.tdiv b)
  | mod => if b = 0 then .error .zeroDivisor else do
    let _ ← integer (a.tdiv b)
    return a.tmod b

def Test.holds : Test → Int → Bool
  | eq,n => n = 0
  | ne,n => n ≠ 0
  | lt,n => n < 0
  | le,n => n ≤ 0
  | gt,n => 0 < n
  | ge,n => 0 ≤ n

/-- Where a run goes behind a statement. -/
inductive Next
  | on
  | goto (label : String)
  | exit (code : Nat)
  deriving DecidableEq, Repr

def Statement.exec (s : State) : Statement → Except Undefined (State × Next)
  | exit code => .ok (s,.exit code)
  | load e => do return ({ s with acc := ← e.eval s },.on)
  | store name =>
    .ok ({ s with store := fun other => if other = name then s.acc else s.store other },.on)
  | compute op e => do return ({ s with acc := ← op.apply s.acc (← e.eval s) },.on)
  | compare e => do
    return ({ s with comparison := some (← integer (s.acc - (← e.eval s))) },.on)
  | jump label => .ok (s,.goto label)
  | branch test label => do
    return (s,if test.holds (← assigned s.comparison) then .goto label else .on)
  | readByte =>
    match s.input with
    | [] => .error .endOfInput
    | c :: rest => .ok ({ s with byte := some ((c.toNat : Int).bmod 0x100), input := rest },.on)
  | takeByte => do return ({ s with acc := ← assigned s.byte },.on)
  | writeChar =>
    .ok ({ s with output := s.output ++ [Char.ofNat (s.acc % 0x100).toNat] },.on)

/-- Statements one behind the other, up to the first that goes elsewhere. -/
def execAll (s : State) : List Statement → Except Undefined (State × Next)
  | [] => .ok (s,.on)
  | c :: rest => do
    match ← c.exec s with
    | (s,.on) => execAll s rest
    | away => return away

/-- The labels of every place, with those of the exit behind the last operation. -/
def labelSets (g : GotoProgram) : List (List String) :=
  g.operations.map Operation.labels ++ [g.endLabels]

def find? (g : GotoProgram) (label : String) : Option Nat :=
  g.labelSets.findIdx? fun labels => labels.contains label

def move (g : GotoProgram) (s : State) : Next → Except Undefined State
  | .on => .ok { s with place := s.place+1 }
  | .goto label =>
    match g.find? label with
    | some place => .ok { s with place := place }
    | none => .error .noLabel
  | .exit code => .ok { s with exited := some code }

/-- The statements of an operation, and then where they lead. -/
def operate (g : GotoProgram) (s : State) (block : List Statement) : Except Undefined State := do
  let (s,next) ← execAll s block
  g.move s next

/-- One operation, or the exit behind the last of them. A run that was left stays as it is. -/
def step (g : GotoProgram) (s : State) : Except Undefined State :=
  if s.exited.isSome then .ok s
  else
    match g.operations[s.place]? with
    | none => .ok { s with exited := some 1 }
    | some o => g.operate s o.statements

/-- The state after a number of operations, all of which must have a meaning. -/
def after (g : GotoProgram) : Nat → State → Except Undefined State
  | 0,s => .ok s
  | n+1,s => after g n s >>= g.step

end Micro86.GotoProgram
