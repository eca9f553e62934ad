import Micro86.Token

/-!
Programs with symbolic operands. The instructions are counted from zero; a label is the
position of the instruction that follows it, and the variables lie behind the code in the
order of their declarations.
-/
namespace Micro86

structure Instruction where
  opcode : Nat
  mnemonic : String
  operand : Option String
  line : Int
  deriving DecidableEq, Repr

structure Program where
  instructions : List Instruction := []
  labels : List (String × Nat) := []
  vars : List (String × Int) := []
  deriving DecidableEq, Repr

namespace Program

def label? (p : Program) (name : String) : Option Nat := p.labels.lookup name

/-- The names of a position, in the order of their declarations. -/
def labelsAt (p : Program) (position : Int) : List String :=
  (p.labels.filter fun l => (l.2 : Int) = position).map Prod.fst

def hasLabel (p : Program) (name : String) : Bool := p.labels.any fun l => l.1 = name

def hasVariable (p : Program) (name : String) : Bool := p.vars.any fun v => v.1 = name

/-- The number of a variable in the order of declarations, counted from one. -/
def ordinal? (p : Program) (name : String) : Option Nat :=
  (p.vars.findIdx? fun v => v.1 = name).map (·+1)

/-- The address of a variable behind the code. -/
def address? (p : Program) (name : String) : Option Nat :=
  (p.vars.findIdx? fun v => v.1 = name).map (p.instructions.length+·)

def addInstruction (p : Program) (i : Instruction) : Program :=
  { p with instructions := p.instructions ++ [i] }

/-- Declares a label for the next instruction. -/
def addLabel (p : Program) (name : String) : Program :=
  { p with labels := p.labels ++ [(name,p.instructions.length)] }

def addVariable (p : Program) (name : String) (value : Int) : Program :=
  { p with vars := p.vars ++ [(name,value)] }

/-- The names that are both a label and a variable, in the order of their characters. -/
def sharedNames (p : Program) : List String :=
  ((p.labels.map Prod.fst).filter p.hasVariable).mergeSort fun a b => !decide (b < a)

end Program

/-- A message with its line, unless it has none. -/
def located (message : String) (line : Int) : String :=
  if line = 0 then message else s!"{message} (line {line})"

end Micro86
