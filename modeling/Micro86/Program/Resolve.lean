import Micro86.InstructionSet.Basic
import Micro86.Program.Parse

/-!
Operands with their meaning. An immediate operand is a number or the position of a label, a
direct one the address of a variable. A number that is jumped to is a position in the code
or its end.
-/
namespace Micro86

inductive OperandKind
  | literal
  | label
  | storage
  deriving DecidableEq, Repr

def OperandKind.name : OperandKind → String
  | literal => "literal"
  | label => "label"
  | storage => "variable"

structure Operand where
  kind : OperandKind
  text : String
  value : Int
  deriving DecidableEq, Repr

structure ResolvedInstruction where
  instruction : Instruction
  role : Option Role
  isImmediate : Bool
  operand : Option Operand
  deriving DecidableEq, Repr

inductive ResolveError
  | unknownLabel (text : String) (line : Int)
  | unknownVariable (text : String) (line : Int)
  | targetOutOfRange (text : String) (line : Int)
  | unknownOpcode (opcode : Nat)
  | digits (e : Text.TooManyDigits)
  deriving DecidableEq, Repr

/-- The message without its line. -/
def ResolveError.bareMessage : ResolveError → String
  | unknownLabel text _ => s!"Unknown label: {text}"
  | unknownVariable text _ => s!"Unknown variable: {text}"
  | targetOutOfRange text _ => s!"Jump target out of range: {text}"
  | unknownOpcode opcode => (LookupError.opcode opcode).message
  | digits e => e.message

def ResolveError.message (e : ResolveError) : String :=
  match e with
  | unknownLabel _ line | unknownVariable _ line | targetOutOfRange _ line =>
    located e.bareMessage line
  | unknownOpcode _ | digits _ => e.bareMessage

namespace Program

def resolveImmediate (p : Program) (text : String) (line : Int) : Except ResolveError Operand :=
  match Text.readLiteral text.toList with
  | .error e => .error (.digits e)
  | .ok (some v) => .ok ⟨.literal,text,v⟩
  | .ok none =>
    match p.label? text with
    | some position => .ok ⟨.label,text,position⟩
    | none => .error (.unknownLabel text line)

def resolveDirect (p : Program) (text : String) (line : Int) : Except ResolveError Operand :=
  match p.address? text with
  | some address => .ok ⟨.storage,text,address⟩
  | none => .error (.unknownVariable text line)

/-- Refuses a jump to a number that is no position. -/
def checkTarget (p : Program) (role : Option Role) (o : Operand) (line : Int) :
    Except ResolveError Operand :=
  if role.any Role.isJump && o.kind = .literal && (o.value < 0 || p.instructions.length < o.value)
  then .error (.targetOutOfRange o.text line)
  else .ok o

def resolveOperand (p : Program) (e : Entry) (text : String) (line : Int) :
    Except ResolveError Operand := do
  let o ← if e.isImmediate then p.resolveImmediate text line else p.resolveDirect text line
  p.checkTarget e.role o line

def resolveInstruction (isa : InstructionSet) (p : Program) (i : Instruction) :
    Except ResolveError ResolvedInstruction :=
  match isa.byOpcode? i.opcode with
  | none => .error (.unknownOpcode i.opcode)
  | some e =>
    match i.operand with
    | none => .ok ⟨i,e.role,e.isImmediate,none⟩
    | some text => do return ⟨i,e.role,e.isImmediate,some (← p.resolveOperand e text i.line)⟩

/-- Resolves every instruction, in order. -/
def resolve (isa : InstructionSet) (p : Program) : Except ResolveError (List ResolvedInstruction) :=
  p.instructions.mapM (resolveInstruction isa p)

end Program
end Micro86
