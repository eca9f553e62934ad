import Micro86.InstructionSet.Basic
import Micro86.Machine.Cpu

/-!
The machine: a program loaded at the start of the memory, the registers, and the input that
is still to be read.
-/
namespace Micro86

inductive FaultCause
  | noProgram
  | memoryViolation
  | programEnd
  | invalidInstruction
  | divisionByZero
  | noInput
  | stepLimit (limit : Text.Writable)
  deriving DecidableEq, Repr

def FaultCause.message : FaultCause → String
  | noProgram => "no program in memory"
  | memoryViolation => "memory violation"
  | programEnd => "program end reached"
  | invalidInstruction => "invalid instruction"
  | divisionByZero => "division by zero"
  | noInput => "cannot read input"
  | stepLimit limit => s!"step limit of {limit.text} reached"

/-- Why and where a machine cannot go on. -/
structure Fault where
  cause : FaultCause
  address : Int
  word : Int := 0
  deriving DecidableEq, Repr

def Fault.message (f : Fault) : String := s!"{f.cause.message} (at {Cpu.hex8 f.address})"

/-- Why a machine does not boot. -/
inductive BootError
  | fault (f : Fault)
  | size (e : SizeError)
  deriving DecidableEq, Repr

structure Machine where
  isa : InstructionSet
  program : Array Int
  memorySize : Int
  resize : Bool
  cpu : Cpu := {}
  /-- The address of the instruction that was fetched last. -/
  current : Nat := 0
  steps : Nat := 0
  halted : Bool := false
  input : List Char := []
  deriving DecidableEq, Repr

namespace Machine

def defaultMemorySize : Int := 20

/-- The least size of at least `needed` cells, in steps of twenty from `size` on. -/
def grownSize (size needed : Int) : Int :=
  if needed ≤ size then size else size+20*((needed - size+19)/20)

/-- Clears the machine and loads its program again, into a memory of no more than `capacity`
cells. The input is not read again. -/
def reset (m : Machine) (capacity : Nat) : Except BootError Machine :=
  if m.program.isEmpty then .error (.fault ⟨.noProgram,0,0⟩)
  else if m.memorySize < m.program.size ∧ !m.resize then
    .error (.fault ⟨.memoryViolation,m.memorySize,0⟩)
  else do
    let cells ← (Cpu.cellCount capacity (grownSize m.memorySize m.program.size)).mapError .size
    return { m with
      cpu := { memory := m.program ++ Array.replicate (cells - m.program.size) 0 }
      current := 0
      steps := 0
      halted := false }

/-- Boots a machine with the given words, where there are `capacity` cells to be had. -/
def boot (capacity : Nat) (isa : InstructionSet) (words : List Int) (memorySize : Int)
    (resize : Bool) (input : List Char) : Except BootError Machine :=
  reset {
    isa := isa, program := (words.map Word.signed).toArray, memorySize := memorySize,
    resize := resize, input := input } capacity

def read (m : Machine) (address : Int) : Except Fault Int :=
  if m.cpu.inBounds address then .ok (m.cpu.memory.getD address.toNat 0)
  else .error ⟨.memoryViolation,address,m.cpu.ir⟩

def write (m : Machine) (address value : Int) : Except Fault Machine :=
  if m.cpu.inBounds address then
    .ok { m with cpu := { m.cpu with
      memory := m.cpu.memory.setIfInBounds address.toNat (Word.signed value) } }
  else .error ⟨.memoryViolation,address,m.cpu.ir⟩

/-- An instruction in words: the mnemonic, and the operand with the cell that it names. -/
def disassemble (m : Machine) (w : Int) : String :=
  let (opcode,operand) := Word.decode w
  match m.isa.byOpcode? opcode with
  | none => Cpu.hexWord w
  | some e =>
    if !e.hasOperand then e.mnemonic
    else
      let text := s!"{e.mnemonic}\t\t{Cpu.hex8 operand}"
      if e.isImmediate || e.role.any Role.isJump then text
      else
        match m.cpu.memory[operand]? with
        | none => text
        | some cell => s!"{text}\t\t|{Cpu.hex8 operand}: {Cpu.hexWord cell}|"

/-- A line for every cell that the program was loaded to, unless one of them is gone. -/
def disassembly? (m : Machine) : Option String := do
  let ls ← (List.range m.program.size).mapM fun (address : Nat) => do
    return s!"{Cpu.hex8 address}:\t{m.disassemble (← m.cpu.memory[address]?)}"
  return Text.unlines (["", "=== DISASSEMBLED CODE ===", ""] ++ ls)

def postmortem (m : Machine) : String :=
  s!"\n=== POST-MORTEM DUMP ===\n\nCPU:\n\n{m.cpu.dump}\n\nMEMORY:\n\n{m.cpu.dumpMemory}"

end Machine
end Micro86
