import Micro86.Machine.Basic

/-!
One step of the machine: fetch the word at the instruction pointer, then do what its opcode
says. A step that fails has fetched at most.
-/
namespace Micro86

/-- What came of a step. -/
structure Outcome where
  halted : Bool := false
  fault : Option Fault := none
  output : Option Char := none
  trace : Option String := none
  deriving DecidableEq, Repr, Inhabited

namespace Outcome

/-- No step comes after this one. -/
def isFinal (o : Outcome) : Bool := o.halted || o.fault.isSome

/-- A character of output stands on a line of its own. -/
def outputText (o : Outcome) : Option String := o.output.map fun c => String.ofList [c,'\n']

end Outcome

/-- What an instruction does beside changing registers and memory. -/
structure Effect where
  machine : Machine
  target : Option Nat := none
  halts : Bool := false
  output : Option Char := none

namespace Machine

/-- Takes the next word into the instruction register. -/
def fetch (m : Machine) : Except Fault Machine :=
  if !m.cpu.inBounds m.cpu.ip then .error ⟨.memoryViolation,m.cpu.ip,0⟩
  else if m.program.size ≤ m.cpu.ip then .error ⟨.programEnd,m.cpu.ip,0⟩
  else
    .ok { m with
      current := m.cpu.ip.toNat
      cpu := { m.cpu with ip := m.cpu.ip+1, ir := m.cpu.memory.getD m.cpu.ip.toNat 0 } }

section
variable (m : Machine) (operand : Nat) (immediate : Bool)

/-- The value of an operand: itself with its sign, or the cell that it names. -/
def value : Except Fault Int :=
  if immediate then .ok (Word.signExtend operand) else m.read operand

def divisor : Except Fault Int := do
  let d ← m.value operand immediate
  if d = 0 then .error ⟨.divisionByZero,m.current,m.cpu.ir⟩ else return d

/-- Puts a number into the accumulator. -/
def accumulate (n : Int) : Effect := { machine := { m with cpu := m.cpu.setAcc n } }

/-- Goes to the operand if the condition holds. -/
def jumpIf (taken : Bool) : Effect :=
  { machine := m, target := if taken then some operand else none }

/-- Does what a role says. Quotients are cut toward zero. -/
def perform : Role → Except Fault Effect
  | .halt => .ok { machine := m, halts := true }
  | .load => do return m.accumulate (← m.value operand immediate)
  | .store => do return { machine := ← m.write operand m.cpu.acc }
  | .add => do return m.accumulate (m.cpu.acc+(← m.value operand immediate))
  | .sub => do return m.accumulate (m.cpu.acc - (← m.value operand immediate))
  | .mul => do return m.accumulate (m.cpu.acc*(← m.value operand immediate))
  | .div => do return m.accumulate (m.cpu.acc.tdiv (← m.divisor operand immediate))
  | .mod => do return m.accumulate (m.cpu.acc.tmod (← m.divisor operand immediate))
  | .cmp => do
    let v ← m.value operand immediate
    return { machine := { m with cpu := m.cpu.setFlags (m.cpu.acc - v) } }
  | .jmp => .ok (m.jumpIf operand true)
  | .je => .ok (m.jumpIf operand m.cpu.zero)
  | .jne => .ok (m.jumpIf operand !m.cpu.zero)
  | .jl => .ok (m.jumpIf operand m.cpu.sign)
  | .jle => .ok (m.jumpIf operand (m.cpu.sign || m.cpu.zero))
  | .jg => .ok (m.jumpIf operand (!m.cpu.zero && !m.cpu.sign))
  | .jge => .ok (m.jumpIf operand (m.cpu.zero || !m.cpu.sign))
  | .input =>
    match m.input with
    | [] => .error ⟨.noInput,m.current,m.cpu.ir⟩
    | c :: rest => .ok (accumulate { m with input := rest } (c.toNat % 0x100))
  | .output => .ok { machine := m, output := some (Char.ofNat (m.cpu.acc % 0x100).toNat) }

end

/-- Does what the fetched word says. -/
def execute (m : Machine) : Except Fault Effect :=
  let (opcode,operand) := Word.decode m.cpu.ir
  match m.isa.byOpcode? opcode with
  | none => .error ⟨.invalidInstruction,m.current,m.cpu.ir⟩
  | some e =>
    match e.role with
    | none => .error ⟨.invalidInstruction,m.current,m.cpu.ir⟩
    | some role => m.perform operand e.isImmediate role

/-- The line that shows a fetched word and the registers. -/
def traceLine (m : Machine) : String :=
  s!"{Cpu.hex8 m.current}:\t{m.disassemble m.cpu.ir}\t\t{m.cpu.dump}"

/-- Counts the step, and goes where the effect says. -/
def apply (e : Effect) : Machine :=
  let m := e.machine
  let ip := if e.halts then m.cpu.ip else (e.target.map Int.ofNat).getD m.cpu.ip
  { m with steps := m.steps+1, halted := m.halted || e.halts, cpu := { m.cpu with ip := ip } }

def step (m : Machine) : Outcome × Machine :=
  if m.halted then ({ halted := true },m)
  else
    match m.fetch with
    | .error f => ({ fault := some f },m)
    | .ok fetched =>
      match fetched.execute with
      | .error f => ({ fault := some f },fetched)
      | .ok e =>
        ({ halted := e.halts, output := e.output, trace := some fetched.traceLine },apply e)

end Machine
end Micro86
