import Micro86.Machine.Basic
import Micro86.Program.Resolve
import Micro86.Proofs.Fallible

/-!
The meaning of a program at the level of its source. There are no addresses and no words:
variables are names with values, a jump goes to a position in the list of instructions, and
arithmetic is that of signed words. Every step that takes no jump goes on to the next position.
-/
namespace Micro86

structure SourceState where
  /-- The position of the next instruction. -/
  pc : Nat := 0
  acc : Int := 0
  zero : Bool := false
  sign : Bool := false
  store : String → Int
  input : List Char
  output : String := ""
  halted : Bool := false

/-- Why and at which position a program cannot go on. -/
structure SourceFault where
  cause : FaultCause
  position : Nat
  deriving DecidableEq, Repr

namespace SourceState

/-- Before the first step: variables have their declared values. -/
def start (p : Program) (input : List Char) : SourceState where
  store name := (p.vars.lookup name).getD 0
  input := input

section
variable (s : SourceState)

/-- Goes on to the next position. -/
def advance : SourceState := { s with pc := s.pc+1 }

/-- Puts a number into the accumulator, cut to a signed word. -/
def accumulate (n : Int) : SourceState := { s.advance with acc := Word.signed n }

/-- Sets the flags for the sign of a number, cut to a signed word. -/
def compare (n : Int) : SourceState :=
  { s.advance with zero := Word.signed n = 0, sign := Word.signed n < 0 }

/-- Gives a variable the value of the accumulator. -/
def assign (name : String) : SourceState :=
  { s.advance with store := fun other => if other = name then s.acc else s.store other }

/-- Goes to a position if the condition holds, and on to the next one if not. -/
def goto (position : Nat) (taken : Bool) : SourceState :=
  if taken then { s with pc := position } else s.advance

/-- Shows the character of a number, cut to eight bits, on a line of its own. -/
def emit : SourceState :=
  { s.advance with
    output := s.output ++ String.ofList [Char.ofNat (s.acc % 0x100).toNat,'\n'] }

end

/-- The meaning of an operand that is read: the named variable, or the number with its sign. -/
def value (s : SourceState) (r : ResolvedInstruction) : Except FaultCause Int :=
  match r.operand with
  | none => .error .invalidInstruction
  | some o => .ok (if r.isImmediate then Word.signExtend o.value else s.store o.text)

def divisor (s : SourceState) (r : ResolvedInstruction) : Except FaultCause Int := do
  let d ← s.value r
  if d = 0 then .error .divisionByZero else return d

/-- The position that a jump names. -/
def target (r : ResolvedInstruction) : Except FaultCause Nat :=
  match r.operand with
  | none => .error .invalidInstruction
  | some o => .ok o.value.toNat

/-- The variable that is written. -/
def destination (r : ResolvedInstruction) : Except FaultCause String :=
  match r.operand with
  | none => .error .invalidInstruction
  | some o => if r.isImmediate then .error .invalidInstruction else .ok o.text

/-- One instruction, by its role. -/
def perform (s : SourceState) (r : ResolvedInstruction) : Role → Except FaultCause SourceState
  | .halt => .ok { s.advance with halted := true }
  | .load => do return s.accumulate (← s.value r)
  | .store => do return s.assign (← destination r)
  | .add => do return s.accumulate (s.acc+(← s.value r))
  | .sub => do return s.accumulate (s.acc - (← s.value r))
  | .mul => do return s.accumulate (s.acc*(← s.value r))
  | .div => do return s.accumulate (s.acc.tdiv (← s.divisor r))
  | .mod => do return s.accumulate (s.acc.tmod (← s.divisor r))
  | .cmp => do return s.compare (s.acc - (← s.value r))
  | .jmp => do return s.goto (← target r) true
  | .je => do return s.goto (← target r) s.zero
  | .jne => do return s.goto (← target r) !s.zero
  | .jl => do return s.goto (← target r) s.sign
  | .jle => do return s.goto (← target r) (s.sign || s.zero)
  | .jg => do return s.goto (← target r) (!s.zero && !s.sign)
  | .jge => do return s.goto (← target r) (s.zero || !s.sign)
  | .input =>
    match s.input with
    | [] => .error .noInput
    | c :: rest => .ok (accumulate { s with input := rest } (c.toNat % 0x100))
  | .output => .ok s.emit

/-- One step. A program that has halted stays as it is. -/
def step (code : List ResolvedInstruction) (s : SourceState) : Except SourceFault SourceState :=
  if s.halted then .ok s
  else
    match code[s.pc]? with
    | none => .error ⟨.programEnd,s.pc⟩
    | some r =>
      match r.role with
      | none => .error ⟨.invalidInstruction,s.pc⟩
      | some role => (s.perform r role).mapError (⟨·,s.pc⟩)

/-- The state after a number of steps, none of which may fail. -/
def after (code : List ResolvedInstruction) : Nat → SourceState → Except SourceFault SourceState
  | 0,s => .ok s
  | n+1,s => after code n s >>= step code

section
variable {s t : SourceState} {r : ResolvedInstruction} {role : Role}

/-- Every step that takes no jump goes on to the next position. -/
theorem pc_of_perform (hjump : role.isJump = false) (h : s.perform r role = .ok t) :
    t.pc = s.pc+1 := by
  cases role <;> simp [Role.isJump] at hjump
  case halt | output => cases h; rfl
  case input =>
    simp only [perform] at h
    split at h
    · simp at h
    · cases h; rfl
  all_goals
    obtain ⟨v,-,h⟩ := bind_eq_ok.mp h
    cases h
    rfl

theorem pc_of_perform_jump {n : Nat} (hjump : role.isJump) (htarget : target r = .ok n)
    (h : s.perform r role = .ok t) : t.pc = n ∨ t.pc = s.pc+1 := by
  have hgoto : ∃ taken, t = s.goto n taken := by
    cases role <;> simp [Role.isJump] at hjump
    all_goals
      simp only [perform,htarget,ok_bind] at h
      cases h
      exact ⟨_,rfl⟩
  obtain ⟨taken,rfl⟩ := hgoto
  cases taken <;> simp [goto,advance]

end
end SourceState
end Micro86
