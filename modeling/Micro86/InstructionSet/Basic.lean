import Micro86.InstructionSet.Role
import Micro86.Text.Numeral

/-!
An instruction set is the list of its entries, in the order of their lines. A later entry
takes the place of an earlier one with the same opcode, and likewise for mnemonics; the two
tables do not depend on each other.
-/
namespace Micro86

structure Entry where
  mnemonic : String
  opcode : Nat
  hasOperand : Bool
  isImmediate : Bool
  role : Option Role
  line : Nat
  deriving DecidableEq, Repr

structure InstructionSet where
  /-- The name of the text that the entries were read from. -/
  source : String
  entries : List Entry
  deriving DecidableEq, Repr

/-- A key that an instruction set does not have. -/
inductive LookupError
  | mnemonic (name : String)
  | opcode (number : Int)
  deriving DecidableEq, Repr

def LookupError.message : LookupError → String
  | .mnemonic name => s!"Unknown mnemonic: {name}"
  | .opcode number => s!"Unknown opcode: 0x{Text.hexPadded 4 number}"

namespace InstructionSet

/-- The word that declares a variable. -/
def keyword : String := "VAR"

def byOpcode? (isa : InstructionSet) (opcode : Int) : Option Entry :=
  isa.entries.findRev? fun e => (e.opcode : Int) = opcode

def byMnemonic? (isa : InstructionSet) (mnemonic : String) : Option Entry :=
  isa.entries.findRev? fun e => e.mnemonic = mnemonic

def ofOpcode (isa : InstructionSet) (opcode : Int) : Except LookupError Entry :=
  match isa.byOpcode? opcode with
  | some e => .ok e
  | none => .error (.opcode opcode)

def ofMnemonic (isa : InstructionSet) (mnemonic : String) : Except LookupError Entry :=
  match isa.byMnemonic? mnemonic with
  | some e => .ok e
  | none => .error (.mnemonic mnemonic)

def opcodeOf (isa : InstructionSet) (mnemonic : String) : Except LookupError Nat :=
  (isa.ofMnemonic mnemonic).map Entry.opcode

def mnemonicOf (isa : InstructionSet) (opcode : Int) : Except LookupError String :=
  (isa.ofOpcode opcode).map Entry.mnemonic

/-- All opcodes, in the order of their first lines. -/
def opcodes (isa : InstructionSet) : List Nat := (isa.entries.map Entry.opcode).eraseDups

/-- All mnemonics, in the order of their first lines. -/
def mnemonics (isa : InstructionSet) : List String := (isa.entries.map Entry.mnemonic).eraseDups

def isMnemonic (isa : InstructionSet) (word : String) : Bool := (isa.byMnemonic? word).isSome

def isOpcode (isa : InstructionSet) (number : Int) : Bool := (isa.byOpcode? number).isSome

/-- The opcodes with an immediate operand. -/
def immediateOpcodes (isa : InstructionSet) : List Nat :=
  isa.opcodes.filter fun o => (isa.byOpcode? o).any Entry.isImmediate

/-- Whether an opcode is one of those, if it is an opcode at all. -/
def hasImmediate (isa : InstructionSet) (opcode : Int) : Except LookupError Bool :=
  (isa.ofOpcode opcode).map fun _ => isa.immediateOpcodes.any fun o => (o : Int) = opcode

/-- The words that cannot name a label or a variable. -/
def isReserved (isa : InstructionSet) (word : String) : Bool :=
  word = keyword || isa.isMnemonic word

def reservedWords (isa : InstructionSet) : List String := (keyword :: isa.mnemonics).eraseDups

end InstructionSet
end Micro86
