import Micro86.GotoProgram.Basic
import Micro86.Program.Resolve

/-!
From instructions to labelled statements. Names that the target language or the generated
code uses are refused; a number that is jumped to gets a label of its own.
-/
namespace Micro86

inductive GotoError
  | reservedName (name : String)
  | clashingName (name : String)
  | digits (e : Text.TooManyDigits)
  | resolve (e : ResolveError)
  | unmapped (mnemonic : String) (opcode : Nat) (line : Int)
  | extraOperand (mnemonic : String) (role : Role) (line : Int)
  | missingOperand (mnemonic : String) (role : Role) (line : Int)
  | notStorage (mnemonic : String) (role : Role) (found : String) (line : Int)
  | notTarget (mnemonic : String) (role : Role) (found : String) (line : Int)
  deriving DecidableEq, Repr

namespace GotoError

/-- The message without its line. -/
def bareMessage : GotoError → String
  | reservedName name => s!"{name} cannot be used as a C++ identifier"
  | clashingName name => s!"{name} clashes with a generated jump label"
  | digits e => e.message
  | resolve e => e.bareMessage
  | unmapped mnemonic opcode _ =>
    s!"No C++ statement for {mnemonic} (0x{Text.hexPadded 4 opcode})"
  | extraOperand mnemonic role _ => s!"{mnemonic} ({role.name}) takes no operand"
  | missingOperand mnemonic role _ => s!"{mnemonic} ({role.name}) requires an operand"
  | notStorage mnemonic role found _ =>
    s!"{mnemonic} ({role.name}) requires a variable, got {found}"
  | notTarget mnemonic role found _ =>
    s!"{mnemonic} ({role.name}) requires a label, got variable {found}"

def message (e : GotoError) : String :=
  match e with
  | reservedName _ | clashingName _ | digits _ => e.bareMessage
  | resolve r => r.message
  | unmapped _ _ line | extraOperand _ _ line | missingOperand _ _ line
  | notStorage _ _ _ line | notTarget _ _ _ line => located e.bareMessage line

end GotoError

namespace GotoProgram

/-- The names that the generated code itself uses. -/
def generatedNames : List String :=
  [accumulator, comparison, byteBuffer, "main", "cin", "cout", "exit", "std", "noskipws"]

/-- The keywords of C++. -/
def keywords : List String := [
  "alignas", "alignof", "and", "and_eq", "asm", "auto", "bitand", "bitor", "bool", "break",
  "case", "catch", "char", "class", "compl", "const", "constexpr", "const_cast", "continue",
  "decltype", "default", "delete", "do", "double", "dynamic_cast", "else", "enum", "explicit",
  "export", "extern", "false", "float", "for", "friend", "goto", "if", "inline", "int", "long",
  "mutable", "namespace", "new", "noexcept", "not", "not_eq", "nullptr", "operator", "or",
  "or_eq", "private", "protected", "public", "register", "reinterpret_cast", "return", "short",
  "signed", "sizeof", "static", "static_assert", "static_cast", "struct", "switch", "template",
  "this", "throw", "true", "try", "typedef", "typeid", "typename", "union", "unsigned", "using",
  "virtual", "void", "volatile", "wchar_t", "while", "xor", "xor_eq"]

/-- The label of a position that is jumped to by its number. -/
def positionLabel (position : Int) : String := s!"_L{Text.decimal position}"

/-- The digits of a name that has the form of a position's label. -/
def positionDigits? (name : String) : Option (List Char) :=
  match Text.dropFinalBreak name.toList with
  | '_' :: 'L' :: digits =>
    if !digits.isEmpty && digits.all Text.isDecimalDigit then some digits else none
  | _ => none

/-- Refuses a declared name that would mean something else in the generated code. A name of
the form of a position's label is allowed for a label at just that position. -/
def checkName (p : Program) (name : String) : Except GotoError Unit :=
  if keywords.contains name || generatedNames.contains name then .error (.reservedName name)
  else
    match positionDigits? name with
    | none => .ok ()
    | some digits =>
      match Text.readDecimal digits with
      | .error e => .error (.digits e)
      | .ok n => if p.label? name = some n then .ok () else .error (.clashingName name)

def checkNames (p : Program) : Except GotoError Unit :=
  (p.vars.map Prod.fst ++ p.labels.map Prod.fst).forM (checkName p)

section
variable (i : ResolvedInstruction) (role : Role)

def noOperand : Except GotoError Unit :=
  match i.operand with
  | none => .ok ()
  | some _ => .error (.extraOperand i.instruction.mnemonic role i.instruction.line)

def someOperand : Except GotoError Operand :=
  match i.operand with
  | some o => .ok o
  | none => .error (.missingOperand i.instruction.mnemonic role i.instruction.line)

/-- The operand of a statement that reads a value. -/
def valueOperand : Except GotoError Expr := do
  let o ← someOperand i role
  match o.kind with
  | .storage => return .cell o.text
  | .literal | .label => return .number o.value

/-- The operand of a statement that writes a variable. -/
def storageOperand : Except GotoError String := do
  let o ← someOperand i role
  match o.kind with
  | .storage => return o.text
  | .literal | .label => .error (.notStorage i.instruction.mnemonic role o.text i.instruction.line)

/-- The operand of a statement that jumps. -/
def targetOperand : Except GotoError String := do
  let o ← someOperand i role
  match o.kind with
  | .label => return o.text
  | .literal => return positionLabel o.value
  | .storage => .error (.notTarget i.instruction.mnemonic role o.text i.instruction.line)

/-- The statements of a role. -/
def statements : Except GotoError (List Statement) := do
  match role with
  | .halt => noOperand i role; return [.exit 0]
  | .load => return [.load (← valueOperand i role)]
  | .store => return [.store (← storageOperand i role)]
  | .add => return [.compute .add (← valueOperand i role)]
  | .sub => return [.compute .sub (← valueOperand i role)]
  | .mul => return [.compute .mul (← valueOperand i role)]
  | .div => return [.compute .div (← valueOperand i role)]
  | .mod => return [.compute .mod (← valueOperand i role)]
  | .cmp => return [.compare (← valueOperand i role)]
  | .jmp => return [.jump (← targetOperand i role)]
  | .je => return [.branch .eq (← targetOperand i role)]
  | .jne => return [.branch .ne (← targetOperand i role)]
  | .jl => return [.branch .lt (← targetOperand i role)]
  | .jle => return [.branch .le (← targetOperand i role)]
  | .jg => return [.branch .gt (← targetOperand i role)]
  | .jge => return [.branch .ge (← targetOperand i role)]
  | .input => noOperand i role; return [.readByte, .takeByte]
  | .output => noOperand i role; return [.writeChar]

end

/-- An instruction with its role, which it must have. -/
def withRole (i : ResolvedInstruction) : Except GotoError (ResolvedInstruction × Role) :=
  match i.role with
  | some role => .ok (i,role)
  | none =>
    .error (.unmapped i.instruction.mnemonic i.instruction.opcode i.instruction.line)

/-- The position that an instruction jumps to by its number. -/
def numericTarget? (i : ResolvedInstruction × Role) : Option Int :=
  match i.1.operand with
  | some o => if i.2.isJump && o.kind = .literal then some o.value else none
  | none => none

/-- The labels of a position: the declared ones, then its own if it is needed. -/
def labelsAt (p : Program) (numeric : List Int) (position : Nat) : List String :=
  let declared := p.labelsAt position
  let own := positionLabel position
  if numeric.contains (position : Int) && !declared.contains own then declared ++ [own]
  else declared

def operation (p : Program) (numeric : List Int) (i : (ResolvedInstruction × Role) × Nat) :
    Except GotoError Operation := do
  return ⟨labelsAt p numeric i.2,← statements i.1.1 i.1.2⟩

def ofProgram (isa : InstructionSet) (p : Program) : Except GotoError GotoProgram := do
  checkNames p
  let resolved ← (p.resolve isa).mapError .resolve
  let instructions ← resolved.mapM withRole
  let numeric := instructions.filterMap numericTarget?
  let operations ← instructions.zipIdx.mapM (operation p numeric)
  return ⟨p.vars,operations,labelsAt p numeric p.instructions.length⟩

/-- What is reported when a program has been made. -/
def records (g : GotoProgram) : List Record :=
  [⟨.debug,.gotoProgram,
    s!"translated {g.operations.length} operations into {g.lines.length} lines"⟩]

end GotoProgram
end Micro86
