import Micro86.InstructionSet.Basic
import Micro86.Journal
import Micro86.Program.Basic
import Micro86.Text.Quoted

/-!
Reading a program, one token at a time. A statement is an instruction or a declaration,
with at most one label in front; the phase says which tokens may come next. The first token
that cannot come next ends the reading, and so does an end inside a statement.
-/
namespace Micro86

inductive ParseFault
  | invalidLabel (name : String)
  | duplicateLabel (name : String)
  | danglingLabel (name : String)
  | notAStatement (label found : String)
  | missingOperand (mnemonic : String)
  | missingName
  | invalidVariable (name : String)
  | duplicateVariable (name : String)
  | missingValue (name : String)
  | invalidValue (name found : String)
  | unknownToken (found : String)
  deriving DecidableEq, Repr

def ParseFault.message : ParseFault → String
  | invalidLabel name => s!"Invalid label name: {Text.quote name}"
  | duplicateLabel name => s!"Duplicate label: {name}"
  | danglingLabel name => s!"Label {name} is not followed by an instruction"
  | notAStatement label found =>
    s!"Expected instruction or {InstructionSet.keyword} after label {label}, got {Text.quote found}"
  | missingOperand mnemonic => s!"{mnemonic} requires an operand"
  | missingName => s!"{InstructionSet.keyword} requires a name"
  | invalidVariable name => s!"Invalid variable name: {Text.quote name}"
  | duplicateVariable name => s!"Duplicate variable: {name}"
  | missingValue name => s!"{InstructionSet.keyword} {name} requires a value"
  | invalidValue name found => s!"Invalid initial value for {name}: {Text.quote found}"
  | unknownToken found => s!"Unknown token: {Text.quote found}"

inductive ParseError
  | fault (cause : ParseFault) (token : Token)
  | digits (e : Text.TooManyDigits)
  deriving DecidableEq, Repr

def ParseError.message : ParseError → String
  | fault cause token => located cause.message token.line
  | digits e => e.message

/-- Letters, digits and underscores, no digit first; one line feed may stand at the end. -/
def isIdentifier (name : String) : Bool :=
  match Text.dropFinalBreak name.toList with
  | [] => false
  | c :: rest => (c.isAlpha || c = '_') && rest.all fun d => d.isAlphanum || d = '_'

/-- The names that a label or a variable may have. -/
def InstructionSet.isName (isa : InstructionSet) (name : String) : Bool :=
  isIdentifier name && !isa.isReserved name

/-- The name that a token declares as a label. -/
def Token.label? (t : Token) : Option String :=
  match t.value.toList.getLast? with
  | some ':' => some (String.ofList t.value.toList.dropLast)
  | _ => none

/-- Where in a statement the reading is. -/
inductive Phase
  | statement
  | labelled (name : String) (token : Token)
  | operand (token : Token) (entry : Entry)
  | name (token : Token)
  | value (token : Token)
  deriving DecidableEq, Repr

structure ParseState where
  phase : Phase := .statement
  program : Program := {}
  deriving DecidableEq, Repr

namespace ParseState

/-- Takes the mnemonic or the keyword that starts a statement. -/
def open? (isa : InstructionSet) (p : Program) (t : Token) : Option ParseState :=
  match isa.byMnemonic? t.value with
  | some e =>
    if e.hasOperand then some ⟨.operand t e,p⟩
    else some ⟨.statement,p.addInstruction ⟨e.opcode,e.mnemonic,none,t.line⟩⟩
  | none => if t.value = InstructionSet.keyword then some ⟨.name t,p⟩ else none

/-- Takes a label in front of a statement. -/
def takeLabel (isa : InstructionSet) (p : Program) (t : Token) (name : String) :
    Except ParseError ParseState :=
  if !isa.isName name then .error (.fault (.invalidLabel name) t)
  else if p.hasLabel name then .error (.fault (.duplicateLabel name) t)
  else .ok ⟨.labelled name t,p.addLabel name⟩

/-- Takes the name of a variable. -/
def takeName (isa : InstructionSet) (p : Program) (t : Token) : Except ParseError ParseState :=
  if !isa.isName t.value then .error (.fault (.invalidVariable t.value) t)
  else if p.hasVariable t.value then .error (.fault (.duplicateVariable t.value) t)
  else .ok ⟨.value t,p⟩

/-- Takes the initial value of a variable, a signed number of 32 bits. -/
def takeValue (p : Program) (name t : Token) : Except ParseError ParseState :=
  match Text.readLiteral t.value.toList with
  | .error e => .error (.digits e)
  | .ok none => .error (.fault (.invalidValue name.value t.value) t)
  | .ok (some v) =>
    if v < -0x80000000 ∨ 0x7FFFFFFF < v then .error (.fault (.invalidValue name.value t.value) t)
    else .ok ⟨.statement,p.addVariable name.value v⟩

def step (isa : InstructionSet) (s : ParseState) (t : Token) : Except ParseError ParseState :=
  match s.phase with
  | .statement =>
    match t.label? with
    | some name => takeLabel isa s.program t name
    | none =>
      match open? isa s.program t with
      | some next => .ok next
      | none => .error (.fault (.unknownToken t.value) t)
  | .labelled name _ =>
    match open? isa s.program t with
    | some next => .ok next
    | none => .error (.fault (.notAStatement name t.value) t)
  | .operand head e =>
    .ok ⟨.statement,s.program.addInstruction ⟨e.opcode,e.mnemonic,some t.value,head.line⟩⟩
  | .name _ => takeName isa s.program t
  | .value name => takeValue s.program name t

/-- The program, if the reading is between two statements. -/
def finish (s : ParseState) : Except ParseError Program :=
  match s.phase with
  | .statement => .ok s.program
  | .labelled name t => .error (.fault (.danglingLabel name) t)
  | .operand t _ => .error (.fault (.missingOperand t.value) t)
  | .name t => .error (.fault .missingName t)
  | .value t => .error (.fault (.missingValue t.value) t)

/-- What a step declares, as it is reported. -/
def declared (before after : ParseState) : List Record :=
  let p := after.program
  match before.phase,after.phase with
  | _,.labelled name _ => [⟨.debug,.program,s!"label {name} -> {p.instructions.length}"⟩]
  | .value _,_ =>
    p.vars.getLast?.toList.map fun (name,value) =>
      ⟨.debug,.program,s!"variable {name} = {value} (ordinal {p.vars.length})"⟩
  | _,_ => []

/-- What is reported while tokens are read. -/
def records (isa : InstructionSet) : ParseState → List Token → List Record
  | s,[] =>
    match s.finish with
    | .error _ => []
    | .ok p => p.sharedNames.map fun name =>
      ⟨.warning,.program,s!"{name} is declared both as a label and as a variable"⟩
  | s,t :: rest =>
    match s.step isa t with
    | .error _ => []
    | .ok next => declared s next ++ records isa next rest

end ParseState

namespace Program

/-- Reads a program from its tokens. -/
def parse (isa : InstructionSet) (tokens : List Token) : Except ParseError Program :=
  tokens.foldlM (ParseState.step isa) {} >>= ParseState.finish

def parseRecords (isa : InstructionSet) (tokens : List Token) : List Record :=
  ParseState.records isa {} tokens

end Program
end Micro86
