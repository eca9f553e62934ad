import Micro86.Command.Assemble

/-!
What a failed translation says, apart from where it says it: the kind of the failure, the message
without its line, and the text or the number at fault.
-/
namespace Micro86

inductive FailureKind
  | invalidIdentifier
  | duplicateSymbol
  | unknownToken
  | unexpectedEnd
  | missingOperand
  | invalidLiteral
  | unresolvedLabel
  | unresolvedVariable
  | unmappedOpcode
  | operandKind
  | operandRange
  | unknownOpcode
  | tooManyDigits
  | unsupportedRadix
  deriving DecidableEq, Repr

/-- The stages that find a source at fault. -/
inductive TranslationStage
  | parse
  | reference
  | transliteration
  | range
  deriving DecidableEq, Repr

namespace FailureKind

/-- The stage that finds a fault of this kind; the other kinds are no faults of a source. -/
def stage? : FailureKind → Option TranslationStage
  | invalidIdentifier | duplicateSymbol | unknownToken | unexpectedEnd | missingOperand
  | invalidLiteral => some .parse
  | unresolvedLabel | unresolvedVariable => some .reference
  | unmappedOpcode | operandKind => some .transliteration
  | operandRange => some .range
  | unknownOpcode | tooManyDigits | unsupportedRadix => none

def isSourceFault (k : FailureKind) : Bool := k.stage?.isSome

end FailureKind

structure Diagnosis where
  kind : FailureKind
  message : String
  text : Option String := none
  value : Option Int := none
  deriving DecidableEq, Repr

def Text.TooManyDigits.diagnosis (e : Text.TooManyDigits) : Diagnosis where
  kind := .tooManyDigits
  message := e.message

def ParseFault.kind : ParseFault → FailureKind
  | invalidLabel _ | invalidVariable _ => .invalidIdentifier
  | duplicateLabel _ | duplicateVariable _ => .duplicateSymbol
  | danglingLabel _ | missingName | missingValue _ => .unexpectedEnd
  | missingOperand _ => .missingOperand
  | invalidValue _ _ => .invalidLiteral
  | notAStatement _ _ | unknownToken _ => .unknownToken

def ParseError.diagnosis : ParseError → Diagnosis
  | fault cause token =>
    { kind := cause.kind, message := cause.message, text := some token.value }
  | digits e => e.diagnosis

def ResolveError.diagnosis (e : ResolveError) : Diagnosis :=
  match e with
  | unknownLabel text _ | targetOutOfRange text _ =>
    { kind := .unresolvedLabel, message := e.bareMessage, text := some text }
  | unknownVariable text _ =>
    { kind := .unresolvedVariable, message := e.bareMessage, text := some text }
  | unknownOpcode opcode =>
    { kind := .unknownOpcode, message := e.bareMessage, value := some opcode }
  | digits d => d.diagnosis

def ImageError.diagnosis : ImageError → Diagnosis
  | resolve e => e.diagnosis
  | range e _ => {
    kind := .operandRange, message := e.describe (Text.decimal e.value), value := some e.value }

def GotoError.diagnosis (e : GotoError) : Diagnosis :=
  match e with
  | reservedName name | clashingName name =>
    { kind := .invalidIdentifier, message := e.bareMessage, text := some name }
  | digits d => d.diagnosis
  | resolve r => r.diagnosis
  | unmapped mnemonic _ _ =>
    { kind := .unmappedOpcode, message := e.bareMessage, text := some mnemonic }
  | extraOperand mnemonic _ _ | missingOperand mnemonic _ _ =>
    { kind := .operandKind, message := e.bareMessage, text := some mnemonic }
  | notStorage _ _ found _ | notTarget _ _ found _ =>
    { kind := .operandKind, message := e.bareMessage, text := some found }

def Command.Assemble.Failure.diagnosis : Command.Assemble.Failure → Diagnosis
  | parse e => e.diagnosis
  | image e => e.diagnosis
  | goto e => e.diagnosis
  | noRadix => { kind := .unsupportedRadix, message := (Command.Abort.omitted .radix).message }

/-! ### Kinds alone -/

def ParseError.kind (e : ParseError) : FailureKind := e.diagnosis.kind

def ResolveError.kind (e : ResolveError) : FailureKind := e.diagnosis.kind

def ImageError.kind (e : ImageError) : FailureKind := e.diagnosis.kind

def Command.Assemble.Failure.kind (e : Command.Assemble.Failure) : FailureKind := e.diagnosis.kind

end Micro86
