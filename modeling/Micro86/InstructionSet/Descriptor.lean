import Micro86.InstructionSet.Basic
import Micro86.Journal
import Micro86.Text.Search

/-!
Descriptor texts. A line holds `opcode = mnemonic`, then `o` for an operand and `i` for an
immediate one, then `@role`; a number sign starts a comment. The first bad line ends the
reading.
-/
namespace Micro86

/-- What is wrong with a descriptor line. -/
inductive DescriptorFault
  | unknownRole (name : String)
  | invalidSyntax
  | invalidOpcode (text : String)
  | wideOpcode (text : String)
  | keyword
  deriving DecidableEq, Repr

def DescriptorFault.message : DescriptorFault → String
  | unknownRole name => s!"Unknown role: {name}"
  | invalidSyntax => "Invalid syntax"
  | invalidOpcode text => s!"Invalid opcode: {text}"
  | wideOpcode text => s!"Opcode does not fit in 16 bits: {text}"
  | keyword => s!"{InstructionSet.keyword} is the declaration keyword"

/-- A bad line of a descriptor, with its number, its whole text and the text's name. -/
structure DescriptorError where
  fault : DescriptorFault
  line : Nat
  text : List Char
  source : String
  deriving DecidableEq, Repr

def DescriptorError.message (e : DescriptorError) : String :=
  s!"{e.fault.message} (line {e.line} in {e.source})"

namespace Entry

/-- Takes the role off the end of a line's words: a last word that starts with an at sign. -/
def splitRole (words : List (List Char)) :
    Except DescriptorFault (Option Role × List (List Char)) :=
  match words.getLast? with
  | some ('@' :: name) =>
    match Role.ofName? (String.ofList name) with
    | some role => .ok (some role,words.dropLast)
    | none => .error (.unknownRole (String.ofList name))
  | _ => .ok (none,words)

/-- The opcode and mnemonic words, and whether the operand and immediate marks follow. -/
def shape? : List (List Char) → Option (List Char × List Char × Bool × Bool)
  | [opcode, ['='], mnemonic] => some (opcode,mnemonic,false,false)
  | [opcode, ['='], mnemonic, ['o']] => some (opcode,mnemonic,true,false)
  | [opcode, ['='], mnemonic, ['o'], ['i']] => some (opcode,mnemonic,true,true)
  | _ => none

/-- Reads the words of a line that has some. -/
def ofWords (line : Nat) (words : List (List Char)) : Except DescriptorFault Entry := do
  let (role,rest) ← splitRole words
  match shape? rest with
  | none => .error .invalidSyntax
  | some (opcode,mnemonic,hasOperand,isImmediate) =>
    if !opcode.all Text.isHexDigit then .error (.invalidOpcode (String.ofList opcode))
    else if 0xFFFF < Text.hexValue opcode then .error (.wideOpcode (String.ofList opcode))
    else if String.ofList mnemonic = InstructionSet.keyword then .error .keyword
    else
      .ok {
        mnemonic := String.ofList mnemonic
        opcode := Text.hexValue opcode
        hasOperand := hasOperand
        isImmediate := isImmediate
        role := role.or (Role.ofMnemonic? (String.ofList mnemonic))
        line := line }

end Entry

namespace InstructionSet

/-- The words of a line before its comment. -/
def lineWords (line : List Char) : List (List Char) := Text.words (Text.before ['#'] line)

/-- The entries of the lines before the first bad one, and what is wrong with that one. -/
def scan (source : String) :
    List (List Char × Nat) → List Entry → List Entry × Option DescriptorError
  | [],entries => (entries.reverse,none)
  | (text,line) :: rest,entries =>
    match lineWords text with
    | [] => scan source rest entries
    | words =>
      match Entry.ofWords line words with
      | .error fault => (entries.reverse,some ⟨fault,line,text,source⟩)
      | .ok entry => scan source rest (entry :: entries)

/-- Reads a descriptor text. -/
def parse (source : String) (text : List Char) : Except DescriptorError InstructionSet :=
  match scan source (Text.numberedLines text) [] with
  | (entries,none) => .ok ⟨source,entries⟩
  | (_,some e) => .error e

/-- What is reported for an entry that stands after others. -/
def entryRecords (source : String) (earlier : List Entry) (e : Entry) : List Record :=
  let opcode := Text.hexPadded 4 e.opcode
  let role := (e.role.map Role.name).getD "None"
  (if earlier.any fun d => d.opcode = e.opcode then
    [⟨.warning,.instructionSet,s!"{source}:{e.line}: opcode 0x{opcode} redefined"⟩] else []) ++
  (if earlier.any fun d => d.mnemonic = e.mnemonic then
    [⟨.warning,.instructionSet,s!"{source}:{e.line}: mnemonic {e.mnemonic} redefined"⟩] else []) ++
  [⟨.debug,.instructionSet,s!"{source}: 0x{opcode} = {e.mnemonic} role={role}"⟩]

def recordsAfter (source : String) : List Entry → List Entry → List Record
  | _,[] => []
  | earlier,e :: rest => entryRecords source earlier e ++ recordsAfter source (e :: earlier) rest

/-- What is reported while a descriptor text is read. -/
def records (source : String) (text : List Char) : List Record :=
  recordsAfter source [] (scan source (Text.numberedLines text) []).1

end InstructionSet
end Micro86
