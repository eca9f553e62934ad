import Micro86.Program.Resolve
import Micro86.Word

/-! Memory images: a word for every instruction, then a word for every variable. -/
namespace Micro86

structure Image where
  code : List Nat
  data : List Nat
  deriving DecidableEq, Repr

inductive ImageError
  | resolve (e : ResolveError)
  | range (e : Word.RangeError) (line : Int)
  deriving DecidableEq, Repr

/-- An operand of a program is a literal that was read or a place in the program, so it has
few enough digits. -/
def ImageError.message : ImageError → String
  | resolve e => e.message
  | range e line => s!"{e.describe (Text.decimal e.value)} (line {line})"

/-- The word of an instruction. -/
def ResolvedInstruction.encode (r : ResolvedInstruction) : Except ImageError Nat :=
  (Word.encode r.instruction.opcode (r.operand.map Operand.value)).mapError
    (.range · r.instruction.line)

namespace Image

def words (i : Image) : List Nat := i.code ++ i.data

def ofProgram (isa : InstructionSet) (p : Program) : Except ImageError Image := do
  let resolved ← (p.resolve isa).mapError .resolve
  return ⟨← resolved.mapM ResolvedInstruction.encode,p.vars.map fun v => Word.unsigned v.2⟩

/-- A line for every word. -/
def render (radix : Word.Radix) (i : Image) : String :=
  Text.unlines (i.words.map fun (w : Nat) => Word.format radix w)

/-- A line for every word, in a radix given by its name. -/
def renderNamed (radix : String) (i : Image) : Except Word.UnsupportedRadix String := do
  let ls ← i.words.mapM fun (w : Nat) => do return Word.format (← Word.Radix.ofName radix) w
  return Text.unlines ls

/-- What is reported for the instructions up to the first that cannot be encoded, and for
the variables if there is none. -/
def recordsFrom (position : Nat) (vars : List (String × Int)) :
    List ResolvedInstruction → List Record
  | [] => (vars.zipIdx position).map fun ((name,value),address) =>
    ⟨.debug,.image,s!"{Text.decimalPadded 4 address} {name} = {value}"⟩
  | r :: rest =>
    match r.encode with
    | .error _ => []
    | .ok word =>
      let operand := (r.operand.map fun o => Text.decimal o.value).getD "None"
      let place := s!"{Text.decimalPadded 4 position} {r.instruction.mnemonic}"
      ⟨.debug,.image,s!"{place} {operand} -> {Text.hexPadded 8 word}"⟩ ::
        recordsFrom (position+1) vars rest

/-- What is reported while an image is made. -/
def records (isa : InstructionSet) (p : Program) : List Record :=
  match p.resolve isa with
  | .error _ => []
  | .ok resolved => recordsFrom 0 p.vars resolved

end Image
end Micro86
