import Mathlib.Data.List.Basic
import Micro86.Proofs.Diagnosis
import Micro86.Proofs.Fallible
import Micro86.Proofs.InstructionSet.Bundled
import Micro86.Proofs.Program.Rewording
import Micro86.Proofs.Source

/-!
The layout of a source. Where its words stand, how its lines are broken and what its comments say
reaches the numbers of lines only, and these reach nothing but the places of messages: sources with
the same words give the same program, the same image and the same text, or fail alike.
-/
namespace Micro86

/-! ### Tokens without their lines -/

def Token.unplaced (t : Token) : Token := { t with line := 0 }

namespace Source

/-- Tokens with the same values differ in their lines only. -/
theorem unplaced_eq_of_values {ts us : List Token}
    (h : ts.map Token.value = us.map Token.value) :
    ts.map Token.unplaced = us.map Token.unplaced := by
  have hvalue : Token.unplaced = (fun value => ⟨value,0⟩) ∘ Token.value := rfl
  rw [hvalue,← List.map_map,← List.map_map,h]

end Source

/-! ### Programs without their lines -/

def Instruction.unplaced (i : Instruction) : Instruction := { i with line := 0 }

def Program.unplaced (p : Program) : Program :=
  { p with instructions := p.instructions.map Instruction.unplaced }

def ResolvedInstruction.unplaced (r : ResolvedInstruction) : ResolvedInstruction :=
  { r with instruction := r.instruction.unplaced }

section
variable {isa : InstructionSet}

/-- All words stay, on no line. -/
def Rewording.unplacing (isa : InstructionSet) : Rewording isa where
  word := id
  stem := id
  line := fun _ => 0
  injective := Function.injective_id
  isName_word := fun _ => rfl
  isName_stem := fun _ => rfl
  stem_of_isName := fun _ _ => rfl
  byMnemonic?_word := fun _ => rfl
  word_eq_keyword := fun _ => Iff.rfl
  readLiteral_word := fun _ => rfl
  label?_word := fun _ => (Option.map_id_apply).symm

theorem Instruction.reword_unplacing : reword (.unplacing isa) = unplaced := by
  funext i
  simp [reword,unplaced,Rewording.unplacing]

theorem Program.reword_unplacing : reword (.unplacing isa) = unplaced := by
  funext p
  rw [reword,Instruction.reword_unplacing]
  simp [unplaced,Rewording.unplacing]

theorem ResolvedInstruction.reword_unplacing : reword (.unplacing isa) = unplaced := by
  funext r
  have hoperand : Operand.reword (.unplacing isa) = id := rfl
  rw [reword,Instruction.reword_unplacing,hoperand,Option.map_id,unplaced]
  rfl

theorem ParseError.diagnosis_unplacing (e : ParseError) :
    (e.reword (.unplacing isa)).diagnosis = e.diagnosis := by
  cases e with
  | digits e => rfl
  | fault cause token => cases cause <;> rfl

theorem ResolveError.diagnosis_unplacing (e : ResolveError) :
    (e.reword (.unplacing isa)).diagnosis = e.diagnosis := by
  cases e <;> rfl

theorem ImageError.diagnosis_unplacing (e : ImageError) :
    (e.reword (.unplacing isa)).diagnosis = e.diagnosis := by
  cases e with
  | range e line => rfl
  | resolve e => exact e.diagnosis_unplacing

theorem Program.parse_unplaced (tokens : List Token) :
    Follows ParseError.diagnosis unplaced (Program.parse isa tokens)
      (Program.parse isa (tokens.map Token.unplaced)) := by
  have h := Program.parse_reword (.unplacing isa) ParseError.diagnosis_unplacing tokens
  rwa [reword_unplacing] at h

theorem Program.resolve_unplaced (p : Program) :
    Follows ResolveError.diagnosis (List.map ResolvedInstruction.unplaced) (p.resolve isa)
      (p.unplaced.resolve isa) := by
  have h := p.resolve_reword (.unplacing isa) ResolveError.diagnosis_unplacing
  rwa [reword_unplacing,ResolvedInstruction.reword_unplacing] at h

theorem Image.ofProgram_unplaced (p : Program) :
    Follows ImageError.diagnosis id (Image.ofProgram isa p) (Image.ofProgram isa p.unplaced) := by
  have h := Image.ofProgram_reword (.unplacing isa) ImageError.diagnosis_unplacing p
  rwa [Program.reword_unplacing] at h

/-! ### Labelled statements -/

namespace GotoProgram

section
variable (r : ResolvedInstruction) (role : Role)

theorem withRole_unplaced : Follows GotoError.diagnosis (fun i => (i.1.unplaced,i.2)) (withRole r)
    (withRole r.unplaced) := by
  have hrole : r.unplaced.role = r.role := rfl
  unfold withRole
  rw [hrole]
  split
  · exact .ok _
  · exact .error rfl

theorem noOperand_unplaced :
    Follows GotoError.diagnosis id (noOperand r role) (noOperand r.unplaced role) := by
  have hoperand : r.unplaced.operand = r.operand := rfl
  unfold noOperand
  rw [hoperand]
  split
  · exact .ok ()
  · exact .error rfl

theorem someOperand_unplaced :
    Follows GotoError.diagnosis id (someOperand r role) (someOperand r.unplaced role) := by
  have hoperand : r.unplaced.operand = r.operand := rfl
  unfold someOperand
  rw [hoperand]
  split
  · exact .ok _
  · exact .error rfl

theorem valueOperand_unplaced :
    Follows GotoError.diagnosis id (valueOperand r role) (valueOperand r.unplaced role) := by
  refine (someOperand_unplaced r role).bind fun o _ => ?_
  rw [id_eq]
  cases o.kind <;> exact .ok _

theorem storageOperand_unplaced :
    Follows GotoError.diagnosis id (storageOperand r role) (storageOperand r.unplaced role) := by
  refine (someOperand_unplaced r role).bind fun o _ => ?_
  rw [id_eq]
  cases o.kind with
  | storage => exact .ok _
  | literal | label => exact .error rfl

theorem targetOperand_unplaced :
    Follows GotoError.diagnosis id (targetOperand r role) (targetOperand r.unplaced role) := by
  refine (someOperand_unplaced r role).bind fun o _ => ?_
  rw [id_eq]
  cases o.kind with
  | label | literal => exact .ok _
  | storage => exact .error rfl

theorem statements_unplaced :
    Follows GotoError.diagnosis id (statements r role) (statements r.unplaced role) := by
  cases role with
  | halt => exact (noOperand_unplaced r .halt).bind fun _ _ => .ok _
  | input => exact (noOperand_unplaced r .input).bind fun _ _ => .ok _
  | output => exact (noOperand_unplaced r .output).bind fun _ _ => .ok _
  | store => exact (storageOperand_unplaced r .store).bind fun _ _ => .ok _
  | load | add | sub | mul | div | mod | cmp =>
    exact (valueOperand_unplaced r _).bind fun _ _ => .ok _
  | jmp | je | jne | jl | jle | jg | jge =>
    exact (targetOperand_unplaced r _).bind fun _ _ => .ok _

end

theorem operation_unplaced (p : Program) (numeric : List Int)
    (i : (ResolvedInstruction × Role) × Nat) :
    Follows GotoError.diagnosis id (operation p numeric i)
      (operation p.unplaced numeric ((i.1.1.unplaced,i.1.2),i.2)) :=
  (statements_unplaced i.1.1 i.1.2).bind fun _ _ => .ok _

theorem ofProgram_unplaced (p : Program) :
    Follows GotoError.diagnosis id (ofProgram isa p) (ofProgram isa p.unplaced) := by
  have hnames : checkNames p.unplaced = checkNames p := rfl
  have hresolve : Follows GotoError.diagnosis (List.map ResolvedInstruction.unplaced)
      ((p.resolve isa).mapError .resolve) ((p.unplaced.resolve isa).mapError .resolve) :=
    Follows.wrap p.resolve_unplaced
  unfold ofProgram
  rw [hnames]
  refine (Follows.refl _ (checkNames p)).bind fun _ _ => ?_
  refine hresolve.bind fun code _ => ?_
  refine (Follows.mapM fun r _ => withRole_unplaced r).bind fun instructions _ => ?_
  have htargets : (instructions.map fun i => (i.1.unplaced,i.2)).filterMap numericTarget? =
      instructions.filterMap numericTarget? := by
    rw [List.filterMap_map]
    rfl
  have hlength : p.unplaced.instructions.length = p.instructions.length := List.length_map _
  have hlabels : labelsAt p.unplaced = labelsAt p := rfl
  simp only [htargets,hlength,hlabels,List.zipIdx_map]
  refine (Follows.mapM fun i _ => operation_unplaced p _ i).bind fun operations _ => ?_
  rw [List.map_id]
  exact .ok _

end GotoProgram

/-- Two sources with the same words, comments taken off, are the same to every stage. Their programs
differ in the lines of instructions only; the resolved instructions do too; the image and the text
of the labelled statements are the same. A stage that fails for one source fails for the other, and
says the same up to the line: the kind, the message, and the text or the number at fault. -/
theorem layout_reaches_lines_only (isa : InstructionSet) {text other : List Char}
    (h : Text.words (Source.stripComments Source.comment text) =
      Text.words (Source.stripComments Source.comment other)) :
    ((Program.parse isa (Source.tokens Source.comment text)).map Program.unplaced).mapError
        ParseError.diagnosis =
      ((Program.parse isa (Source.tokens Source.comment other)).map Program.unplaced).mapError
        ParseError.diagnosis ∧
    ∀ p q, Program.parse isa (Source.tokens Source.comment text) = .ok p →
      Program.parse isa (Source.tokens Source.comment other) = .ok q →
      ((p.resolve isa).map (List.map ResolvedInstruction.unplaced)).mapError
          ResolveError.diagnosis =
        ((q.resolve isa).map (List.map ResolvedInstruction.unplaced)).mapError
          ResolveError.diagnosis ∧
      (Image.ofProgram isa p).mapError ImageError.diagnosis =
        (Image.ofProgram isa q).mapError ImageError.diagnosis ∧
      ((GotoProgram.ofProgram isa p).map GotoProgram.render).mapError GotoError.diagnosis =
        ((GotoProgram.ofProgram isa q).map GotoProgram.render).mapError GotoError.diagnosis := by
  have htokens : (Source.tokens Source.comment text).map Token.unplaced =
      (Source.tokens Source.comment other).map Token.unplaced := by
    apply Source.unplaced_eq_of_values
    rw [Source.values_tokens,Source.values_tokens,h]
  have hparse : ((Program.parse isa (Source.tokens Source.comment text)).map
        Program.unplaced).mapError ParseError.diagnosis =
      ((Program.parse isa (Source.tokens Source.comment other)).map
        Program.unplaced).mapError ParseError.diagnosis := by
    rw [← (Program.parse_unplaced _).eq,← (Program.parse_unplaced _).eq,htokens]
  refine ⟨hparse,?_⟩
  intro p q hp hq
  have hsame : p.unplaced = q.unplaced := by
    rw [hp,hq] at hparse
    exact Except.ok.inj hparse
  refine ⟨?_,?_,?_⟩
  · rw [← p.resolve_unplaced.eq,← q.resolve_unplaced.eq,hsame]
  · rw [← (Image.ofProgram_unplaced p).same,← (Image.ofProgram_unplaced q).same,hsame]
  · rw [mapError_map,mapError_map,← (GotoProgram.ofProgram_unplaced p).same,
      ← (GotoProgram.ofProgram_unplaced q).same,hsame]

/-- The same program on one line, and over several lines with a comment and other blanks. The label
that is missing stands on the first line here and on the fifth there. -/
theorem layout_reaches_line_of_failure :
    let text := "VAR x 1 LOAD x JMPI b".toList
    let other := "VAR\tx ; the only one\x0c1\r\nLOAD x\n\nJMPI b ; HALT".toList
    let p : Program := ⟨[⟨0x0202,"LOAD",some "x",1⟩,⟨0x0A01,"JMPI",some "b",1⟩],[],[("x",1)]⟩
    let q : Program := ⟨[⟨0x0202,"LOAD",some "x",3⟩,⟨0x0A01,"JMPI",some "b",5⟩],[],[("x",1)]⟩
    Text.words (Source.stripComments Source.comment text) =
      Text.words (Source.stripComments Source.comment other) ∧
    Program.parse InstructionSet.bundled (Source.tokens Source.comment text) = .ok p ∧
    Program.parse InstructionSet.bundled (Source.tokens Source.comment other) = .ok q ∧
    Image.ofProgram InstructionSet.bundled q = .error (.resolve (.unknownLabel "b" 5)) ∧
    ∃ e, Image.ofProgram InstructionSet.bundled p = .error e ∧
      e.diagnosis = (ImageError.resolve (.unknownLabel "b" 5)).diagnosis := by
  intro text other p q
  have hwords : Text.words (Source.stripComments Source.comment text) =
      Text.words (Source.stripComments Source.comment other) := by
    simp only [text,other,String.reduceToList]
    decide +kernel
  have hp : Program.parse InstructionSet.bundled (Source.tokens Source.comment text) = .ok p := by
    simp only [text,String.reduceToList,InstructionSet.bundled_eq]
    decide +kernel
  have hq : Program.parse InstructionSet.bundled (Source.tokens Source.comment other) = .ok q := by
    simp only [other,String.reduceToList,InstructionSet.bundled_eq]
    decide +kernel
  have himage : Image.ofProgram InstructionSet.bundled q =
      .error (.resolve (.unknownLabel "b" 5)) := by
    rw [InstructionSet.bundled_eq]
    decide +kernel
  obtain ⟨-,hstages⟩ := layout_reaches_lines_only InstructionSet.bundled hwords
  obtain ⟨-,hsame,-⟩ := hstages p q hp hq
  rw [himage] at hsame
  exact ⟨hwords,hp,hq,himage,mapError_eq_error.mp hsame⟩

end
end Micro86
