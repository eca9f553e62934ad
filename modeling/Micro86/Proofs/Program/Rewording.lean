import Mathlib.Logic.Function.Basic
import Micro86.Image
import Micro86.Proofs.Fallible

/-!
Sources in other words. A rewording gives every word and every line of a source another one, and
keeps what the reading of a source looks at: mnemonics, numbers, names and labels are found where
they were. So the reading of the reworded source does step by step what the reading of the source
does, and the images of the two are the same.
-/
namespace Micro86

/-- Other words and other lines for a source. Different words stay different, a name stays a name and
anything else that the reading can tell apart stays what it is; a word with a colon behind it is
split there before and after. -/
structure Rewording (isa : InstructionSet) where
  word : String → String
  /-- What becomes of a word in front of a colon. -/
  stem : String → String
  line : Int → Int
  injective : Function.Injective word
  isName_word : ∀ w, isa.isName (word w) = isa.isName w
  isName_stem : ∀ w, isa.isName (stem w) = isa.isName w
  stem_of_isName : ∀ w, isa.isName w = true → stem w = word w
  byMnemonic?_word : ∀ w, isa.byMnemonic? (word w) = isa.byMnemonic? w
  word_eq_keyword : ∀ w, word w = InstructionSet.keyword ↔ w = InstructionSet.keyword
  readLiteral_word : ∀ w, Text.readLiteral (word w).toList = Text.readLiteral w.toList
  label?_word : ∀ w, (Token.mk (word w) 0).label? = (Token.mk w 0).label?.map stem

/-! ### Tables of names -/

section
variable {f : String → String} (hf : Function.Injective f) {α : Type} (l : List (String × α))
include hf

theorem lookup_map_names (name : String) :
    (l.map (Prod.map f id)).lookup (f name) = l.lookup name := by
  induction l with
  | nil => rfl
  | cons entry l ih =>
    obtain ⟨other,a⟩ := entry
    have hbeq : (f name == f other) = (name == other) := by
      rw [Bool.eq_iff_iff,beq_iff_eq,beq_iff_eq,hf.eq_iff]
    rw [List.map_cons,Prod.map_apply,List.lookup_cons,List.lookup_cons,ih,hbeq]
    rfl

theorem any_map_names (name : String) :
    ((l.map (Prod.map f id)).any fun e => e.1 = f name) = l.any fun e => e.1 = name := by
  simp [Function.comp_def,hf.eq_iff]

theorem findIdx?_map_names (name : String) :
    ((l.map (Prod.map f id)).findIdx? fun e => e.1 = f name) = l.findIdx? fun e => e.1 = name := by
  rw [List.findIdx?_map]
  simp [Function.comp_def,hf.eq_iff]

end

/-! ### Programs -/

section
variable {isa : InstructionSet} (r : Rewording isa)

def Token.reword (t : Token) : Token := ⟨r.word t.value,r.line t.line⟩

def Instruction.reword (i : Instruction) : Instruction :=
  { i with
    operand := i.operand.map r.word
    line := r.line i.line }

/-- The program of the reworded source: names and lines are other ones, places and values stay. -/
def Program.reword (p : Program) : Program where
  instructions := p.instructions.map (Instruction.reword r)
  labels := p.labels.map (Prod.map r.word id)
  vars := p.vars.map (Prod.map r.word id)

theorem Token.label?_reword (t : Token) : (t.reword r).label? = t.label?.map r.stem :=
  r.label?_word t.value

namespace Program

variable (p : Program)

theorem label?_reword (name : String) : (p.reword r).label? (r.word name) = p.label? name :=
  lookup_map_names r.injective p.labels name

theorem hasLabel_reword (name : String) : (p.reword r).hasLabel (r.word name) = p.hasLabel name :=
  any_map_names r.injective p.labels name

theorem hasVariable_reword (name : String) :
    (p.reword r).hasVariable (r.word name) = p.hasVariable name :=
  any_map_names r.injective p.vars name

/-- A variable has the place of its declaration, so its address stays. -/
theorem address?_reword (name : String) : (p.reword r).address? (r.word name) = p.address? name := by
  unfold address? reword
  rw [findIdx?_map_names r.injective,List.length_map]

theorem length_instructions_reword :
    (p.reword r).instructions.length = p.instructions.length :=
  List.length_map _

theorem reword_addInstruction (i : Instruction) :
    (p.addInstruction i).reword r = (p.reword r).addInstruction (i.reword r) := by
  simp [reword,addInstruction]

theorem reword_addLabel (name : String) :
    (p.addLabel name).reword r = (p.reword r).addLabel (r.word name) := by
  simp [reword,addLabel]

theorem reword_addVariable (name : String) (value : Int) :
    (p.addVariable name value).reword r = (p.reword r).addVariable (r.word name) value := by
  simp [reword,addVariable]

end Program

/-! ### Reading -/

def ParseFault.reword : ParseFault → ParseFault
  | invalidLabel name => invalidLabel (r.stem name)
  | duplicateLabel name => duplicateLabel (r.word name)
  | danglingLabel name => danglingLabel (r.word name)
  | notAStatement label found => notAStatement (r.word label) (r.word found)
  | missingOperand mnemonic => missingOperand (r.word mnemonic)
  | missingName => missingName
  | invalidVariable name => invalidVariable (r.word name)
  | duplicateVariable name => duplicateVariable (r.word name)
  | missingValue name => missingValue (r.word name)
  | invalidValue name found => invalidValue (r.word name) (r.word found)
  | unknownToken found => unknownToken (r.word found)

def ParseError.reword : ParseError → ParseError
  | fault cause token => fault (cause.reword r) (token.reword r)
  | digits e => digits e

def Phase.reword : Phase → Phase
  | .statement => .statement
  | .labelled label token => .labelled (r.word label) (token.reword r)
  | .operand token e => .operand (token.reword r) e
  | .name token => .name (token.reword r)
  | .value token => .value (token.reword r)

def ParseState.reword (s : ParseState) : ParseState := ⟨s.phase.reword r,s.program.reword r⟩

/-- The same words open a statement, and with the same entry of the instruction set. -/
theorem ParseState.open?_reword (p : Program) (t : Token) :
    open? isa (p.reword r) (t.reword r) = (open? isa p t).map (reword r) := by
  unfold open?
  simp only [Token.reword,r.byMnemonic?_word,r.word_eq_keyword]
  cases isa.byMnemonic? t.value with
  | none =>
    dsimp only
    split <;> rfl
  | some e =>
    dsimp only
    split
    · rfl
    · simp only [Option.map_some,reword,Program.reword_addInstruction]
      rfl

/- The errors of the two readings are compared by what a rewording cannot change in them. -/
section
variable {ζ : Type} {view : ParseError → ζ} (hview : ∀ e, view (ParseError.reword r e) = view e)
include hview

namespace ParseState

theorem takeLabel_reword (p : Program) (t : Token) (name : String) :
    Follows view (reword r) (takeLabel isa p t name)
      (takeLabel isa (p.reword r) (t.reword r) (r.stem name)) := by
  unfold takeLabel
  rw [r.isName_stem]
  cases hname : isa.isName name with
  | false => exact .error (hview (.fault (.invalidLabel name) t)).symm
  | true =>
    rw [r.stem_of_isName name hname,Program.hasLabel_reword]
    cases p.hasLabel name with
    | true => exact .error (hview (.fault (.duplicateLabel name) t)).symm
    | false =>
      rw [← Program.reword_addLabel]
      exact .ok _

theorem takeName_reword (p : Program) (t : Token) :
    Follows view (reword r) (takeName isa p t) (takeName isa (p.reword r) (t.reword r)) := by
  have hvalue : (t.reword r).value = r.word t.value := rfl
  unfold takeName
  rw [hvalue,r.isName_word,Program.hasVariable_reword]
  split
  · exact .error (hview (.fault (.invalidVariable t.value) t)).symm
  · split
    · exact .error (hview (.fault (.duplicateVariable t.value) t)).symm
    · exact .ok _

theorem takeValue_reword (p : Program) (name t : Token) :
    Follows view (reword r) (takeValue p name t)
      (takeValue (p.reword r) (name.reword r) (t.reword r)) := by
  have hinvalid := hview (.fault (.invalidValue name.value t.value) t)
  have hvalue : (t.reword r).value = r.word t.value := rfl
  unfold takeValue
  rw [hvalue,r.readLiteral_word]
  split
  · exact .error rfl
  · exact .error hinvalid.symm
  · split
    · exact .error hinvalid.symm
    · have hname : (name.reword r).value = r.word name.value := rfl
      rw [hname,← Program.reword_addVariable]
      exact .ok _

/-- One word of the reworded source does to the reworded state what the word does to the state. -/
theorem step_reword (s : ParseState) (t : Token) :
    Follows view (reword r) (s.step isa t) ((s.reword r).step isa (t.reword r)) := by
  obtain ⟨phase,p⟩ := s
  cases phase with
  | statement =>
    simp only [step,reword,Phase.reword,Token.label?_reword,open?_reword]
    cases t.label? with
    | some name => exact takeLabel_reword r hview p t name
    | none =>
      cases open? isa p t with
      | none => exact .error (hview (.fault (.unknownToken t.value) t)).symm
      | some next => exact .ok next
  | labelled name token =>
    simp only [step,reword,Phase.reword,open?_reword]
    cases open? isa p t with
    | none => exact .error (hview (.fault (.notAStatement name t.value) t)).symm
    | some next => exact .ok next
  | operand head e =>
    have hadd : (p.reword r).addInstruction
          ⟨e.opcode,e.mnemonic,some (t.reword r).value,(head.reword r).line⟩ =
        (p.addInstruction ⟨e.opcode,e.mnemonic,some t.value,head.line⟩).reword r := by
      rw [Program.reword_addInstruction]
      rfl
    simp only [step,reword,Phase.reword,hadd]
    exact .ok _
  | name token => exact takeName_reword r hview p t
  | value name => exact takeValue_reword r hview p name t

/-- A source may end in the same phases. -/
theorem finish_reword (s : ParseState) :
    Follows view (Program.reword r) s.finish (s.reword r).finish := by
  obtain ⟨phase,p⟩ := s
  cases phase with
  | statement => exact .ok p
  | labelled name token => exact .error (hview (.fault (.danglingLabel name) token)).symm
  | operand token e => exact .error (hview (.fault (.missingOperand token.value) token)).symm
  | name token => exact .error (hview (.fault .missingName token)).symm
  | value token => exact .error (hview (.fault (.missingValue token.value) token)).symm

end ParseState

/-- Reading the reworded source gives the reworded program, and fails if reading the source fails,
with an error that looks the same to any view that a rewording leaves alone. -/
theorem Program.parse_reword (tokens : List Token) :
    Follows view (Program.reword r) (Program.parse isa tokens)
      (Program.parse isa (tokens.map (Token.reword r))) :=
  (Follows.foldlM (ParseState.step_reword r hview) tokens {}).bind
    fun s _ => s.finish_reword r hview

end

/-! ### Resolving -/

def Operand.reword (o : Operand) : Operand := { o with text := r.word o.text }

def ResolvedInstruction.reword (i : ResolvedInstruction) : ResolvedInstruction :=
  { i with
    instruction := i.instruction.reword r
    operand := i.operand.map (Operand.reword r) }

def ResolveError.reword : ResolveError → ResolveError
  | unknownLabel text line => unknownLabel (r.word text) (r.line line)
  | unknownVariable text line => unknownVariable (r.word text) (r.line line)
  | targetOutOfRange text line => targetOutOfRange (r.word text) (r.line line)
  | unknownOpcode opcode => unknownOpcode opcode
  | digits e => digits e

section
variable {ζ : Type} {view : ResolveError → ζ}
  (hview : ∀ e, view (ResolveError.reword r e) = view e)
include hview

namespace Program

variable (p : Program)

theorem resolveImmediate_reword (text : String) (line : Int) :
    Follows view (Operand.reword r) (p.resolveImmediate text line)
      ((p.reword r).resolveImmediate (r.word text) (r.line line)) := by
  unfold resolveImmediate
  rw [r.readLiteral_word,label?_reword]
  split
  · exact .error rfl
  · exact .ok _
  · split
    · exact .ok _
    · exact .error (hview (.unknownLabel text line)).symm

theorem resolveDirect_reword (text : String) (line : Int) :
    Follows view (Operand.reword r) (p.resolveDirect text line)
      ((p.reword r).resolveDirect (r.word text) (r.line line)) := by
  unfold resolveDirect
  rw [address?_reword]
  split
  · exact .ok _
  · exact .error (hview (.unknownVariable text line)).symm

theorem checkTarget_reword (role : Option Role) (o : Operand) (line : Int) :
    Follows view (Operand.reword r) (p.checkTarget role o line)
      ((p.reword r).checkTarget role (o.reword r) (r.line line)) := by
  have hkind : (o.reword r).kind = o.kind := rfl
  have hvalue : (o.reword r).value = o.value := rfl
  unfold checkTarget
  rw [length_instructions_reword,hkind,hvalue]
  split
  · exact .error (hview (.targetOutOfRange o.text line)).symm
  · exact .ok o

/-- An operand is found where it was: numbers are read alike, and names keep their places. -/
theorem resolveOperand_reword (e : Entry) (text : String) (line : Int) :
    Follows view (Operand.reword r) (p.resolveOperand e text line)
      ((p.reword r).resolveOperand e (r.word text) (r.line line)) := by
  unfold resolveOperand
  cases e.isImmediate with
  | true =>
    exact (p.resolveImmediate_reword r hview text line).bind fun o _ =>
      p.checkTarget_reword r hview e.role o line
  | false =>
    exact (p.resolveDirect_reword r hview text line).bind fun o _ =>
      p.checkTarget_reword r hview e.role o line

theorem resolveInstruction_reword (i : Instruction) :
    Follows view (ResolvedInstruction.reword r) (resolveInstruction isa p i)
      (resolveInstruction isa (p.reword r) (i.reword r)) := by
  have hopcode : (i.reword r).opcode = i.opcode := rfl
  have hoperand : (i.reword r).operand = i.operand.map r.word := rfl
  unfold resolveInstruction
  rw [hopcode,hoperand]
  cases isa.byOpcode? i.opcode with
  | none => exact .error rfl
  | some e =>
    cases i.operand with
    | none => exact .ok _
    | some text => exact (p.resolveOperand_reword r hview e text i.line).bind fun o _ => .ok _

/-- Resolving goes through the instructions of the two programs side by side. -/
theorem resolve_reword :
    Follows view (List.map (ResolvedInstruction.reword r)) (p.resolve isa)
      ((p.reword r).resolve isa) :=
  Follows.mapM fun i _ => p.resolveInstruction_reword r hview i

end Program
end

/-! ### Images -/

def ImageError.reword : ImageError → ImageError
  | resolve e => resolve (e.reword r)
  | range e line => range e (r.line line)

section
variable {ζ : Type} {view : ImageError → ζ} (hview : ∀ e, view (ImageError.reword r e) = view e)
include hview

/-- A word of the image has the opcode and the value of its instruction, and no name. -/
theorem ResolvedInstruction.encode_reword (i : ResolvedInstruction) :
    Follows view id i.encode (i.reword r).encode := by
  have hopcode : (i.reword r).instruction.opcode = i.instruction.opcode := rfl
  have hoperand : (i.reword r).operand.map Operand.value = i.operand.map Operand.value := by
    simp only [reword,Option.map_map]
    rfl
  unfold encode
  rw [hopcode,hoperand]
  cases Word.encode i.instruction.opcode (i.operand.map Operand.value) with
  | error e => exact .error (hview (.range e i.instruction.line)).symm
  | ok w => exact .ok w

/-- A program and its rewording have the same image. Where there is none, the two errors look the same
to any view that a rewording leaves alone. -/
theorem Image.ofProgram_reword (p : Program) :
    Follows view id (Image.ofProgram isa p) (Image.ofProgram isa (p.reword r)) := by
  have hresolve : Follows view (List.map (ResolvedInstruction.reword r))
      ((p.resolve isa).mapError .resolve) (((p.reword r).resolve isa).mapError .resolve) :=
    Follows.wrap (p.resolve_reword r fun e => hview (.resolve e))
  have hdata : (p.reword r).vars.map (fun v => Word.unsigned v.2) =
      p.vars.map fun v => Word.unsigned v.2 := by
    simp [Program.reword,Function.comp_def]
  refine hresolve.bind fun code _ => ?_
  refine (Follows.mapM fun i _ => i.encode_reword r hview).bind fun words _ => ?_
  rw [List.map_id,hdata]
  exact .ok _

end
end
end Micro86
