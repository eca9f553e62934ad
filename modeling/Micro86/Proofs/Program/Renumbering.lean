import Micro86.GotoProgram.Compile
import Micro86.Proofs.Image
import Micro86.Proofs.InstructionSet.Renumbering

/-!
Programs under a renumbered instruction set. Reading, resolving and making labelled statements do
not depend on the numbers of opcodes: they fail alike, or give the same with the new numbers. An
image has the same data, and code that differs in the upper halves of its words.
-/
namespace Micro86

variable {f : Nat → Nat} {isa : InstructionSet}

def Instruction.renumber (f : Nat → Nat) (i : Instruction) : Instruction :=
  { i with opcode := f i.opcode }

def Program.renumber (f : Nat → Nat) (p : Program) : Program :=
  { p with instructions := p.instructions.map (Instruction.renumber f) }

def ResolvedInstruction.renumber (f : Nat → Nat) (r : ResolvedInstruction) :
    ResolvedInstruction :=
  { r with instruction := r.instruction.renumber f }

/-- A word with another number in its upper half. -/
def Word.renumber (f : Nat → Nat) (w : Nat) : Nat := f (w / 0x10000)*0x10000+w % 0x10000

def Image.renumber (f : Nat → Nat) (i : Image) : Image :=
  { i with code := i.code.map (Word.renumber f) }

/-! ### Reading -/

def Phase.renumber (f : Nat → Nat) : Phase → Phase
  | .operand token e => .operand token (e.renumber f)
  | phase => phase

def ParseState.renumber (f : Nat → Nat) (s : ParseState) : ParseState :=
  ⟨s.phase.renumber f,s.program.renumber f⟩

theorem InstructionSet.isName_renumber (name : String) :
    (isa.renumber f).isName name = isa.isName name := by
  simp [isName,isReserved,isMnemonic,byMnemonic?_renumber]

theorem Program.renumber_addInstruction (p : Program) (i : Instruction) :
    (p.addInstruction i).renumber f = (p.renumber f).addInstruction (i.renumber f) := by
  simp [renumber,addInstruction]

theorem Program.renumber_addLabel (p : Program) (name : String) :
    (p.addLabel name).renumber f = (p.renumber f).addLabel name := by
  simp [renumber,addLabel]

namespace ParseState

theorem open?_renumber (p : Program) (t : Token) :
    open? (isa.renumber f) (p.renumber f) t = (open? isa p t).map (renumber f) := by
  unfold open?
  rw [InstructionSet.byMnemonic?_renumber]
  cases isa.byMnemonic? t.value with
  | none =>
    simp only [Option.map_none]
    split <;> rfl
  | some e =>
    have hoperand : (e.renumber f).hasOperand = e.hasOperand := rfl
    simp only [Option.map_some,hoperand]
    split
    · rfl
    · simp only [renumber,Option.map_some,Program.renumber_addInstruction]
      rfl

theorem takeLabel_renumber (p : Program) (t : Token) (name : String) :
    takeLabel (isa.renumber f) (p.renumber f) t name =
      (takeLabel isa p t name).map (renumber f) := by
  have hlabel : (p.renumber f).hasLabel name = p.hasLabel name := rfl
  simp only [takeLabel,InstructionSet.isName_renumber,hlabel]
  split
  · rfl
  · split
    · rfl
    · simp only [Except.map,renumber,Program.renumber_addLabel]
      rfl

theorem takeName_renumber (p : Program) (t : Token) :
    takeName (isa.renumber f) (p.renumber f) t = (takeName isa p t).map (renumber f) := by
  have hvariable : (p.renumber f).hasVariable t.value = p.hasVariable t.value := rfl
  simp only [takeName,InstructionSet.isName_renumber,hvariable]
  split
  · rfl
  · split <;> rfl

theorem takeValue_renumber (p : Program) (name t : Token) :
    takeValue (p.renumber f) name t = (takeValue p name t).map (renumber f) := by
  unfold takeValue
  split
  · rfl
  · rfl
  · split <;> rfl

theorem step_renumber (s : ParseState) (t : Token) :
    (s.renumber f).step (isa.renumber f) t = (s.step isa t).map (renumber f) := by
  obtain ⟨phase,p⟩ := s
  cases phase with
  | statement =>
    simp only [step,renumber,Phase.renumber,open?_renumber,takeLabel_renumber]
    cases t.label? with
    | some name => rfl
    | none => cases open? isa p t <;> rfl
  | labelled name token =>
    simp only [step,renumber,Phase.renumber,open?_renumber]
    cases open? isa p t <;> rfl
  | operand head e =>
    simp only [step,renumber,Phase.renumber,Except.map,Program.renumber_addInstruction]
    rfl
  | name token => exact takeName_renumber p t
  | value name => exact takeValue_renumber p name t

theorem finish_renumber (s : ParseState) :
    (s.renumber f).finish = s.finish.map (Program.renumber f) := by
  obtain ⟨phase,p⟩ := s
  cases phase <;> rfl

end ParseState

/-- Tokens are read to the program with the new numbers, or fail as before. -/
theorem Program.parse_renumber (tokens : List Token) :
    Program.parse (isa.renumber f) tokens = (Program.parse isa tokens).map (renumber f) := by
  have hfold : ∀ s : ParseState, tokens.foldlM (ParseState.step (isa.renumber f)) (s.renumber f) =
      (tokens.foldlM (ParseState.step isa) s).map (ParseState.renumber f) := by
    induction tokens with
    | nil => exact fun s => rfl
    | cons t tokens ih =>
      intro s
      rw [List.foldlM_cons,List.foldlM_cons,ParseState.step_renumber]
      cases s.step isa t with
      | error e => rfl
      | ok next => exact ih next
  have hread : tokens.foldlM (ParseState.step (isa.renumber f)) {} =
      (tokens.foldlM (ParseState.step isa) {}).map (ParseState.renumber f) := hfold {}
  rw [parse,parse,hread]
  cases tokens.foldlM (ParseState.step isa) {} with
  | error e => rfl
  | ok s => exact ParseState.finish_renumber s

/-! ### Resolving -/

section
variable {p : Program}

theorem Program.opcode_mem_of_parse {tokens : List Token}
    (hk : isa.byMnemonic? InstructionSet.keyword = none) (h : Program.parse isa tokens = .ok p) :
    ∀ i ∈ p.instructions, i.opcode ∈ isa.opcodes := by
  intro i hi
  obtain ⟨name,e,he,hopcode,-⟩ := (Program.wellFormed_of_parse hk h).entry i hi
  exact InstructionSet.mem_opcodes.mpr ⟨e,(InstructionSet.mem_of_byMnemonic? he).1,hopcode.symm⟩

theorem Program.address?_renumber (name : String) :
    (p.renumber f).address? name = p.address? name := by
  simp [address?,renumber]

theorem Program.resolveOperand_renumber (e : Entry) (text : String) (line : Int) :
    (p.renumber f).resolveOperand (e.renumber f) text line = p.resolveOperand e text line := by
  have himmediate : (p.renumber f).resolveImmediate text line = p.resolveImmediate text line := rfl
  have hdirect : (p.renumber f).resolveDirect text line = p.resolveDirect text line := by
    simp only [resolveDirect,address?_renumber]
  have hcheck : (p.renumber f).checkTarget e.role = p.checkTarget e.role := by
    funext o l
    simp [checkTarget,renumber]
  simp only [resolveOperand,himmediate,hdirect,Entry.renumber,hcheck]

theorem Program.resolveInstruction_renumber (hf : isa.Renumbers f) {i : Instruction}
    (hi : i.opcode ∈ isa.opcodes) :
    resolveInstruction (isa.renumber f) (p.renumber f) (i.renumber f) =
      (resolveInstruction isa p i).map (ResolvedInstruction.renumber f) := by
  obtain ⟨e,he⟩ := InstructionSet.exists_byOpcode?_of_mem hi
  have hnew : (isa.renumber f).byOpcode? (i.renumber f).opcode = some (e.renumber f) := by
    have hfind := InstructionSet.byOpcode?_renumber hf hi
    rw [he] at hfind
    exact hfind
  have hoperand : (i.renumber f).operand = i.operand := rfl
  simp only [resolveInstruction,he,hnew,hoperand]
  cases i.operand with
  | none => rfl
  | some text =>
    have hline : (i.renumber f).line = i.line := rfl
    simp only [resolveOperand_renumber,hline]
    cases p.resolveOperand e text i.line <;> rfl

theorem Program.resolve_renumber (hf : isa.Renumbers f)
    (hp : ∀ i ∈ p.instructions, i.opcode ∈ isa.opcodes) :
    (p.renumber f).resolve (isa.renumber f) =
      (p.resolve isa).map (List.map (ResolvedInstruction.renumber f)) :=
  mapM_map_eq_map_mapM fun i hi => Program.resolveInstruction_renumber hf (hp i hi)

/-! ### Images -/

theorem Word.encode_renumber {opcode : Nat} (hold : opcode ≤ 0xFFFF) (hnew : f opcode ≤ 0xFFFF)
    (operand : Option Int) :
    Word.encode (f opcode) operand = (Word.encode opcode operand).map (Word.renumber f) := by
  have hold' : ¬((opcode : Int) < 0 ∨ 0xFFFF < (opcode : Int)) := by omega
  have hnew' : ¬((f opcode : Int) < 0 ∨ 0xFFFF < (f opcode : Int)) := by omega
  simp only [encode,hold',hnew',if_false,Int.toNat_natCast]
  cases operand with
  | none => simp [Except.map,renumber]
  | some x =>
    dsimp only
    split
    · rfl
    · have hhalf : (opcode*0x10000+(x % 0x10000).toNat)/0x10000 = opcode := by omega
      have hrest : (opcode*0x10000+(x % 0x10000).toNat) % 0x10000 = (x % 0x10000).toNat := by omega
      simp only [Except.map,renumber,hhalf,hrest]

/-- An image has the new numbers in the upper halves of its code words, or fails as before. -/
theorem Image.ofProgram_renumber (hf : isa.Renumbers f)
    (hle : ∀ a ∈ isa.opcodes, a ≤ 0xFFFF) (hp : ∀ i ∈ p.instructions, i.opcode ∈ isa.opcodes) :
    Image.ofProgram (isa.renumber f) (p.renumber f) =
      (Image.ofProgram isa p).map (Image.renumber f) := by
  unfold Image.ofProgram
  rw [Program.resolve_renumber hf hp]
  cases hcode : p.resolve isa with
  | error e => rfl
  | ok code =>
    have hwords : (code.map (ResolvedInstruction.renumber f)).mapM ResolvedInstruction.encode =
        (code.mapM ResolvedInstruction.encode).map (List.map (Word.renumber f)) := by
      apply mapM_map_eq_map_mapM
      intro r hr
      obtain ⟨k,hk⟩ := List.mem_iff_getElem?.mp hr
      obtain ⟨i,hi,hres⟩ := getElem?_mapM hcode hk
      obtain ⟨-,-,rfl,-⟩ := Program.entry_of_resolve hres
      have hopcode := hp r.instruction (List.mem_of_getElem? hi)
      have hencode := Word.encode_renumber (hle _ hopcode) (hf.le _ hopcode)
        (r.operand.map Operand.value)
      simp only [ResolvedInstruction.encode,ResolvedInstruction.renumber,Instruction.renumber,
        hencode]
      cases Word.encode r.instruction.opcode (r.operand.map Operand.value) <;> rfl
    simp only [Except.map,Except.mapError,ok_bind,hwords]
    cases code.mapM ResolvedInstruction.encode <;> rfl

/-! ### Labelled statements -/

namespace GotoProgram

theorem withRole_renumber {r : ResolvedInstruction} (h : r.role.isSome) :
    withRole (r.renumber f) = (withRole r).map fun i => (i.1.renumber f,i.2) := by
  obtain ⟨role,hrole⟩ := Option.isSome_iff_exists.mp h
  have hnew : (r.renumber f).role = some role := hrole
  simp only [withRole,hrole,hnew]
  rfl

theorem labelsAt_renumber (numeric : List Int) (position : Nat) :
    labelsAt (p.renumber f) numeric position = labelsAt p numeric position := rfl

theorem operation_renumber (numeric : List Int) (i : (ResolvedInstruction × Role) × Nat) :
    operation (p.renumber f) numeric ((i.1.1.renumber f,i.1.2),i.2) = operation p numeric i := by
  rw [operation,operation,labelsAt_renumber]
  rfl

/-- The labelled statements do not depend on the numbers. -/
theorem ofProgram_renumber (hisa : isa.Regular) (hf : isa.Renumbers f)
    (hp : ∀ i ∈ p.instructions, i.opcode ∈ isa.opcodes) :
    ofProgram (isa.renumber f) (p.renumber f) = ofProgram isa p := by
  have hnames : checkNames (p.renumber f) = checkNames p := rfl
  unfold ofProgram
  rw [hnames,Program.resolve_renumber hf hp]
  cases checkNames p with
  | error e => simp only [error_bind]
  | ok u =>
    cases hcode : p.resolve isa with
    | error e => simp only [Except.map,Except.mapError,ok_bind,error_bind]
    | ok code =>
      have hroles : (code.map (ResolvedInstruction.renumber f)).mapM withRole =
          (code.mapM withRole).map (List.map fun i => (i.1.renumber f,i.2)) := by
        apply mapM_map_eq_map_mapM
        intro r hr
        obtain ⟨k,hk⟩ := List.mem_iff_getElem?.mp hr
        obtain ⟨i,-,hres⟩ := getElem?_mapM hcode hk
        obtain ⟨e,he,-,hrole,-⟩ := Program.entry_of_resolve hres
        exact withRole_renumber (hrole ▸ hisa.role_isSome he)
      simp only [Except.map,Except.mapError,ok_bind,hroles]
      cases code.mapM withRole with
      | error e => simp only [error_bind]
      | ok instructions =>
        have htargets : (instructions.map fun i => (i.1.renumber f,i.2)).filterMap numericTarget? =
            instructions.filterMap numericTarget? := by
          rw [List.filterMap_map]
          rfl
        have hoperation : ∀ numeric : List Int, operation (p.renumber f) numeric ∘
            Prod.map (fun i => (i.1.renumber f,i.2)) id = operation p numeric := by
          intro numeric
          funext i
          exact operation_renumber numeric i
        have hlength : (p.renumber f).instructions.length = p.instructions.length :=
          List.length_map _
        simp only [ok_bind,htargets,List.zipIdx_map,List.mapM_map,hoperation,hlength,
          labelsAt_renumber]
        rfl

end GotoProgram
end
end Micro86
