import Micro86.Proofs.Diagnosis
import Micro86.Proofs.GotoProgram.Labels
import Micro86.Proofs.Program.Names
import Micro86.Proofs.Program.Renumbering

/-!
How a translation can fail. Instructions are read by their mnemonics and resolved by their opcodes,
and the two tables of an instruction set need not agree; still every opcode that was read is found.
So a failure is a fault of the source, or a numeral of too many digits that stands in a token.
-/
namespace Micro86.Command.Assemble

/-- How often a decimal digit stands in a token. -/
def digitCount (t : Token) : Nat := t.value.toList.countP Text.isDecimalDigit

/-- The source is at fault, or one of its tokens has more digits than can be read. -/
def Blames (tokens : List Token) (kind : FailureKind) : Prop :=
  kind.isSourceFault = true ∨
    kind = .tooManyDigits ∧ ∃ t ∈ tokens, Text.maxDecimalDigits < digitCount t

variable {isa : InstructionSet} {tokens : List Token} {p : Program}

/-! ### Reading -/

theorem readLiteral_of_step {s : ParseState} {t : Token} {d : Text.TooManyDigits}
    (h : s.step isa t = .error (.digits d)) : Text.readLiteral t.value.toList = .error d := by
  obtain ⟨phase,p⟩ := s
  cases phase with
  | statement =>
    simp only [ParseState.step] at h
    split at h
    · unfold ParseState.takeLabel at h
      split_ifs at h <;> simp at h
    · split at h <;> simp at h
  | labelled name token =>
    simp only [ParseState.step] at h
    split at h <;> simp at h
  | operand head e => simp [ParseState.step] at h
  | name token =>
    simp only [ParseState.step,ParseState.takeName] at h
    split_ifs at h <;> simp at h
  | value name =>
    simp only [ParseState.step,ParseState.takeValue] at h
    split at h
    · next hd =>
      cases h
      exact hd
    · simp at h
    · split_ifs at h
      simp at h

theorem parse_blames {e : ParseError} (h : Program.parse isa tokens = .error e) :
    Blames tokens e.diagnosis.kind := by
  cases e with
  | fault cause token => exact .inl (by cases cause <;> rfl)
  | digits d =>
    refine .inr ⟨rfl,?_⟩
    obtain h | ⟨s,-,h⟩ := bind_eq_error.mp h
    · obtain ⟨t,ht,s,hstep⟩ := foldlM_eq_error h
      exact ⟨t,ht,Text.countP_of_readLiteral (readLiteral_of_step hstep)⟩
    · obtain ⟨phase,q⟩ := s
      cases phase <;> simp [ParseState.finish] at h

/-! ### Resolving -/

/-- The text of an operand is at fault, or a numeral of too many digits. -/
theorem resolve_blames (hk : isa.byMnemonic? InstructionSet.keyword = none)
    (hp : Program.parse isa tokens = .ok p) {e : ResolveError} (h : p.resolve isa = .error e) :
    Blames tokens e.diagnosis.kind := by
  obtain ⟨i,hi,h⟩ := mapM_eq_error h
  obtain ⟨entry,hentry⟩ :=
    InstructionSet.exists_byOpcode?_of_mem (Program.opcode_mem_of_parse hk hp i hi)
  simp only [Program.resolveInstruction,hentry] at h
  cases hoperand : i.operand with
  | none => simp [hoperand] at h
  | some text =>
    rw [hoperand] at h
    obtain h | ⟨o,-,h⟩ := bind_eq_error.mp h
    · obtain rfl | rfl | rfl | ⟨d,rfl,hd⟩ := Program.resolveOperand_eq_error h
      · exact .inl rfl
      · exact .inl rfl
      · exact .inl rfl
      · obtain ⟨t,ht,rfl⟩ := (mem_tokens_of_parse hk hp).2.2 i hi text hoperand
        exact .inr ⟨rfl,t,ht,Text.countP_of_readLiteral hd⟩
    · simp at h

/-! ### Images -/

theorem image_blames (hk : isa.byMnemonic? InstructionSet.keyword = none)
    (hp : Program.parse isa tokens = .ok p) {e : ImageError}
    (h : Image.ofProgram isa p = .error e) : Blames tokens e.diagnosis.kind := by
  obtain h | ⟨code,-,h⟩ := bind_eq_error.mp h
  · obtain ⟨r,hr,rfl⟩ := mapError_eq_error.mp h
    exact resolve_blames hk hp hr
  · obtain h | ⟨words,-,h⟩ := bind_eq_error.mp h
    · obtain ⟨r,-,h⟩ := mapM_eq_error h
      obtain ⟨range,-,rfl⟩ := mapError_eq_error.mp h
      exact .inl rfl
    · simp at h

/-! ### Labelled statements -/

open GotoProgram

theorem positionDigits?_eq_some {name : String} {digits : List Char}
    (h : positionDigits? name = some digits) :
    digits.all Text.isDecimalDigit = true ∧ digits.Sublist name.toList := by
  unfold positionDigits? at h
  split at h
  · next rest hname =>
    split at h
    · next hdigits =>
      cases h
      have hsub : digits.Sublist (Text.dropFinalBreak name.toList) := by
        rw [hname]
        exact (List.sublist_cons_self _ _).trans (List.sublist_cons_self _ _)
      exact ⟨((Bool.and_eq_true _ _).mp hdigits).2,
        hsub.trans (Text.dropFinalBreak_sublist name.toList)⟩
    · simp at h
  · simp at h

theorem checkName_eq_error {name : String} {e : GotoError} (h : checkName p name = .error e) :
    e.diagnosis.kind.isSourceFault = true ∨ e.diagnosis.kind = .tooManyDigits ∧
      Text.maxDecimalDigits < name.toList.countP Text.isDecimalDigit := by
  unfold checkName at h
  split at h
  · cases h
    exact .inl rfl
  · split at h
    · simp at h
    · next digits hdigits =>
      obtain ⟨hall,hsub⟩ := positionDigits?_eq_some hdigits
      split at h
      · next d hd =>
        cases h
        exact .inr ⟨rfl,Text.countP_of_readDecimal hd hall hsub⟩
      · split at h
        · simp at h
        · cases h
          exact .inl rfl

theorem checkNames_blames (hk : isa.byMnemonic? InstructionSet.keyword = none)
    (hp : Program.parse isa tokens = .ok p) {e : GotoError} (h : checkNames p = .error e) :
    Blames tokens e.diagnosis.kind := by
  obtain ⟨hlabels,hvars,-⟩ := mem_tokens_of_parse hk hp
  obtain ⟨name,hname,h⟩ := forM_eq_error h
  obtain hsource | ⟨hkind,hmany⟩ := checkName_eq_error h
  · exact .inl hsource
  · refine .inr ⟨hkind,?_⟩
    obtain hname | hname := List.mem_append.mp hname
    · obtain ⟨v,hv,rfl⟩ := List.mem_map.mp hname
      obtain ⟨-,t,ht,hvalue⟩ := hvars v hv
      exact ⟨t,ht,by rw [digitCount,hvalue]; exact hmany⟩
    · obtain ⟨l,hl,rfl⟩ := List.mem_map.mp hname
      obtain ⟨-,t,ht,hvalue⟩ := hlabels l hl
      refine ⟨t,ht,Nat.lt_of_lt_of_le hmany ?_⟩
      rw [digitCount,hvalue,String.toList_append]
      exact (List.sublist_append_left _ _).countP_le

section
variable {i : ResolvedInstruction} {role : Role} {e : GotoError}

theorem noOperand_eq_error (h : noOperand i role = .error e) :
    e.diagnosis.kind = .operandKind := by
  unfold noOperand at h
  split at h
  · simp at h
  · cases h
    rfl

theorem someOperand_eq_error (h : someOperand i role = .error e) :
    e.diagnosis.kind = .operandKind := by
  unfold someOperand at h
  split at h
  · simp at h
  · cases h
    rfl

theorem valueOperand_eq_error (h : valueOperand i role = .error e) :
    e.diagnosis.kind = .operandKind := by
  obtain h | ⟨o,-,h⟩ := bind_eq_error.mp h
  · exact someOperand_eq_error h
  · split at h <;> simp at h

theorem storageOperand_eq_error (h : storageOperand i role = .error e) :
    e.diagnosis.kind = .operandKind := by
  obtain h | ⟨o,-,h⟩ := bind_eq_error.mp h
  · exact someOperand_eq_error h
  · split at h
    · simp at h
    all_goals
      cases h
      rfl

theorem targetOperand_eq_error (h : targetOperand i role = .error e) :
    e.diagnosis.kind = .operandKind := by
  obtain h | ⟨o,-,h⟩ := bind_eq_error.mp h
  · exact someOperand_eq_error h
  · split at h
    · simp at h
    · simp at h
    · cases h
      rfl

/-- The operand of an instruction does not go with its role. -/
theorem statements_eq_error (h : statements i role = .error e) :
    e.diagnosis.kind = .operandKind := by
  cases role with
  | halt | input | output =>
    obtain h | ⟨u,-,h⟩ := bind_eq_error.mp h
    · exact noOperand_eq_error h
    · simp at h
  | store =>
    obtain h | ⟨name,-,h⟩ := bind_eq_error.mp h
    · exact storageOperand_eq_error h
    · simp at h
  | load | add | sub | mul | div | mod | cmp =>
    obtain h | ⟨expr,-,h⟩ := bind_eq_error.mp h
    · exact valueOperand_eq_error h
    · simp at h
  | jmp | je | jne | jl | jle | jg | jge =>
    obtain h | ⟨label,-,h⟩ := bind_eq_error.mp h
    · exact targetOperand_eq_error h
    · simp at h

/-- Every role has a statement. -/
theorem statements_ne_nil {block : List Statement} (h : statements i role = .ok block) :
    block ≠ [] := by
  cases role
  all_goals
    obtain ⟨a,-,h⟩ := bind_eq_ok.mp h
    cases h
    simp

theorem withRole_eq_error (h : withRole i = .error e) : e.diagnosis.kind = .unmappedOpcode := by
  unfold withRole at h
  split at h
  · simp at h
  · cases h
    rfl

end

theorem goto_blames (hk : isa.byMnemonic? InstructionSet.keyword = none)
    (hp : Program.parse isa tokens = .ok p) {e : GotoError}
    (h : ofProgram isa p = .error e) : Blames tokens e.diagnosis.kind := by
  obtain h | ⟨u,-,h⟩ := bind_eq_error.mp h
  · exact checkNames_blames hk hp h
  obtain h | ⟨code,-,h⟩ := bind_eq_error.mp h
  · obtain ⟨r,hr,rfl⟩ := mapError_eq_error.mp h
    exact resolve_blames hk hp hr
  obtain h | ⟨instructions,-,h⟩ := bind_eq_error.mp h
  · obtain ⟨i,-,h⟩ := mapM_eq_error h
    exact .inl (by rw [withRole_eq_error h]; rfl)
  obtain h | ⟨operations,-,h⟩ := bind_eq_error.mp h
  · obtain ⟨i,-,h⟩ := mapM_eq_error h
    obtain h | ⟨block,-,h⟩ := bind_eq_error.mp h
    · exact .inl (by rw [statements_eq_error h]; rfl)
    · simp at h
  · simp at h

/-- The first statement of every operation is there, to carry the labels. -/
theorem statements_of_goto {g : GotoProgram} (h : ofProgram isa p = .ok g) :
    ∀ o ∈ g.operations, o.statements ≠ [] := by
  intro o ho
  obtain ⟨code,numeric,-,hc⟩ := compiled_of_ofProgram h
  obtain ⟨i,hi⟩ := List.mem_iff_getElem?.mp ho
  obtain ⟨r,role,block,-,-,hblock,rfl⟩ := hc.instruction_of_operation hi
  exact statements_ne_nil hblock

/-! ### Whole translations -/

/-- A translation succeeds, or the source is at fault and the command says so, or it breaks off at a
numeral of too many digits that stands in a token. -/
def Accounted (tokens : List Token) (made : Except Failure String) : Prop :=
  (∃ text, made = .ok text) ∨
  (∃ e, made = .error e ∧ e.diagnosis.kind.isSourceFault = true ∧ e.abort? = none) ∨
  ∃ e d, made = .error e ∧ e.diagnosis.kind = .tooManyDigits ∧ e.abort? = some (.digits d) ∧
    ∃ t ∈ tokens, Text.maxDecimalDigits < digitCount t

/-- The command reports a fault of the source, and breaks off at too many digits. -/
theorem abort?_of_kind (e : Failure) :
    (e.diagnosis.kind.isSourceFault = true → e.abort? = none) ∧
    (e.diagnosis.kind = .tooManyDigits → ∃ d, e.abort? = some (.digits d)) := by
  have hsource : ∀ d : Text.TooManyDigits, ¬d.diagnosis.kind.isSourceFault = true := by
    intro d
    simp [Text.TooManyDigits.diagnosis,FailureKind.isSourceFault,FailureKind.stage?]
  have hresolve : ∀ r : ResolveError, r.diagnosis.kind = .tooManyDigits → ∃ d, r = .digits d := by
    intro r h
    cases r with
    | digits d => exact ⟨d,rfl⟩
    | _ => cases h
  constructor
  · intro h
    unfold Failure.abort?
    split
    · exact absurd h (hsource _)
    · exact absurd h (hsource _)
    · exact absurd h (hsource _)
    · exact absurd h (hsource _)
    · cases h
    · rfl
  · intro h
    cases e with
    | parse e =>
      cases e with
      | fault cause token => cases cause <;> cases h
      | digits d => exact ⟨d,rfl⟩
    | image e =>
      cases e with
      | resolve r =>
        obtain ⟨d,rfl⟩ := hresolve r h
        exact ⟨d,rfl⟩
      | range r line => cases h
    | goto e =>
      cases e with
      | digits d => exact ⟨d,rfl⟩
      | resolve r =>
        obtain ⟨d,rfl⟩ := hresolve r h
        exact ⟨d,rfl⟩
      | _ => cases h
    | noRadix => cases h

theorem accounted_of_error {made : Except Failure String}
    (h : ∀ e, made = .error e → Blames tokens e.diagnosis.kind) : Accounted tokens made := by
  cases made with
  | ok text => exact .inl ⟨text,rfl⟩
  | error e =>
    obtain ⟨hsource,hdigits⟩ := abort?_of_kind e
    obtain hkind | ⟨hkind,ht⟩ := h e rfl
    · exact .inr (.inl ⟨e,rfl,hkind,hsource hkind⟩)
    · obtain ⟨d,hd⟩ := hdigits hkind
      exact .inr (.inr ⟨e,d,rfl,hkind,hd,ht⟩)

end Micro86.Command.Assemble
