import Micro86.Proofs.Diagnosis
import Micro86.Proofs.Program.Acceptance

/-!
What more tokens can mend. A reading that fails at the end of its tokens stands inside a statement,
and from there it can be brought to an end: any word is an operand, there is always a name that
nothing else has, and a number follows it. A reading that fails at a token has not looked behind
that token, so it fails in the same way whatever follows.
-/
namespace Micro86

/-- The kinds of failures that say that the tokens end too early. -/
def FailureKind.isEnd : FailureKind → Bool
  | unexpectedEnd | missingOperand => true
  | _ => false

/-! ### Names that nothing else has -/

/-- A name that is longer than all the words together. -/
def longName (words : List String) : String :=
  String.ofList (List.replicate ((words.map String.toList).flatten.length+1) 'a')

theorem longName_notMem (words : List String) : longName words ∉ words := by
  intro h
  have hle : (longName words).toList.length ≤ (words.map String.toList).flatten.length :=
    (List.sublist_flatten_of_mem (List.mem_map_of_mem h)).length_le
  simp only [longName,String.toList_ofList,List.length_replicate] at hle
  omega

theorem isIdentifier_longName (words : List String) : isIdentifier (longName words) = true := by
  have hlast : (longName words).toList.getLast? ≠ some '\n' := by
    intro hlast
    have hmem := List.mem_of_getLast? hlast
    simp [longName] at hmem
  rw [isIdentifier,Text.dropFinalBreak,if_neg hlast,longName,String.toList_ofList,
    List.replicate_succ]
  simp

/-- There is always a name for one more variable. -/
theorem exists_name (isa : InstructionSet) (p : Program) :
    ∃ name, isa.isName name = true ∧ p.hasVariable name = false := by
  let taken := isa.reservedWords ++ p.vars.map Prod.fst
  have hnew := longName_notMem taken
  simp only [taken,List.mem_append,not_or] at hnew
  refine ⟨longName taken,?_,?_⟩
  · have hfree : isa.isReserved (longName taken) = false := by
      rw [← Bool.not_eq_true,← InstructionSet.mem_reservedWords]
      exact hnew.1
    simp [InstructionSet.isName,isIdentifier_longName,hfree]
  · simp only [Program.hasVariable,List.any_eq_false,decide_eq_true_eq]
    rintro v hv heq
    exact hnew.2 (heq ▸ List.mem_map_of_mem hv)

/-! ### The end of a statement -/

namespace ParseState
variable {isa : InstructionSet}

/-- The tokens bring a reading to the end of a statement. -/
def Completes (isa : InstructionSet) (s : ParseState) (rest : List Token) : Prop :=
  ∃ q, rest.foldlM (step isa) s = .ok ⟨.statement,q⟩

theorem completes_operand (t : Token) (e : Entry) (p : Program) :
    Completes isa ⟨.operand t e,p⟩ [⟨"0",0⟩] := ⟨_,rfl⟩

theorem completes_value (t : Token) (p : Program) :
    Completes isa ⟨.value t,p⟩ [⟨"0",0⟩] := by
  have hzero : takeValue p t ⟨"0",0⟩ = .ok ⟨.statement,p.addVariable t.value 0⟩ :=
    Grammar.takeValue_eq_ok.mpr ⟨0,⟨by decide,by decide,by decide⟩,rfl⟩
  exact ⟨p.addVariable t.value 0,by simp [step,hzero]⟩

theorem completes_name (t : Token) (p : Program) :
    ∃ rest, Completes isa ⟨.name t,p⟩ rest := by
  obtain ⟨name,hname,hnew⟩ := exists_name isa p
  have htake : takeName isa p ⟨name,0⟩ = .ok ⟨.value ⟨name,0⟩,p⟩ :=
    Grammar.takeName_eq_ok.mpr ⟨hname,hnew,rfl⟩
  obtain ⟨q,hq⟩ : Completes isa ⟨.value ⟨name,0⟩,p⟩ [⟨"0",0⟩] := completes_value _ p
  refine ⟨[⟨name,0⟩,⟨"0",0⟩],q,?_⟩
  rw [List.foldlM_cons]
  simp only [step,htake,ok_bind]
  exact hq

/-- The keyword opens a statement, which can be brought to its end. -/
theorem completes_labelled (name : String) (t : Token) (p : Program) :
    ∃ rest, Completes isa ⟨.labelled name t,p⟩ rest := by
  let head : Token := ⟨InstructionSet.keyword,0⟩
  have hopen : ∃ mid rest, open? isa p head = some mid ∧ Completes isa mid rest := by
    cases he : isa.byMnemonic? InstructionSet.keyword with
    | none =>
      obtain ⟨rest,hrest⟩ : ∃ rest, Completes isa ⟨.name head,p⟩ rest := completes_name head p
      exact ⟨_,rest,by simp [open?,head,he],hrest⟩
    | some e =>
      cases ho : e.hasOperand with
      | true => exact ⟨_,_,by simp [open?,head,he,ho],completes_operand head e p⟩
      | false =>
        exact ⟨⟨.statement,p.addInstruction ⟨e.opcode,e.mnemonic,none,0⟩⟩,[],
          by simp [open?,head,he,ho],⟨_,rfl⟩⟩
  obtain ⟨mid,rest,hmid,q,hq⟩ := hopen
  refine ⟨head :: rest,q,?_⟩
  rw [List.foldlM_cons]
  simp only [step,hmid,ok_bind]
  exact hq

/-- Wherever a reading stands, it can be brought to the end of a statement. -/
theorem exists_completes (isa : InstructionSet) (s : ParseState) :
    ∃ rest, Completes isa s rest := by
  obtain ⟨phase,p⟩ := s
  cases phase with
  | statement => exact ⟨[],p,rfl⟩
  | labelled name t => exact completes_labelled name t p
  | operand t e => exact ⟨_,completes_operand t e p⟩
  | name t => exact completes_name t p
  | value t => exact ⟨_,completes_value t p⟩

/-! ### Failures -/

theorem isEnd_of_finish {s : ParseState} {e : ParseError} (h : s.finish = .error e) :
    e.kind.isEnd = true := by
  obtain ⟨phase,p⟩ := s
  cases phase <;> cases h <;> rfl

/-- No token is refused for being the last one. -/
theorem isEnd_of_step {s : ParseState} {t : Token} {e : ParseError}
    (h : step isa s t = .error e) : e.kind.isEnd = false := by
  obtain ⟨phase,p⟩ := s
  cases phase with
  | statement =>
    simp only [step] at h
    split at h
    · unfold takeLabel at h
      split_ifs at h <;> cases h <;> rfl
    · split at h <;> cases h
      rfl
  | labelled name l =>
    simp only [step] at h
    split at h <;> cases h
    rfl
  | operand head entry => cases h
  | name head =>
    simp only [step,takeName] at h
    split_ifs at h <;> cases h <;> rfl
  | value name =>
    simp only [step,takeValue] at h
    split at h
    · cases h
      rfl
    · cases h
      rfl
    · split_ifs at h
      cases h
      rfl

end ParseState

namespace Program

/-- More tokens are read from where the first ones end. -/
theorem parse_append (isa : InstructionSet) (tokens rest : List Token) :
    parse isa (tokens ++ rest) = tokens.foldlM (ParseState.step isa) {} >>= fun s =>
      rest.foldlM (ParseState.step isa) s >>= ParseState.finish := by
  rw [parse,List.foldlM_append]
  cases tokens.foldlM (ParseState.step isa) {} <;> rfl

end Program
end Micro86
