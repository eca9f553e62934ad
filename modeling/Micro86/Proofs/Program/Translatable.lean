import Micro86.Proofs.Command.Failures
import Micro86.Proofs.GotoProgram.Naming

/-!
Which programs can be translated with the bundled instruction set. An image wants operands that fit
into half a word, and nothing else. Labelled statements want names that mean nothing else in the
generated code; the marks of the bundled entries fit their roles, so no operand is ever of the wrong
kind there, and no instruction is without a statement.
-/
namespace Micro86

/-- A declared name that the generated code can have: no keyword, none of the code's own names, and if
it looks like the label of a position, the label of just that position. -/
structure GotoProgram.Allowed (p : Program) (name : String) : Prop where
  keyword : name ∉ keywords
  generated : name ∉ generatedNames
  position : ∀ digits, name.toList = '_' :: 'L' :: digits → digits ≠ [] →
    (∀ c ∈ digits, Text.isDecimalDigit c = true) →
    digits.length ≤ Text.maxDecimalDigits ∧ (name,Text.decimalValue digits) ∈ p.labels

/-- The names of the variables and the labels. -/
def Program.names (p : Program) : List String := p.vars.map Prod.fst ++ p.labels.map Prod.fst

/-- Every declared name can stand in the generated code. -/
def GotoProgram.NamesAllowed (p : Program) : Prop := ∀ name ∈ p.names, Allowed p name

variable {isa : InstructionSet} {p : Program} {code : List ResolvedInstruction}

/-! ### Images -/

theorem ResolvedInstruction.exists_encode_iff {r : ResolvedInstruction}
    (h : r.instruction.opcode ≤ 0xFFFF) : (∃ w, r.encode = .ok w) ↔
      ∀ o, r.operand = some o → -0x8000 ≤ o.value ∧ o.value ≤ 0xFFFF := by
  simp only [ResolvedInstruction.encode,mapError_eq_ok,Word.exists_encode_iff]
  constructor
  · rintro ⟨-,hfits⟩ o ho
    exact hfits o.value (by rw [ho,Option.map_some])
  · intro hfits
    refine ⟨by omega,?_⟩
    intro x hx
    obtain ⟨o,ho,rfl⟩ := Option.map_eq_some_iff.mp hx
    exact hfits o ho

/-- An image of a program is a matter of its operands. -/
theorem Image.exists_ofProgram_iff (hopcodes : ∀ i ∈ p.instructions, i.opcode ≤ 0xFFFF)
    (hcode : p.resolve isa = .ok code) : (∃ image, Image.ofProgram isa p = .ok image) ↔
      ∀ r ∈ code, ∀ o, r.operand = some o → -0x8000 ≤ o.value ∧ o.value ≤ 0xFFFF := by
  have hencode : (∃ image, Image.ofProgram isa p = .ok image) ↔
      ∃ words, code.mapM ResolvedInstruction.encode = .ok words := by
    constructor
    · rintro ⟨image,himage⟩
      obtain ⟨code',hcode',hwords,-⟩ := Image.ofProgram_eq_ok.mp himage
      cases hcode.symm.trans hcode'
      exact ⟨image.code,hwords⟩
    · rintro ⟨words,hwords⟩
      exact ⟨⟨words,_⟩,Image.ofProgram_eq_ok.mpr ⟨code,hcode,hwords,rfl⟩⟩
  rw [hencode,exists_mapM_eq_ok]
  refine forall₂_congr fun r hr => ResolvedInstruction.exists_encode_iff ?_
  obtain ⟨k,hk⟩ := List.mem_iff_getElem?.mp hr
  obtain ⟨i,hi,hres⟩ := getElem?_mapM hcode hk
  obtain ⟨-,-,rfl,-⟩ := Program.entry_of_resolve hres
  exact hopcodes _ (List.mem_of_getElem? hi)

theorem Image.ofProgram_of_resolve_error {e : ResolveError} (h : p.resolve isa = .error e) :
    Image.ofProgram isa p = .error (.resolve e) := by
  rw [Image.ofProgram,h]
  rfl

namespace GotoProgram

/-! ### Names -/

/-- A plain name that has the form of a position's label. -/
theorem positionDigits?_of_plain {name : String} (h : Plain name) (digits : List Char) :
    positionDigits? name = some digits ↔ name.toList = '_' :: 'L' :: digits ∧ digits ≠ [] ∧
      ∀ c ∈ digits, Text.isDecimalDigit c = true := by
  have hlast : name.toList.getLast? ≠ some '\n' := by
    intro hlast
    exact absurd (h.chars _ (List.mem_of_getLast? hlast)) (by decide)
  rw [positionDigits?,Text.dropFinalBreak,if_neg hlast]
  split
  · next rest hname =>
    rw [hname,Option.ite_none_right_eq_some]
    simp only [Bool.and_eq_true,Bool.not_eq_true',List.isEmpty_eq_false_iff,List.all_eq_true,
      Option.some.injEq,List.cons.injEq,true_and]
    constructor
    · rintro ⟨hdigits,rfl⟩
      exact ⟨rfl,hdigits⟩
    · rintro ⟨rfl,hdigits⟩
      exact ⟨hdigits,rfl⟩
  · next hother =>
    simp only [reduceCtorEq,false_iff]
    rintro ⟨hname,-⟩
    exact hother digits hname

theorem checkName_eq_ok_iff {name : String} (hn : (p.labels.map Prod.fst).Nodup) (h : Plain name) :
    checkName p name = .ok () ↔ Allowed p name := by
  have hform := positionDigits?_of_plain h
  unfold checkName
  split
  · next hreserved =>
    simp only [Bool.or_eq_true,List.contains_iff_mem] at hreserved
    simp only [reduceCtorEq,false_iff]
    rintro ⟨hkeyword,hgenerated,-⟩
    exact hreserved.elim hkeyword hgenerated
  · next hfree =>
    simp only [Bool.or_eq_true,List.contains_iff_mem,not_or] at hfree
    split
    · next hnone =>
      simp only [true_iff]
      refine ⟨hfree.1,hfree.2,?_⟩
      intro digits hname hne hdigits
      simp [(hform digits).mpr ⟨hname,hne,hdigits⟩] at hnone
    · next digits hsome =>
      obtain ⟨hname,hne,hdigits⟩ := (hform digits).mp hsome
      have hallowed : Allowed p name ↔ digits.length ≤ Text.maxDecimalDigits ∧
          (name,Text.decimalValue digits) ∈ p.labels := by
        constructor
        · intro ha
          exact ha.position digits hname hne hdigits
        · intro hlabel
          refine ⟨hfree.1,hfree.2,?_⟩
          intro other hother _ _
          rw [hname] at hother
          cases hother
          exact hlabel
      rw [hallowed,← Program.label?_eq_some hn,Text.readDecimal]
      by_cases hmany : Text.maxDecimalDigits < digits.length
      · simp [hmany]
      · have hfew : digits.length ≤ Text.maxDecimalDigits := Nat.le_of_not_lt hmany
        rw [if_neg hmany]
        by_cases hlabel : p.label? name = some (Text.decimalValue digits) <;> simp [hlabel,hfew]

theorem checkNames_eq_ok_iff (hn : (p.labels.map Prod.fst).Nodup) (h : PlainNames p) :
    checkNames p = .ok () ↔ NamesAllowed p := by
  rw [checkNames,forM_eq_ok]
  refine forall₂_congr fun name hname => checkName_eq_ok_iff hn ?_
  obtain hname | hname := List.mem_append.mp hname
  · obtain ⟨v,hv,rfl⟩ := List.mem_map.mp hname
    exact h.2 v hv
  · obtain ⟨l,hl,rfl⟩ := List.mem_map.mp hname
    exact h.1 l hl

/-- A name is refused for what it is, or for its digits. -/
theorem kind_of_checkNames {f : GotoError} (h : checkNames p = .error f) :
    f.diagnosis.kind = .invalidIdentifier ∨ f.diagnosis.kind = .tooManyDigits := by
  obtain ⟨name,-,h⟩ := forM_eq_error h
  unfold checkName at h
  split at h
  · cases h
    exact .inl rfl
  · split at h
    · simp at h
    · split at h
      · cases h
        exact .inr rfl
      · split at h
        · simp at h
        · cases h
          exact .inl rfl

/-! ### Statements -/

/-- An operand that is bound as its role asks has its statements. -/
theorem statements_of_bound {r : ResolvedInstruction} {role : Role} (h : r.Bound p role) :
    ∃ block, statements r role = .ok block := by
  cases h with
  | plain h => cases role <;> simp [Role.takesOperand] at h <;> exact ⟨_,rfl⟩
  | direct hrole hjump =>
    cases role <;> simp [Role.takesOperand] at hrole <;> simp [Role.isJump] at hjump <;>
      exact ⟨_,rfl⟩
  | @value i role o hvalue hkind =>
    obtain ⟨kind,text,value⟩ := o
    cases kind with
    | storage => simp at hkind
    | literal | label =>
      cases role <;> simp [Role.takesValue,Role.takesOperand,Role.isJump] at hvalue <;>
        exact ⟨_,rfl⟩
  | position hjump | label hjump =>
    cases role <;> simp [Role.isJump] at hjump <;> exact ⟨_,rfl⟩

/-- Behind the check of names and the resolving nothing is refused. -/
theorem exists_ofProgram (hisa : isa.Regular) (hp : p.WellFormed isa)
    (hnames : checkNames p = .ok ()) (hcode : p.resolve isa = .ok code) :
    ∃ g, ofProgram isa p = .ok g := by
  have hbound : ∀ r ∈ code, ∃ role, r.role = some role ∧ r.Bound p role := by
    intro r hr
    obtain ⟨k,hk⟩ := List.mem_iff_getElem?.mp hr
    obtain ⟨i,hi,hres⟩ := getElem?_mapM hcode hk
    obtain ⟨-,role,-,-,hrole,-,-,hb⟩ :=
      Program.bound_of_resolve hisa hp (List.mem_of_getElem? hi) hres
    exact ⟨role,hrole,hb⟩
  obtain ⟨roles,hroles⟩ : ∃ roles, code.mapM withRole = .ok roles := by
    refine exists_mapM_eq_ok.mpr fun r hr => ?_
    obtain ⟨role,hrole,-⟩ := hbound r hr
    exact ⟨(r,role),withRole_eq_ok.mpr ⟨rfl,hrole⟩⟩
  obtain ⟨operations,hoperations⟩ : ∃ operations,
      roles.zipIdx.mapM (operation p (roles.filterMap numericTarget?)) = .ok operations := by
    refine exists_mapM_eq_ok.mpr fun x hx => ?_
    obtain ⟨k,hk⟩ := List.mem_iff_getElem?.mp (List.fst_mem_of_mem_zipIdx hx)
    obtain ⟨r,hr,hwith⟩ := getElem?_mapM hroles hk
    obtain ⟨hfst,hrole⟩ := withRole_eq_ok.mp hwith
    obtain ⟨role,hrole',hb⟩ := hbound r (List.mem_of_getElem? hr)
    cases hrole.symm.trans hrole'
    obtain ⟨block,hblock⟩ := statements_of_bound hb
    exact ⟨_,by rw [operation,hfst,hblock]; rfl⟩
  have hmade : ofProgram isa p = .ok ⟨p.vars,operations,
      labelsAt p (roles.filterMap numericTarget?) p.instructions.length⟩ := by
    rw [ofProgram,hnames,hcode]
    simp only [ok_bind,Except.mapError,hroles,hoperations]
    rfl
  exact ⟨_,hmade⟩

theorem ofProgram_of_checkNames {f : GotoError} (h : checkNames p = .error f) :
    ofProgram isa p = .error f := by
  rw [ofProgram,h]
  rfl

theorem ofProgram_of_resolve_error (hnames : checkNames p = .ok ()) {e : ResolveError}
    (h : p.resolve isa = .error e) : ofProgram isa p = .error (.resolve e) := by
  rw [ofProgram,hnames,h]
  rfl

/-- With a regular set a refusal comes from the check of names or from the resolving. -/
theorem ofProgram_eq_error (hisa : isa.Regular) (hp : p.WellFormed isa) {f : GotoError}
    (h : ofProgram isa p = .error f) :
    checkNames p = .error f ∨ ∃ e, p.resolve isa = .error e ∧ f = .resolve e := by
  cases hnames : checkNames p with
  | error f' =>
    cases h.symm.trans (ofProgram_of_checkNames hnames)
    exact .inl rfl
  | ok =>
    cases hcode : p.resolve isa with
    | error e =>
      cases h.symm.trans (ofProgram_of_resolve_error hnames hcode)
      exact .inr ⟨e,rfl,rfl⟩
    | ok code =>
      obtain ⟨g,hg⟩ := exists_ofProgram hisa hp hnames hcode
      cases h.symm.trans hg

end GotoProgram

theorem ResolveError.kind_of_diagnosis (e : ResolveError) :
    e.diagnosis.kind ≠ .operandKind ∧ e.diagnosis.kind ≠ .unmappedOpcode := by
  cases e <;> simp [ResolveError.diagnosis,Text.TooManyDigits.diagnosis]

/-- What the two translations of a parsed source make of it. An operand that does not resolve is
reported by both, unless a name is refused before. Otherwise the image is a matter of the operands'
range, and the labelled statements are a matter of the names. -/
theorem translations_of_parsed {marker text : List Char} {p : Program}
    (hparse : Program.parse InstructionSet.bundled (Source.tokens marker text) = .ok p) :
    (∀ e, p.resolve InstructionSet.bundled = .error e →
      Image.ofProgram InstructionSet.bundled p = .error (.resolve e) ∧
      (GotoProgram.NamesAllowed p →
        GotoProgram.ofProgram InstructionSet.bundled p = .error (.resolve e)) ∧
      (¬GotoProgram.NamesAllowed p → ∃ f, GotoProgram.checkNames p = .error f ∧
        GotoProgram.ofProgram InstructionSet.bundled p = .error f ∧
        (f.diagnosis.kind = .invalidIdentifier ∨ f.diagnosis.kind = .tooManyDigits))) ∧
    (∀ code, p.resolve InstructionSet.bundled = .ok code →
      ((∃ image, Image.ofProgram InstructionSet.bundled p = .ok image) ↔
        ∀ r ∈ code, ∀ o, r.operand = some o → -0x8000 ≤ o.value ∧ o.value ≤ 0xFFFF) ∧
      ((∃ g, GotoProgram.ofProgram InstructionSet.bundled p = .ok g) ↔
        GotoProgram.NamesAllowed p)) ∧
    (∀ f, Image.ofProgram InstructionSet.bundled p = .error f →
      f.diagnosis.kind ≠ .operandKind ∧ f.diagnosis.kind ≠ .unmappedOpcode) ∧
    ∀ f, GotoProgram.ofProgram InstructionSet.bundled p = .error f →
      f.diagnosis.kind ≠ .operandKind ∧ f.diagnosis.kind ≠ .unmappedOpcode := by
  have hregular := InstructionSet.bundled_regular
  have hp := Program.wellFormed_of_parse hregular.keyword hparse
  have hnames := GotoProgram.checkNames_eq_ok_iff hp.labels_nodup
    (plain_of_parse hregular.keyword hparse)
  refine ⟨?_,?_,?_,?_⟩
  · intro e he
    refine ⟨Image.ofProgram_of_resolve_error he,?_,?_⟩
    · intro hallowed
      exact GotoProgram.ofProgram_of_resolve_error (hnames.mpr hallowed) he
    · intro hrefused
      cases hcheck : GotoProgram.checkNames p with
      | ok => exact absurd (hnames.mp hcheck) hrefused
      | error f =>
        exact ⟨f,rfl,GotoProgram.ofProgram_of_checkNames hcheck,
          GotoProgram.kind_of_checkNames hcheck⟩
  · intro code hcode
    constructor
    · refine Image.exists_ofProgram_iff ?_ hcode
      intro i hi
      exact InstructionSet.opcode_le_of_parse InstructionSet.parse_bundledText _
        (Program.opcode_mem_of_parse hregular.keyword hparse i hi)
    · constructor
      · rintro ⟨g,hg⟩
        obtain ⟨⟨⟩,hcheck,-⟩ := bind_eq_ok.mp hg
        exact hnames.mp hcheck
      · intro hallowed
        exact GotoProgram.exists_ofProgram hregular hp (hnames.mpr hallowed) hcode
  · intro f _
    cases f with
    | resolve e => exact e.kind_of_diagnosis
    | range => exact ⟨by simp [ImageError.diagnosis],by simp [ImageError.diagnosis]⟩
  · intro f hf
    obtain hcheck | ⟨e,-,rfl⟩ := GotoProgram.ofProgram_eq_error hregular hp hf
    · obtain hkind | hkind := GotoProgram.kind_of_checkNames hcheck <;> simp [hkind]
    · exact e.kind_of_diagnosis

/-- Operands at both ends of the range, and a label that looks like that of another position: there
is an image, and there are no labelled statements. -/
theorem translations_of_misplaced_label :
    let text := "_L0: ADDI -32768\nADDI 65535\nJMPI 0\n_L2: HALT\n".toList
    let p : Program := ⟨[⟨0x0401,"ADDI",some "-32768",1⟩,⟨0x0401,"ADDI",some "65535",2⟩,
      ⟨0x0A01,"JMPI",some "0",3⟩,⟨0x0100,"HALT",none,4⟩],[("_L0",0),("_L2",3)],[]⟩
    Program.parse InstructionSet.bundled (Source.tokens Source.comment text) = .ok p ∧
    GotoProgram.Allowed p "_L0" ∧ ¬GotoProgram.Allowed p "_L2" ∧
    (∃ image, Image.ofProgram InstructionSet.bundled p = .ok image) ∧
    ¬∃ g, GotoProgram.ofProgram InstructionSet.bundled p = .ok g := by
  intro text p
  have hparse : Program.parse InstructionSet.bundled (Source.tokens Source.comment text) =
      .ok p := by
    rw [InstructionSet.bundled_eq]
    simp only [text,String.reduceToList]
    decide +kernel
  have hcode : p.resolve InstructionSet.bundled = .ok [
      ⟨⟨0x0401,"ADDI",some "-32768",1⟩,some .add,true,some ⟨.literal,"-32768",-32768⟩⟩,
      ⟨⟨0x0401,"ADDI",some "65535",2⟩,some .add,true,some ⟨.literal,"65535",65535⟩⟩,
      ⟨⟨0x0A01,"JMPI",some "0",3⟩,some .jmp,true,some ⟨.literal,"0",0⟩⟩,
      ⟨⟨0x0100,"HALT",none,4⟩,some .halt,false,none⟩] := by
    rw [InstructionSet.bundled_eq]
    decide +kernel
  have hfirst : GotoProgram.Allowed p "_L0" := by
    refine ⟨by decide,by decide,?_⟩
    intro digits hname _ _
    cases hname
    decide
  have hsecond : ¬GotoProgram.Allowed p "_L2" := by
    intro h
    have hdigits : ∀ c ∈ ['2'], Text.isDecimalDigit c = true := List.forall_mem_singleton.mpr rfl
    exact absurd (h.position ['2'] rfl (by decide) hdigits).2 (by decide)
  obtain ⟨-,hresolved,-⟩ := translations_of_parsed hparse
  obtain ⟨himage,hgoto⟩ := hresolved _ hcode
  refine ⟨hparse,hfirst,hsecond,himage.mpr (by simp),?_⟩
  intro hg
  exact hsecond (hgoto.mp hg "_L2" (by decide))

end Micro86
