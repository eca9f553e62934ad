import Micro86.Image
import Micro86.Proofs.InstructionSet.Bundled
import Micro86.Proofs.Program.WellFormed

/-!
Resolved instructions of a program that was read, for a regular instruction set. The operand
is bound in one of four ways that the role decides, and the word of the instruction decodes to
its opcode and its operand.
-/
namespace Micro86

/-- The roles whose operand is a number or the value of a variable. -/
def Role.takesValue (role : Role) : Bool :=
  role.takesOperand && !role.isJump && !(role = .store)

/-- How the operand of an instruction with a role is bound in a program. -/
inductive ResolvedInstruction.Bound (p : Program) : ResolvedInstruction → Role → Prop
  /-- There is no operand, and the role asks for none. -/
  | plain {i : Instruction} {role : Role} {immediate : Bool} (h : role.takesOperand = false) :
      Bound p ⟨i,some role,immediate,none⟩ role
  /-- A variable is read or written at its address. -/
  | direct {i : Instruction} {role : Role} {name : String} {address : Nat}
      (hrole : role.takesOperand) (hjump : role.isJump = false)
      (h : p.address? name = some address) :
      Bound p ⟨i,some role,false,some ⟨.storage,name,address⟩⟩ role
  /-- A number, or the position of a label taken as one. -/
  | value {i : Instruction} {role : Role} {o : Operand} (hrole : role.takesValue)
      (hkind : o.kind ≠ .storage) : Bound p ⟨i,some role,true,some o⟩ role
  /-- A position in the code or its end, as a number. -/
  | position {i : Instruction} {role : Role} {text : String} {n : Nat} (hjump : role.isJump)
      (hle : n ≤ p.instructions.length) : Bound p ⟨i,some role,true,some ⟨.literal,text,n⟩⟩ role
  /-- A position in the code or its end, as a label. -/
  | label {i : Instruction} {role : Role} {name : String} {n : Nat} (hjump : role.isJump)
      (hle : n ≤ p.instructions.length) (h : p.label? name = some n) :
      Bound p ⟨i,some role,true,some ⟨.label,name,n⟩⟩ role

/-- Where an operand lies: a variable behind the code, a label in the code or at its end, and so
does a number that is jumped to. -/
structure Operand.Placed (p : Program) (role : Option Role) (o : Operand) : Prop where
  storage : o.kind = .storage → ∃ a, p.address? o.text = some a ∧ o.value = a ∧
    p.instructions.length ≤ a ∧ a < p.instructions.length+p.vars.length
  label : o.kind = .label → ∃ n, p.label? o.text = some n ∧ o.value = n ∧
    n ≤ p.instructions.length
  target : o.kind = .literal → role.any Role.isJump → 0 ≤ o.value ∧
    o.value ≤ p.instructions.length

namespace Program

variable {isa : InstructionSet} {p : Program}

theorem resolveDirect_eq_ok {text : String} {line : Int} {o : Operand} :
    p.resolveDirect text line = .ok o ↔
      ∃ address : Nat, p.address? text = some address ∧ o = ⟨.storage,text,address⟩ := by
  unfold resolveDirect
  cases p.address? text <;> simp [eq_comm]

theorem resolveImmediate_eq_ok {text : String} {line : Int} {o : Operand}
    (h : p.resolveImmediate text line = .ok o) :
    (∃ v, Text.readLiteral text.toList = .ok (some v) ∧ o = ⟨.literal,text,v⟩) ∨
    ∃ n : Nat, p.label? text = some n ∧ o = ⟨.label,text,n⟩ := by
  unfold resolveImmediate at h
  split at h
  · simp at h
  · next v hv =>
    cases h
    exact .inl ⟨v,hv,rfl⟩
  · split at h
    · next n hn =>
      cases h
      exact .inr ⟨n,hn,rfl⟩
    · simp at h

theorem checkTarget_eq_ok {role : Option Role} {o o' : Operand} {line : Int}
    (h : p.checkTarget role o line = .ok o') :
    o' = o ∧ (role.any Role.isJump → o.kind = .literal →
      0 ≤ o.value ∧ o.value ≤ p.instructions.length) := by
  unfold checkTarget at h
  split at h
  · simp at h
  · next hrange =>
    cases h
    refine ⟨rfl,?_⟩
    intro hjump hkind
    simp only [hjump,hkind,decide_true,Bool.true_and,Bool.or_eq_true,decide_eq_true_eq] at hrange
    omega

/-- The three ways in which the text of an operand is taken. -/
theorem resolveOperand_cases {e : Entry} {text : String} {line : Int} {o : Operand}
    (h : p.resolveOperand e text line = .ok o) :
    (e.isImmediate = true ∧ ∃ v, o = ⟨.literal,text,v⟩ ∧
      (e.role.any Role.isJump → 0 ≤ v ∧ v ≤ p.instructions.length)) ∨
    (e.isImmediate = true ∧ ∃ n : Nat, o = ⟨.label,text,n⟩ ∧ p.label? text = some n) ∨
    (e.isImmediate = false ∧ ∃ a : Nat, o = ⟨.storage,text,a⟩ ∧ p.address? text = some a) := by
  unfold resolveOperand at h
  cases himm : e.isImmediate with
  | true =>
    rw [himm] at h
    obtain ⟨o',ho',hcheck⟩ := bind_eq_ok.mp h
    obtain ⟨rfl,htarget⟩ := checkTarget_eq_ok hcheck
    obtain ⟨v,-,rfl⟩ | ⟨n,hn,rfl⟩ := resolveImmediate_eq_ok ho'
    · exact .inl ⟨rfl,v,rfl,fun hjump => htarget hjump rfl⟩
    · exact .inr (.inl ⟨rfl,n,rfl,hn⟩)
  | false =>
    rw [himm] at h
    obtain ⟨o',ho',hcheck⟩ := bind_eq_ok.mp h
    obtain ⟨rfl,-⟩ := checkTarget_eq_ok hcheck
    obtain ⟨a,ha,rfl⟩ := resolveDirect_eq_ok.mp ho'
    exact .inr (.inr ⟨rfl,a,rfl,ha⟩)

theorem resolveImmediate_eq_error {text : String} {line : Int} {err : ResolveError}
    (h : p.resolveImmediate text line = .error err) :
    err = .unknownLabel text line ∨
      ∃ d, err = .digits d ∧ Text.readLiteral text.toList = .error d := by
  unfold resolveImmediate at h
  split at h
  · next d hd =>
    cases h
    exact .inr ⟨d,rfl,hd⟩
  · simp at h
  · split at h
    · simp at h
    · cases h
      exact .inl rfl

theorem resolveDirect_eq_error {text : String} {line : Int} {err : ResolveError}
    (h : p.resolveDirect text line = .error err) : err = .unknownVariable text line := by
  unfold resolveDirect at h
  split at h
  · simp at h
  · cases h
    rfl

theorem checkTarget_eq_error {role : Option Role} {o : Operand} {line : Int} {err : ResolveError}
    (h : p.checkTarget role o line = .error err) : err = .targetOutOfRange o.text line := by
  unfold checkTarget at h
  split at h
  · cases h
    rfl
  · simp at h

/-- The four ways in which the text of an operand is refused. -/
theorem resolveOperand_eq_error {e : Entry} {text : String} {line : Int} {err : ResolveError}
    (h : p.resolveOperand e text line = .error err) :
    err = .unknownLabel text line ∨ err = .unknownVariable text line ∨
      err = .targetOutOfRange text line ∨
      ∃ d, err = .digits d ∧ Text.readLiteral text.toList = .error d := by
  unfold resolveOperand at h
  cases himm : e.isImmediate with
  | true =>
    rw [himm] at h
    obtain h | ⟨o,ho,h⟩ := bind_eq_error.mp h
    · obtain h | h := resolveImmediate_eq_error h
      · exact .inl h
      · exact .inr (.inr (.inr h))
    · obtain ⟨v,-,rfl⟩ | ⟨n,-,rfl⟩ := resolveImmediate_eq_ok ho
      · exact .inr (.inr (.inl (checkTarget_eq_error h)))
      · exact .inr (.inr (.inl (checkTarget_eq_error h)))
  | false =>
    rw [himm] at h
    obtain h | ⟨o,ho,h⟩ := bind_eq_error.mp h
    · exact .inr (.inl (resolveDirect_eq_error h))
    · obtain ⟨a,-,rfl⟩ := resolveDirect_eq_ok.mp ho
      exact .inr (.inr (.inl (checkTarget_eq_error h)))

/-- A resolved instruction has the role and the mark of its opcode's entry. -/
theorem entry_of_resolve {i : Instruction} {r : ResolvedInstruction}
    (h : resolveInstruction isa p i = .ok r) :
    ∃ e, isa.byOpcode? i.opcode = some e ∧ r.instruction = i ∧ r.role = e.role ∧
      r.isImmediate = e.isImmediate ∧
      ∀ o, r.operand = some o → p.resolveOperand e o.text i.line = .ok o := by
  unfold resolveInstruction at h
  split at h
  · simp at h
  · next e he =>
    refine ⟨e,he,?_⟩
    split at h
    · cases h
      exact ⟨rfl,rfl,rfl,nofun⟩
    · next text htext =>
      obtain ⟨o,ho,h⟩ := bind_eq_ok.mp h
      cases h
      refine ⟨rfl,rfl,rfl,?_⟩
      rintro o' ho'
      cases ho'
      obtain ⟨-,v,rfl,-⟩ | ⟨-,n,rfl,-⟩ | ⟨-,a,rfl,-⟩ := resolveOperand_cases ho
      all_goals exact ho

/-- A resolved operand keeps the text that it was written with. -/
theorem text_of_resolve {i : Instruction} {r : ResolvedInstruction}
    (h : resolveInstruction isa p i = .ok r) : r.operand.map Operand.text = i.operand := by
  unfold resolveInstruction at h
  split at h
  · simp at h
  · split at h
    · next hoperand =>
      cases h
      exact hoperand.symm
    · next text hoperand =>
      obtain ⟨o,ho,h⟩ := bind_eq_ok.mp h
      cases h
      obtain ⟨-,v,rfl,-⟩ | ⟨-,n,rfl,-⟩ | ⟨-,a,rfl,-⟩ := resolveOperand_cases ho
      all_goals exact hoperand.symm

/-- Labels and variables that are used are declared, and a number that is jumped to is a position
in the code or its end. -/
theorem operand_of_resolve {code : List ResolvedInstruction} (h : p.resolve isa = .ok code)
    {r : ResolvedInstruction} (hr : r ∈ code) {o : Operand} (ho : r.operand = some o) :
    (o.kind = .label → ∃ n : Nat, p.label? o.text = some n ∧ o.value = n) ∧
    (o.kind = .storage → ∃ a : Nat, p.address? o.text = some a ∧ o.value = a) ∧
    (o.kind = .literal → r.role.any Role.isJump →
      0 ≤ o.value ∧ o.value ≤ p.instructions.length) := by
  obtain ⟨k,hk⟩ := List.mem_iff_getElem?.mp hr
  obtain ⟨i,-,hres⟩ := getElem?_mapM h hk
  obtain ⟨e,-,-,hrole,-,hoperand⟩ := entry_of_resolve hres
  have hcases := resolveOperand_cases (hoperand o ho)
  obtain ⟨kind,text,value⟩ := o
  simp only [Operand.mk.injEq] at hcases
  obtain ⟨-,v,⟨rfl,-,rfl⟩,hrange⟩ | ⟨-,n,⟨rfl,-,rfl⟩,hn⟩ | ⟨-,a,⟨rfl,-,rfl⟩,ha⟩ := hcases
  · exact ⟨nofun,nofun,fun _ hjump => hrange (hrole ▸ hjump)⟩
  · exact ⟨fun _ => ⟨n,hn,rfl⟩,nofun,nofun⟩
  · exact ⟨nofun,fun _ => ⟨a,ha,rfl⟩,nofun⟩

/-- Operands are placed, also if the program was read with another instruction set. -/
theorem placed_of_resolve {reader : InstructionSet} (hp : p.WellFormed reader)
    {code : List ResolvedInstruction} (h : p.resolve isa = .ok code) {r : ResolvedInstruction}
    (hr : r ∈ code) {o : Operand} (ho : r.operand = some o) : o.Placed p r.role := by
  obtain ⟨hlabel,hstorage,hliteral⟩ := operand_of_resolve h hr ho
  refine ⟨?_,?_,hliteral⟩
  · intro hkind
    obtain ⟨a,ha,hvalue⟩ := hstorage hkind
    obtain ⟨k,v,hv,rfl⟩ := (address?_eq_some hp.vars_nodup).mp ha
    have hk := (List.getElem?_eq_some_iff.mp hv).1
    exact ⟨_,ha,hvalue,by omega,by omega⟩
  · intro hkind
    obtain ⟨n,hn,hvalue⟩ := hlabel hkind
    exact ⟨n,hn,hvalue,hp.label_le _ ((label?_eq_some hp.labels_nodup).mp hn)⟩

/-- The operand of a resolved instruction is bound as its role asks. -/
theorem bound_of_resolve (hisa : isa.Regular) (hp : p.WellFormed isa) {i : Instruction}
    (hi : i ∈ p.instructions) {r : ResolvedInstruction}
    (h : resolveInstruction isa p i = .ok r) :
    ∃ e role, isa.byOpcode? i.opcode = some e ∧ r.instruction = i ∧ r.role = some role ∧
      e.role = some role ∧ e.isImmediate = r.isImmediate ∧ r.Bound p role := by
  obtain ⟨name,e,hname,hopcode,hoperand⟩ := hp.entry i hi
  have he := hisa.opcode name e hname
  obtain ⟨role,hrole⟩ := hisa.entry e.opcode e he
  rw [← hopcode] at he
  refine ⟨e,role,he,?_⟩
  simp only [resolveInstruction,he] at h
  cases hio : i.operand with
  | none =>
    rw [hio] at h hoperand
    cases h
    refine ⟨rfl,hrole.role_eq,hrole.role_eq,rfl,?_⟩
    rw [hrole.role_eq]
    exact .plain (by rw [← hrole.operand,← hoperand]; rfl)
  | some text =>
    rw [hio] at h hoperand
    obtain ⟨o,ho,h⟩ := bind_eq_ok.mp h
    cases h
    refine ⟨rfl,hrole.role_eq,hrole.role_eq,rfl,?_⟩
    have htakes : role.takesOperand := by rw [← hrole.operand,← hoperand]; rfl
    have hcases := resolveOperand_cases ho
    rw [hrole.role_eq] at hcases ⊢
    have hstore : e.isImmediate = true → role ≠ .store := by
      intro himm hs
      simp [hrole.store hs] at himm
    cases hj : role.isJump with
    | false =>
      obtain ⟨himm,v,rfl,-⟩ | ⟨himm,n,rfl,-⟩ | ⟨himm,a,rfl,ha⟩ := hcases
      · rw [himm]
        exact .value (by simp [Role.takesValue,htakes,hj,hstore himm]) (by simp)
      · rw [himm]
        exact .value (by simp [Role.takesValue,htakes,hj,hstore himm]) (by simp)
      · rw [himm]
        exact .direct htakes hj ha
    | true =>
      obtain ⟨himm,v,rfl,hrange⟩ | ⟨himm,n,rfl,hn⟩ | ⟨himm,a,rfl,ha⟩ := hcases
      · obtain ⟨hlo,hhi⟩ := hrange hj
        obtain ⟨n,rfl⟩ := Int.eq_ofNat_of_zero_le hlo
        rw [himm]
        exact .position hj (by simpa using hhi)
      · rw [himm]
        exact .label hj (hp.label_le _ ((label?_eq_some hp.labels_nodup).mp hn)) hn
      · simp [hrole.jump hj] at himm

end Program
end Micro86
