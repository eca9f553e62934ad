import Micro86.Proofs.GotoProgram.Labels
import Micro86.Proofs.GotoProgram.RoundTrip
import Micro86.Proofs.Program.Resolve

/-!
Names in a compiled program: they are declared in its source, or they are labels of positions.
So they are plain, the check of names keeps them apart from the words of the text, and the
program is read back from its text.
-/
namespace Micro86.GotoProgram

variable {isa : InstructionSet} {p : Program} {code : List ResolvedInstruction}
variable {numeric : List Int} {g : GotoProgram} {r : ResolvedInstruction} {role : Role}

/-- The names of a program are plain. -/
def PlainNames (p : Program) : Prop := (∀ l ∈ p.labels, Plain l.1) ∧ ∀ v ∈ p.vars, Plain v.1

theorem plain_positionLabel (n : Nat) : Plain (positionLabel n) := by
  refine ⟨⟨'_',_,toList_positionLabel n,by decide⟩,?_⟩
  rw [toList_positionLabel]
  intro c hc
  obtain rfl | hc := List.mem_cons.mp hc
  · decide
  · obtain rfl | hc := List.mem_cons.mp hc
    · decide
    · exact isNameChar_of_mem_toDigits hc

/-- A variable that passes the check is no word of the text. -/
theorem fresh_of_checkNames (hnames : checkNames p = .ok ()) (hplain : PlainNames p)
    {v : String × Int} (hv : v ∈ p.vars) : Fresh v.1 := by
  have hcheck := forM_eq_ok.mp hnames v.1 (List.mem_append_left _ (List.mem_map_of_mem hv))
  unfold checkName at hcheck
  split at hcheck
  · simp at hcheck
  · next hreserved =>
    simp only [Bool.or_eq_true,List.contains_iff_mem,not_or] at hreserved
    exact ⟨hplain.2 v hv,hreserved.1,hreserved.2⟩

/-! ### Operands -/

theorem someOperand_eq_ok {o : Operand} (h : someOperand r role = .ok o) :
    r.operand = some o := by
  unfold someOperand at h
  split at h
  · next ho =>
    cases h
    exact ho
  · simp at h

theorem fresh_of_storage (hnames : checkNames p = .ok ()) (hplain : PlainNames p)
    (hcode : p.resolve isa = .ok code) (hr : r ∈ code) {o : Operand} (ho : r.operand = some o)
    (hkind : o.kind = .storage) : Fresh o.text := by
  obtain ⟨a,ha,-⟩ := (Program.operand_of_resolve hcode hr ho).2.1 hkind
  obtain ⟨value,hv⟩ := Program.mem_vars_of_address? ha
  exact fresh_of_checkNames hnames hplain hv

theorem valueOperand_named (hnames : checkNames p = .ok ()) (hplain : PlainNames p)
    (hcode : p.resolve isa = .ok code) (hr : r ∈ code) {e : Expr}
    (h : valueOperand r role = .ok e) : e.Named := by
  obtain ⟨o,ho,h⟩ := bind_eq_ok.mp h
  split at h
  · next hkind =>
    cases h
    exact fresh_of_storage hnames hplain hcode hr (someOperand_eq_ok ho) hkind
  all_goals
    cases h
    trivial

theorem storageOperand_fresh (hnames : checkNames p = .ok ()) (hplain : PlainNames p)
    (hcode : p.resolve isa = .ok code) (hr : r ∈ code) {name : String}
    (h : storageOperand r role = .ok name) : Fresh name := by
  obtain ⟨o,ho,h⟩ := bind_eq_ok.mp h
  split at h
  · next hkind =>
    cases h
    exact fresh_of_storage hnames hplain hcode hr (someOperand_eq_ok ho) hkind
  all_goals simp at h

theorem targetOperand_plain (hplain : PlainNames p) (hcode : p.resolve isa = .ok code)
    (hr : r ∈ code) (hrole : r.role = some role) (hjump : role.isJump) {label : String}
    (h : targetOperand r role = .ok label) : Plain label := by
  obtain ⟨o,ho,h⟩ := bind_eq_ok.mp h
  obtain ⟨hlabel,-,hliteral⟩ := Program.operand_of_resolve hcode hr (someOperand_eq_ok ho)
  split at h
  · next hkind =>
    cases h
    obtain ⟨n,hn,-⟩ := hlabel hkind
    exact hplain.1 _ (Program.mem_labels_of_label? hn)
  · next hkind =>
    cases h
    have hrange := hliteral hkind (by simpa [hrole] using hjump)
    obtain ⟨n,hn⟩ := Int.eq_ofNat_of_zero_le hrange.1
    rw [hn]
    exact plain_positionLabel n
  · simp at h

/-! ### Statements and programs -/

/-- The statements of an instruction have the names of its operand, and one of two shapes. -/
theorem statements_named (hnames : checkNames p = .ok ()) (hplain : PlainNames p)
    (hcode : p.resolve isa = .ok code) (hr : r ∈ code) (hrole : r.role = some role)
    {block : List Statement} (h : statements r role = .ok block) (labels : List String) :
    (∀ s ∈ block, s.Named) ∧ (Operation.mk labels block).Shaped := by
  have hvalue : ∀ e, valueOperand r role = .ok e → e.Named := fun e =>
    valueOperand_named hnames hplain hcode hr
  cases role with
  | halt | output =>
    obtain ⟨⟨⟩,-,h⟩ := bind_eq_ok.mp h
    cases h
    exact ⟨by simp [Statement.Named],.inl ⟨_,rfl,nofun⟩⟩
  | input =>
    obtain ⟨⟨⟩,-,h⟩ := bind_eq_ok.mp h
    cases h
    exact ⟨by simp [Statement.Named],.inr rfl⟩
  | store =>
    obtain ⟨name,hname,h⟩ := bind_eq_ok.mp h
    cases h
    have hfresh := storageOperand_fresh hnames hplain hcode hr hname
    exact ⟨by simpa [Statement.Named] using hfresh,.inl ⟨_,rfl,nofun⟩⟩
  | load | add | sub | mul | div | mod | cmp =>
    obtain ⟨e,he,h⟩ := bind_eq_ok.mp h
    cases h
    exact ⟨by simpa [Statement.Named] using hvalue e he,.inl ⟨_,rfl,nofun⟩⟩
  | jmp | je | jne | jl | jle | jg | jge =>
    obtain ⟨label,hlabel,h⟩ := bind_eq_ok.mp h
    cases h
    have hlabel := targetOperand_plain hplain hcode hr hrole rfl hlabel
    exact ⟨by simpa [Statement.Named] using hlabel,.inl ⟨_,rfl,nofun⟩⟩

theorem plain_of_mem_labelsAt (hplain : PlainNames p) {label : String} {position : Nat}
    (h : label ∈ labelsAt p numeric position) : Plain label := by
  obtain h | ⟨rfl,-⟩ := mem_labelsAt.mp h
  · exact hplain.1 _ h
  · exact plain_positionLabel position

theorem Operation.code_named {o : Operation} (hlabels : ∀ label ∈ o.labels, Plain label)
    (hstatements : ∀ s ∈ o.statements, s.Named) : ∀ l ∈ o.code, l.Named := by
  obtain ⟨labels,block⟩ := o
  cases block with
  | nil => simp [Operation.code]
  | cons first rest =>
    obtain ⟨hfirst,hrest⟩ := List.forall_mem_cons.mp hstatements
    simp only [Operation.code,List.forall_mem_cons,List.forall_mem_map]
    exact ⟨⟨hlabels,hfirst⟩,fun s hs => ⟨by simp,hrest s hs⟩⟩

theorem Compiled.operation_named (hc : Compiled p code numeric g)
    (hcode : p.resolve isa = .ok code) (hplain : PlainNames p) {o : Operation}
    (ho : o ∈ g.operations) : (∀ l ∈ o.code, l.Named) ∧ o.Shaped := by
  obtain ⟨i,hi⟩ := List.mem_iff_getElem?.mp ho
  obtain ⟨r,role,block,hr,hrole,hblock,rfl⟩ := hc.instruction_of_operation hi
  obtain ⟨hnamed,hshaped⟩ := statements_named hc.names hplain hcode (List.mem_of_getElem? hr)
    hrole hblock (labelsAt p numeric i)
  exact ⟨Operation.code_named (fun _ => plain_of_mem_labelsAt hplain) hnamed,hshaped⟩

/-- The names in a compiled program can be read, if those of its source are plain. -/
theorem Compiled.code_named (hc : Compiled p code numeric g) (hcode : p.resolve isa = .ok code)
    (hplain : PlainNames p) : ∀ l ∈ g.code, l.Named := by
  simp only [GotoProgram.code,List.forall_mem_append,List.forall_mem_map,List.forall_mem_cons]
  refine ⟨⟨?_,?_⟩,⟨?_,.inr rfl⟩,by simp⟩
  · rw [hc.declarations]
    exact hplain.2
  · intro l hl
    obtain ⟨o,ho,hl⟩ := List.mem_flatMap.mp hl
    exact (hc.operation_named hcode hplain ho).1 l hl
  · rw [hc.endLabels]
    exact fun _ => plain_of_mem_labelsAt hplain

/-- A compiled program with plain names is read back from its text. -/
theorem Compiled.read_render (hc : Compiled p code numeric g) (hcode : p.resolve isa = .ok code)
    (hplain : PlainNames p) : read g.render = some g :=
  GotoProgram.read_render (hc.code_named hcode hplain)
    fun _ ho => (hc.operation_named hcode hplain ho).2

end Micro86.GotoProgram
