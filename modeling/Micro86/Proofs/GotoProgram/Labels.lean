import Micro86.GotoProgram.Compile
import Micro86.Proofs.Fallible
import Micro86.Proofs.GotoProgram.Semantics
import Micro86.Proofs.Program.Symbols
import Micro86.Proofs.Text.Numeral

/-!
Labels of a compiled program. A declared label stands at its position, the label of a number
at just that number, and no label stands twice: the check of names keeps the two kinds apart.
-/
namespace Micro86.GotoProgram

/-- A compiled program, operation by operation. The positions of `numeric` have labels of
their own. -/
structure Compiled (p : Program) (code : List ResolvedInstruction) (numeric : List Int)
    (g : GotoProgram) : Prop where
  names : checkNames p = .ok ()
  declarations : g.declarations = p.vars
  code_length : code.length = p.instructions.length
  operation : ∀ (i : Nat) (r : ResolvedInstruction), code[i]? = some r →
    ∃ role block, r.role = some role ∧ statements r role = .ok block ∧
      g.operations[i]? = some ⟨labelsAt p numeric i,block⟩
  length : g.operations.length = p.instructions.length
  endLabels : g.endLabels = labelsAt p numeric p.instructions.length
  numeric : ∀ n, n ∈ numeric ↔
    ∃ r ∈ code, ∃ role, r.role = some role ∧ numericTarget? (r,role) = some n

variable {isa : InstructionSet} {p : Program} {code : List ResolvedInstruction}
variable {numeric : List Int} {g : GotoProgram}

theorem withRole_eq_ok {r : ResolvedInstruction} {i : ResolvedInstruction × Role} :
    withRole r = .ok i ↔ i.1 = r ∧ r.role = some i.2 := by
  obtain ⟨q,role⟩ := i
  unfold withRole
  cases hr : r.role <;> simp [eq_comm]

theorem compiled_of_ofProgram (h : ofProgram isa p = .ok g) :
    ∃ code numeric, p.resolve isa = .ok code ∧ Compiled p code numeric g := by
  obtain ⟨⟨⟩,hnames,h⟩ := bind_eq_ok.mp h
  obtain ⟨code,hcode,h⟩ := bind_eq_ok.mp h
  obtain ⟨roles,hroles,h⟩ := bind_eq_ok.mp h
  obtain ⟨operations,hops,h⟩ := bind_eq_ok.mp h
  cases h
  have hresolve := mapError_eq_ok.mp hcode
  have hlength : code.length = p.instructions.length := length_of_mapM hresolve
  refine ⟨code,_,hresolve,hnames,rfl,hlength,?_,?_,rfl,?_⟩
  · intro i r hr
    obtain ⟨⟨q,role⟩,hi,hrole⟩ := getElem?_of_mapM hroles hr
    obtain ⟨rfl,hrole⟩ := withRole_eq_ok.mp hrole
    have hzip : roles.zipIdx[i]? = some ((q,role),i) := by simp [hi]
    obtain ⟨o,ho,hop⟩ := getElem?_of_mapM hops hzip
    obtain ⟨block,hblock,hop⟩ := bind_eq_ok.mp hop
    cases hop
    exact ⟨role,block,hrole,hblock,ho⟩
  · rw [length_of_mapM hops,List.length_zipIdx,length_of_mapM hroles,hlength]
  · intro n
    rw [List.mem_filterMap]
    constructor
    · rintro ⟨⟨q,role⟩,hq,hn⟩
      obtain ⟨i,hi⟩ := List.mem_iff_getElem?.mp hq
      obtain ⟨r,hr,hrole⟩ := getElem?_mapM hroles hi
      obtain ⟨rfl,hrole⟩ := withRole_eq_ok.mp hrole
      exact ⟨q,List.mem_of_getElem? hr,role,hrole,hn⟩
    · rintro ⟨r,hr,role,hrole,hn⟩
      obtain ⟨i,hi⟩ := List.mem_iff_getElem?.mp hr
      obtain ⟨⟨q,role'⟩,hq,hwith⟩ := getElem?_of_mapM hroles hi
      obtain ⟨rfl,hrole'⟩ := withRole_eq_ok.mp hwith
      obtain rfl : role = role' := Option.some.inj (hrole.symm.trans hrole')
      exact ⟨_,List.mem_of_getElem? hq,hn⟩

/-! ### Labels of numbers -/

theorem toList_positionLabel (n : Nat) :
    (positionLabel n).toList = '_' :: 'L' :: Nat.toDigits 10 n := by
  have hpos : ¬(n : Int) < 0 := by omega
  have hjoin : positionLabel n = "_L" ++ Text.decimal n := rfl
  simp [hjoin,Text.toList_decimal,hpos]

theorem positionLabel_injective {n k : Nat} (h : positionLabel n = positionLabel k) : n = k := by
  have hlist := congrArg String.toList h
  rw [toList_positionLabel,toList_positionLabel] at hlist
  have hdigits : Nat.toDigits 10 n = Nat.toDigits 10 k := by simpa using hlist
  rw [← Text.decimalValue_toDigits n,hdigits,Text.decimalValue_toDigits]

theorem positionDigits?_positionLabel (n : Nat) :
    positionDigits? (positionLabel n) = some (Nat.toDigits 10 n) := by
  have hne : Nat.toDigits 10 n ≠ [] := Nat.toDigits_ne_nil
  have hall : (Nat.toDigits 10 n).all Text.isDecimalDigit := by
    rw [List.all_eq_true]
    intro c hc
    exact Text.isDecimalDigit_of_mem_toDigits hc
  have hlast : ('_' :: 'L' :: Nat.toDigits 10 n).getLast? ≠ some '\n' := by
    intro hlast
    have hmem := List.mem_of_getLast? hlast
    simp only [List.mem_cons,Char.reduceEq,false_or] at hmem
    exact absurd (Text.isDecimalDigit_of_mem_toDigits hmem) (by decide)
  have hdrop : Text.dropFinalBreak (positionLabel n).toList =
      '_' :: 'L' :: Nat.toDigits 10 n := by
    rw [toList_positionLabel,Text.dropFinalBreak,if_neg hlast]
  simp [positionDigits?,hdrop,hne,hall]

/-- The label of a number is declared at that number, if at all. -/
theorem label?_positionLabel (hnames : checkNames p = .ok ()) {n : Nat}
    (h : positionLabel n ∈ p.labels.map Prod.fst) : p.label? (positionLabel n) = some n := by
  have hcheck := forM_eq_ok.mp hnames _ (List.mem_append_right _ h)
  unfold checkName at hcheck
  split at hcheck
  · simp at hcheck
  · rw [positionDigits?_positionLabel] at hcheck
    simp only [Text.readDecimal,Text.decimalValue_toDigits] at hcheck
    split at hcheck
    · simp at hcheck
    · next k hk =>
      split at hk
      · simp at hk
      · cases hk
        split at hcheck
        · next hlabel => exact hlabel
        · simp at hcheck

/-! ### Finding a label -/

/-- The name of a position: a declared label, or the label of a number that is jumped to. -/
def NameOf (p : Program) (numeric : List Int) (name : String) (n : Nat) : Prop :=
  p.label? name = some n ∨ name = positionLabel n ∧ (n : Int) ∈ numeric

theorem mem_program_labelsAt {name : String} {position : Nat} :
    name ∈ p.labelsAt position ↔ (name,position) ∈ p.labels := by
  simp only [Program.labelsAt,List.mem_map,List.mem_filter,decide_eq_true_eq]
  constructor
  · rintro ⟨⟨label,other⟩,⟨hmem,hsame⟩,rfl⟩
    obtain rfl : other = position := by omega
    exact hmem
  · intro h
    exact ⟨_,⟨h,rfl⟩,rfl⟩

theorem mem_labelsAt {name : String} {position : Nat} :
    name ∈ labelsAt p numeric position ↔ (name,position) ∈ p.labels ∨
      name = positionLabel position ∧ (position : Int) ∈ numeric := by
  unfold labelsAt
  by_cases hnum : (position : Int) ∈ numeric
  · by_cases hown : positionLabel position ∈ p.labelsAt position
    · simp only [hnum,hown,List.contains_eq_mem,decide_true,Bool.not_true,Bool.and_false,
        Bool.false_eq_true,if_false,and_true,mem_program_labelsAt]
      constructor
      · exact .inl
      · rintro (h | rfl)
        · exact h
        · exact mem_program_labelsAt.mp hown
    · simp [hnum,hown,mem_program_labelsAt]
  · simp [hnum,mem_program_labelsAt]

/-- A name stands at its position and nowhere else. -/
theorem NameOf.mem_labelsAt_iff (hnames : checkNames p = .ok ())
    (hn : (p.labels.map Prod.fst).Nodup) {name : String} {n position : Nat}
    (h : NameOf p numeric name n) : name ∈ labelsAt p numeric position ↔ position = n := by
  rw [mem_labelsAt]
  constructor
  · rintro (hdeclared | ⟨rfl,hnum⟩)
    · have hlabel := (Program.label?_eq_some hn).mpr hdeclared
      obtain h | ⟨rfl,-⟩ := h
      · exact Option.some.inj (hlabel.symm.trans h)
      · have hself := label?_positionLabel hnames (List.mem_map_of_mem hdeclared)
        exact Option.some.inj (hlabel.symm.trans hself)
    · obtain h | ⟨hsame,-⟩ := h
      · have hmem := (Program.label?_eq_some hn).mp h
        have hself := label?_positionLabel hnames (List.mem_map_of_mem hmem)
        exact Option.some.inj (hself.symm.trans h)
      · exact positionLabel_injective hsame
  · rintro rfl
    exact h.imp_left (Program.label?_eq_some hn).mp

namespace Compiled

/-- Every operation comes from the instruction at its place. -/
theorem instruction_of_operation (h : Compiled p code numeric g) {i : Nat} {o : Operation}
    (ho : g.operations[i]? = some o) :
    ∃ r role block, code[i]? = some r ∧ r.role = some role ∧ statements r role = .ok block ∧
      o = ⟨labelsAt p numeric i,block⟩ := by
  have hlt : i < code.length := by
    rw [h.code_length,← h.length]
    exact (List.getElem?_eq_some_iff.mp ho).1
  have hr := List.getElem?_eq_getElem hlt
  obtain ⟨role,block,hrole,hblock,ho'⟩ := h.operation i _ hr
  exact ⟨code[i],role,block,hr,hrole,hblock,Option.some.inj (ho.symm.trans ho')⟩

theorem labelSets_getElem? (h : Compiled p code numeric g) {i : Nat}
    (hi : i ≤ p.instructions.length) : g.labelSets[i]? = some (labelsAt p numeric i) := by
  unfold labelSets
  by_cases hlt : i < p.instructions.length
  · obtain ⟨r,hr⟩ : ∃ r, code[i]? = some r :=
      ⟨_,List.getElem?_eq_getElem (h.code_length.symm ▸ hlt)⟩
    obtain ⟨role,block,-,-,hop⟩ := h.operation i r hr
    rw [List.getElem?_append_left (by simpa [h.length] using hlt)]
    simp [hop]
  · obtain rfl : i = p.instructions.length := by omega
    rw [List.getElem?_append_right (by simp [h.length])]
    simp [h.length,h.endLabels]

/-- A jump to a name goes to its position. -/
theorem find?_of_nameOf (h : Compiled p code numeric g) (hn : (p.labels.map Prod.fst).Nodup)
    {name : String} {n : Nat} (hname : NameOf p numeric name n)
    (hle : n ≤ p.instructions.length) : g.find? name = some n := by
  have hlength : g.labelSets.length = p.instructions.length+1 := by simp [labelSets,h.length]
  have hget : ∀ i (hi : i < g.labelSets.length), g.labelSets[i] = labelsAt p numeric i := by
    intro i hi
    have hsome := h.labelSets_getElem? (i := i) (by omega)
    exact (List.getElem?_eq_some_iff.mp hsome).2
  refine List.findIdx?_eq_some_iff_getElem.mpr ⟨by omega,?_,?_⟩
  · rw [hget,List.contains_iff_mem]
    exact (hname.mem_labelsAt_iff h.names hn).mpr rfl
  · intro j hj
    rw [hget,List.contains_iff_mem,hname.mem_labelsAt_iff h.names hn]
    omega

end Compiled
end Micro86.GotoProgram
