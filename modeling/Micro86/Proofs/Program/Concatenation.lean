import Micro86.Proofs.Program.Completion

/-!
Two sources, one behind the other. Each is a whole number of statements, so nothing is read across
the place where they meet, and the second one is read as it would be alone, only with other names
declared before it. If none of its names is among those, the programs stand one behind the other,
with the labels of the second moved behind the code of the first. If one is, the reading ends at the
first token that declares such a name.
-/
namespace Micro86

/-- A name, and what a token declares it to be. -/
inductive Declaration
  | label (name : String)
  | var (name : String)
  deriving DecidableEq, Repr

namespace Declaration

/-- Whether a program has declared the same already. -/
def isIn (p : Program) : Declaration → Bool
  | label name => p.hasLabel name
  | var name => p.hasVariable name

/-- The fault of declaring it once more. -/
def again : Declaration → ParseFault
  | label name => .duplicateLabel name
  | var name => .duplicateVariable name

end Declaration

attribute [ext] Program

namespace Program

/-- A program behind another: its labels name positions behind the code of the first. -/
instance : Append Program where
  append p q :=
    { instructions := p.instructions ++ q.instructions
      labels := p.labels ++ q.labels.map fun l => (l.1,p.instructions.length+l.2)
      vars := p.vars ++ q.vars }

/-- No label of one program is a label of the other, and no variable a variable. -/
structure Apart (p q : Program) : Prop where
  labels : ∀ l ∈ q.labels, p.hasLabel l.1 = false
  vars : ∀ v ∈ q.vars, p.hasVariable v.1 = false

section
variable (p q : Program)

@[simp] theorem append_instructions : (p ++ q).instructions = p.instructions ++ q.instructions :=
  rfl

@[simp] theorem append_labels :
    (p ++ q).labels = p.labels ++ q.labels.map fun l => (l.1,p.instructions.length+l.2) := rfl

@[simp] theorem append_vars : (p ++ q).vars = p.vars ++ q.vars := rfl

theorem append_empty : p ++ ({} : Program) = p := by
  obtain ⟨instructions,labels,vars⟩ := p
  change Program.mk (instructions ++ []) (labels ++ []) (vars ++ []) = _
  simp only [List.append_nil]

theorem hasLabel_append (name : String) :
    (p ++ q).hasLabel name = (p.hasLabel name || q.hasLabel name) := by
  simp [hasLabel,List.any_map,Function.comp_def]

theorem hasVariable_append (name : String) :
    (p ++ q).hasVariable name = (p.hasVariable name || q.hasVariable name) := by
  simp [hasVariable]

/-- The variables of the second program are counted behind those of the first. -/
theorem ordinal?_append (name : String) :
    (p ++ q).ordinal? name = (p.ordinal? name).or ((q.ordinal? name).map (p.vars.length+·)) := by
  simp only [ordinal?,append_vars,List.findIdx?_append,Option.map_or,Option.map_map]
  congr 2
  funext i
  simp only [Function.comp_apply]
  omega

end

theorem ordinal?_eq_none {p : Program} {name : String} (h : p.hasVariable name = false) :
    p.ordinal? name = none := by
  simp only [hasVariable,List.any_eq_false] at h
  simp only [ordinal?,Option.map_eq_none_iff,List.findIdx?_eq_none_iff]
  intro v hv
  simpa using h v hv

theorem mem_vars_of_ordinal? {p : Program} {name : String} {n : Nat}
    (h : p.ordinal? name = some n) : ∃ v ∈ p.vars, v.1 = name := by
  obtain ⟨k,hk,-⟩ := Option.map_eq_some_iff.mp h
  obtain ⟨hlt,hname,-⟩ := List.findIdx?_eq_some_iff_getElem.mp hk
  exact ⟨p.vars[k],List.getElem_mem hlt,of_decide_eq_true hname⟩

end Program

theorem Declaration.isIn_append (p q : Program) (d : Declaration) :
    d.isIn (p ++ q) = (d.isIn p || d.isIn q) := by
  cases d with
  | label name => exact p.hasLabel_append q name
  | var name => exact p.hasVariable_append q name

/-- A name that is declared stays declared behind a label. -/
theorem Declaration.isIn_addLabel {p : Program} {d : Declaration} (h : d.isIn p = true)
    (name : String) : d.isIn (p.addLabel name) = true := by
  cases d with
  | label other =>
    have hother : p.hasLabel other = true := h
    simp only [Program.hasLabel] at hother
    simp [isIn,Program.hasLabel,Program.addLabel,hother]
  | var other => exact h

namespace Grammar
open ParseState

variable {isa : InstructionSet} {p q : Program}

/-- The token of a body that declares a name. -/
def Body.declarations : Body → List (Token × Declaration)
  | instruction _ _ _ => []
  | declaration _ name _ _ => [(name,.var name.value)]

/-- The tokens of a statement that declare a name, in order. -/
def Statement.declarations (s : Statement) : List (Token × Declaration) :=
  (s.label.map fun l => (labelToken l,Declaration.label l.1)).toList ++ s.body.declarations

def declarations (ss : List Statement) : List (Token × Declaration) :=
  ss.flatMap Statement.declarations

/-- What declares names is a part of the tokens, in their order. -/
theorem declarations_sublist (ss : List Statement) :
    ((declarations ss).map Prod.fst).Sublist (ss.flatMap Statement.tokens) := by
  have hone : ∀ s : Statement, (s.declarations.map Prod.fst).Sublist s.tokens := by
    rintro ⟨label,b⟩
    have hbody : (b.declarations.map Prod.fst).Sublist b.tokens := by
      cases b <;> simp [Body.declarations,Body.tokens,Body.tail]
    cases label with
    | none => exact hbody
    | some l => exact hbody.cons_cons (labelToken l)
  induction ss with
  | nil => exact List.Sublist.refl []
  | cons s ss ih =>
    rw [declarations,List.flatMap_cons,List.flatMap_cons,List.map_append]
    exact (hone s).append ih

/-! ### What a statement adds -/

theorem Body.addTo_append (b : Body) (p q : Program) : b.addTo (p ++ q) = p ++ b.addTo q := by
  cases b with
  | instruction head entry operand =>
    apply Program.ext <;> simp [Body.addTo,Program.addInstruction]
  | declaration head name literal value =>
    apply Program.ext <;> simp [Body.addTo,Program.addVariable]

theorem Statement.addTo_append (s : Statement) (p q : Program) :
    s.addTo (p ++ q) = p ++ s.addTo q := by
  obtain ⟨label,b⟩ := s
  cases label with
  | none => exact b.addTo_append p q
  | some l =>
    have hlabel : (p ++ q).addLabel l.1 = p ++ q.addLabel l.1 := by
      apply Program.ext <;> simp [Program.addLabel]
    simp only [Statement.addTo,hlabel,Body.addTo_append]

/-! ### One statement behind a program -/

/-- Names that are new to both programs are new to both together. -/
theorem Statement.FreshFor.append_left {s : Statement} (h : s.FreshFor q)
    (hfind : (s.declarations.find? fun d => d.2.isIn p) = none) : s.FreshFor (p ++ q) := by
  rw [List.find?_eq_none] at hfind
  constructor
  · intro l hl
    have hp := hfind (labelToken l,.label l.1) (by simp [Statement.declarations,hl])
    rw [Program.hasLabel_append,h.label l hl,Bool.or_false]
    simpa [Declaration.isIn] using hp
  · intro v hv
    obtain ⟨label,b⟩ := s
    cases b with
    | instruction head entry operand => simp [Body.var?] at hv
    | declaration head name literal value =>
      obtain rfl := Option.some.inj hv
      have hp := hfind (name,.var name.value) (by simp [Statement.declarations,Body.declarations])
      rw [Program.hasVariable_append,h.var _ rfl,Bool.or_false]
      simpa [Declaration.isIn] using hp

/-- A variable that is declared again is refused at its name. -/
theorem Body.Valid.read_again (hk : isa.byMnemonic? InstructionSet.keyword = none) {b : Body}
    (hb : b.Valid isa) {d : Token × Declaration} (hd : d ∈ b.declarations)
    (hin : d.2.isIn p = true) :
    ∃ mid, open? isa p b.head = some mid ∧
      b.tail.foldlM (step isa) mid = .error (.fault d.2.again d.1) := by
  cases b with
  | instruction head entry operand => simp [Body.declarations] at hd
  | declaration head name literal value =>
    obtain ⟨hkey,hname,-⟩ := hb
    obtain rfl := List.mem_singleton.mp hd
    have hagain : p.hasVariable name.value = true := hin
    refine ⟨⟨.name head,p⟩,by simp [open?,Body.head,hkey,hk],?_⟩
    simp [Body.tail,step,takeName,hname,hagain,Declaration.again]

/-- Whatever stands behind the label, the label itself is taken if its name is new. -/
theorem step_labelToken {l : String × Int} (hname : isa.isName l.1) (hnew : p.hasLabel l.1 = false) :
    step isa ⟨.statement,p⟩ (labelToken l) =
      .ok ⟨.labelled l.1 (labelToken l),p.addLabel l.1⟩ := by
  have htake := takeLabel_eq_ok (t := labelToken l).mpr ⟨hname,hnew,rfl⟩
  simp [step,label?_labelToken,htake]

theorem step_labelToken_again {l : String × Int} (hname : isa.isName l.1)
    (hagain : p.hasLabel l.1 = true) :
    step isa ⟨.statement,p⟩ (labelToken l) =
      .error (.fault (Declaration.label l.1).again (labelToken l)) := by
  simp [step,label?_labelToken,takeLabel,hname,hagain,Declaration.again]

/-- A statement behind a program is read as it is without it, unless it declares a name that the
program has; then it is refused at the first token that does. -/
theorem Statement.Valid.read_behind (hk : isa.byMnemonic? InstructionSet.keyword = none)
    {s : Statement} (hs : s.Valid isa) (hnew : s.FreshFor q) :
    s.tokens.foldlM (step isa) ⟨.statement,p ++ q⟩ =
      (s.declarations.find? fun d => d.2.isIn p).elim (.ok ⟨.statement,p ++ s.addTo q⟩)
        fun d => .error (.fault d.2.again d.1) := by
  cases hfind : s.declarations.find? fun d => d.2.isIn p with
  | none =>
    have hfresh := hnew.append_left hfind
    rw [hs.read hk hfresh,s.addTo_append,Option.elim_none]
  | some d =>
    rw [Option.elim_some]
    obtain ⟨label,b⟩ := s
    obtain ⟨hb,hl⟩ := hs
    have hin : d.2.isIn (p ++ q) = true := by
      have hfirst := List.find?_some hfind
      rw [Declaration.isIn_append,hfirst,Bool.true_or]
    cases label with
    | none =>
      obtain ⟨mid,hopen,hread⟩ := hb.read_again hk (List.mem_of_find?_eq_some hfind) hin
      have hfirst : step isa ⟨.statement,p ++ q⟩ b.head = .ok mid := by
        simp [step,label?_eq_none_iff.mpr hl,hopen]
      simp [Statement.tokens,Body.tokens,hfirst,hread]
    | some l =>
      cases hlabel : p.hasLabel l.1 with
      | true =>
        have hd : d = (labelToken l,Declaration.label l.1) := by
          simpa [Statement.declarations,Declaration.isIn,hlabel,eq_comm] using hfind
        have hagain : (p ++ q).hasLabel l.1 = true := by simp [Program.hasLabel_append,hlabel]
        simp [Statement.tokens,step_labelToken_again hl hagain,hd]
      | false =>
        have hbody : b.declarations.find? (fun d => d.2.isIn p) = some d := by
          simpa [Statement.declarations,Declaration.isIn,hlabel] using hfind
        have hfresh : (p ++ q).hasLabel l.1 = false := by
          simp [Program.hasLabel_append,hlabel,hnew.label l rfl]
        obtain ⟨mid,hopen,hread⟩ := hb.read_again hk (List.mem_of_find?_eq_some hbody)
          (Declaration.isIn_addLabel hin l.1)
        have hsecond : step isa ⟨.labelled l.1 (labelToken l),(p ++ q).addLabel l.1⟩ b.head =
            .ok mid := by simp [step,hopen]
        simp [Statement.tokens,Body.tokens,step_labelToken hl hfresh,hsecond,hread]

/-! ### Many statements behind a program -/

/-- Statements with names of their own are read behind a program up to the first token that declares
a name of the program. -/
theorem read_behind (hk : isa.byMnemonic? InstructionSet.keyword = none) {ss : List Statement}
    (hv : ∀ s ∈ ss, s.Valid isa) (hf : AllFresh q ss) :
    (ss.flatMap Statement.tokens).foldlM (step isa) ⟨.statement,p ++ q⟩ =
      ((declarations ss).find? fun d => d.2.isIn p).elim
        (.ok ⟨.statement,p ++ ss.foldl Statement.addTo q⟩)
        fun d => .error (.fault d.2.again d.1) := by
  induction ss generalizing q with
  | nil => rfl
  | cons s ss ih =>
    obtain ⟨hs,hf⟩ := hf
    have hrest := ih (fun t ht => hv t (List.mem_cons_of_mem s ht)) hf
    have hcons : declarations (s :: ss) = s.declarations ++ declarations ss := rfl
    rw [List.flatMap_cons,List.foldlM_append,(hv s List.mem_cons_self).read_behind hk hs,hcons,
      List.find?_append]
    cases s.declarations.find? fun d => d.2.isIn p with
    | none => simpa using hrest
    | some d => rfl

/-- No token declares a name of a program just if the denoted program has none of its names. -/
theorem find?_declarations_eq_none {ss : List Statement} :
    ((declarations ss).find? fun d => d.2.isIn p) = none ↔ p.Apart (program ss) := by
  have hlabels : (∀ l ∈ (program ss).labels, p.hasLabel l.1 = false) ↔
      ∀ name ∈ labelNames ss, p.hasLabel name = false := by
    rw [← labels_program_names]
    simp
  rw [List.find?_eq_none]
  constructor
  · intro h
    constructor
    · rw [hlabels]
      intro name hname
      obtain ⟨s,hs,hname⟩ := List.mem_filterMap.mp hname
      obtain ⟨l,hl,rfl⟩ := Option.map_eq_some_iff.mp hname
      have hmem : (labelToken l,Declaration.label l.1) ∈ declarations ss :=
        List.mem_flatMap.mpr ⟨s,hs,by simp [Statement.declarations,hl]⟩
      simpa [Declaration.isIn] using h _ hmem
    · intro v hv
      obtain ⟨s,hs,hv⟩ := List.mem_filterMap.mp hv
      cases hb : s.body with
      | instruction head entry operand => simp [hb,Body.var?] at hv
      | declaration head name literal value =>
        rw [hb] at hv
        obtain rfl := Option.some.inj hv
        have hmem : (name,Declaration.var name.value) ∈ declarations ss :=
          List.mem_flatMap.mpr ⟨s,hs,by simp [Statement.declarations,hb,Body.declarations]⟩
        simpa [Declaration.isIn] using h _ hmem
  · rintro ⟨hl,hv⟩ d hd
    rw [hlabels] at hl
    obtain ⟨s,hs,hd⟩ := List.mem_flatMap.mp hd
    obtain hd | hd := List.mem_append.mp hd
    · obtain ⟨l,hlabel,rfl⟩ := Option.map_eq_some_iff.mp (Option.mem_toList.mp hd)
      have hname := hl l.1 (List.mem_filterMap.mpr ⟨s,hs,by rw [hlabel]; rfl⟩)
      simp [Declaration.isIn,hname]
    · cases hb : s.body with
      | instruction head entry operand => simp [hb,Body.declarations] at hd
      | declaration head name literal value =>
        rw [hb] at hd
        obtain rfl := List.mem_singleton.mp hd
        have hname := hv (name.value,value) (List.mem_filterMap.mpr ⟨s,hs,by rw [hb]; rfl⟩)
        simp [Declaration.isIn,hname]

end Grammar

namespace Program
open Grammar

end Program
end Micro86
