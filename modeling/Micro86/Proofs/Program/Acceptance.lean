import Micro86.Proofs.InstructionSet.Loaded
import Micro86.Proofs.Program.Grammar
import Micro86.Proofs.Program.Symbols

/-!
The reading of programs against their grammar. Between two statements the state holds just
the program so far, so one statement is read at a time: a valid one with new names is added
to the program, and a reading that comes to its end has passed over a valid statement first.
-/
namespace Micro86.Grammar
open ParseState

variable {isa : InstructionSet}

/-- The names that a statement declares are not yet names of the program. -/
structure Statement.FreshFor (s : Statement) (p : Program) : Prop where
  label : ∀ l, s.label = some l → p.hasLabel l.1 = false
  var : ∀ v, s.body.var? = some v → p.hasVariable v.1 = false

/-! ### Parts of a statement -/

theorem takeLabel_eq_ok {p : Program} {t : Token} {name : String} {s : ParseState} :
    takeLabel isa p t name = .ok s ↔
      isa.isName name ∧ p.hasLabel name = false ∧ s = ⟨.labelled name t,p.addLabel name⟩ := by
  cases hname : isa.isName name <;> cases hnew : p.hasLabel name <;>
    simp [takeLabel,hname,hnew,eq_comm]

theorem takeName_eq_ok {p : Program} {t : Token} {s : ParseState} :
    takeName isa p t = .ok s ↔
      isa.isName t.value ∧ p.hasVariable t.value = false ∧ s = ⟨.value t,p⟩ := by
  cases hname : isa.isName t.value <;> cases hnew : p.hasVariable t.value <;>
    simp [takeName,hname,hnew,eq_comm]

theorem takeValue_eq_ok {p : Program} {name t : Token} {s : ParseState} :
    takeValue p name t = .ok s ↔
      ∃ v, (Text.readLiteral t.value.toList = .ok (some v) ∧
        -0x80000000 ≤ v ∧ v ≤ 0x7FFFFFFF) ∧ s = ⟨.statement,p.addVariable name.value v⟩ := by
  unfold takeValue
  split
  · next h => simp [h]
  · next h => simp [h]
  · next v h =>
    split_ifs with hrange
    · simp only [h,false_iff]
      rintro ⟨w,⟨hw,hlo,hhi⟩,-⟩
      cases hw
      omega
    · simp only [h,Except.ok.injEq,Option.some.injEq]
      constructor
      · rintro rfl
        exact ⟨v,⟨rfl,by omega,by omega⟩,rfl⟩
      · rintro ⟨w,⟨rfl,-⟩,rfl⟩
        rfl

/-! ### One statement -/

/-- A valid body with a new name is read as what it adds. -/
theorem Body.Valid.read (hk : isa.byMnemonic? InstructionSet.keyword = none) {p : Program}
    {b : Body} (hb : b.Valid isa) (hnew : ∀ v, b.var? = some v → p.hasVariable v.1 = false) :
    ∃ mid, open? isa p b.head = some mid ∧
      b.tail.foldlM (step isa) mid = .ok ⟨.statement,b.addTo p⟩ := by
  cases b with
  | instruction head entry operand =>
    obtain ⟨he,ho⟩ := hb
    cases operand with
    | none =>
      refine ⟨⟨.statement,_⟩,?_,rfl⟩
      simp only [open?,Body.head,he,← ho]
      rfl
    | some t =>
      refine ⟨⟨.operand head entry,p⟩,?_,rfl⟩
      simp [open?,Body.head,he,← ho]
  | declaration head name literal value =>
    obtain ⟨hkey,hname,hliteral⟩ := hb
    have htake := takeName_eq_ok.mpr ⟨hname,hnew (name.value,value) rfl,rfl⟩
    have hvalue : takeValue p name literal = .ok ⟨.statement,p.addVariable name.value value⟩ :=
      takeValue_eq_ok.mpr ⟨value,hliteral,rfl⟩
    refine ⟨⟨.name head,p⟩,by simp [open?,Body.head,hkey,hk],?_⟩
    simp [Body.tail,step,htake,hvalue,Body.addTo]

/-- What follows the first token of a body, up to the next point between statements. -/
theorem body_of_read {p q : Program} {t : Token} {rest : List Token} {mid : ParseState}
    (hopen : open? isa p t = some mid)
    (h : rest.foldlM (step isa) mid = .ok ⟨.statement,q⟩) :
    ∃ (b : Body) (more : List Token), b.head = t ∧ rest = b.tail ++ more ∧ b.Valid isa ∧
      (∀ v, b.var? = some v → p.hasVariable v.1 = false) ∧
      more.foldlM (step isa) ⟨.statement,b.addTo p⟩ = .ok ⟨.statement,q⟩ := by
  unfold open? at hopen
  split at hopen
  · next e he =>
    split at hopen
    · next ho =>
      obtain rfl := Option.some.inj hopen
      cases rest with
      | nil => simp at h
      | cons x more =>
        exact ⟨.instruction t e (some x),more,rfl,rfl,⟨he,by simp [ho]⟩,by simp [Body.var?],h⟩
    · next ho =>
      obtain rfl := Option.some.inj hopen
      exact ⟨.instruction t e none,rest,rfl,rfl,⟨he,by simp [ho]⟩,by simp [Body.var?],h⟩
  · split at hopen
    · next hkey =>
      obtain rfl := Option.some.inj hopen
      cases rest with
      | nil => simp at h
      | cons name rest =>
        obtain ⟨s,hs,h⟩ := foldlM_cons_eq_ok.mp h
        obtain ⟨hname,hnew,rfl⟩ := takeName_eq_ok.mp hs
        cases rest with
        | nil => simp at h
        | cons literal more =>
          obtain ⟨s,hs,h⟩ := foldlM_cons_eq_ok.mp h
          obtain ⟨v,hliteral,rfl⟩ := takeValue_eq_ok.mp hs
          exact ⟨.declaration t name literal v,more,rfl,rfl,⟨hkey,hname,hliteral⟩,
            by simpa [Body.var?] using hnew,h⟩
    · simp at hopen

theorem Statement.Valid.read (hk : isa.byMnemonic? InstructionSet.keyword = none) {p : Program}
    {s : Statement} (hs : s.Valid isa) (hnew : s.FreshFor p) :
    s.tokens.foldlM (step isa) ⟨.statement,p⟩ = .ok ⟨.statement,s.addTo p⟩ := by
  obtain ⟨label,b⟩ := s
  obtain ⟨hb,hl⟩ := hs
  cases label with
  | none =>
    obtain ⟨mid,hopen,hread⟩ := hb.read hk hnew.var
    have hfirst : step isa ⟨.statement,p⟩ b.head = .ok mid := by
      simp [step,label?_eq_none_iff.mpr hl,hopen]
    simp [Statement.tokens,Body.tokens,hfirst,hread,Statement.addTo]
  | some l =>
    -- A label declares no variable, so the names are as new behind it as in front of it.
    have hvar : ∀ v, b.var? = some v → (p.addLabel l.1).hasVariable v.1 = false := hnew.var
    obtain ⟨mid,hopen,hread⟩ := hb.read hk hvar
    have hlabel := takeLabel_eq_ok (t := labelToken l).mpr ⟨hl,hnew.label l rfl,rfl⟩
    have hfirst : step isa ⟨.statement,p⟩ (labelToken l) =
        .ok ⟨.labelled l.1 (labelToken l),p.addLabel l.1⟩ := by
      simp [step,label?_labelToken,hlabel]
    have hsecond : step isa ⟨.labelled l.1 (labelToken l),p.addLabel l.1⟩ b.head = .ok mid := by
      simp [step,hopen]
    simp [Statement.tokens,Body.tokens,hfirst,hsecond,hread,Statement.addTo]

/-- A reading that comes to its end has passed over a valid statement with new names. -/
theorem statement_of_read {p q : Program} {t : Token} {rest : List Token}
    (h : (t :: rest).foldlM (step isa) ⟨.statement,p⟩ = .ok ⟨.statement,q⟩) :
    ∃ (s : Statement) (more : List Token), t :: rest = s.tokens ++ more ∧ s.Valid isa ∧
      s.FreshFor p ∧ more.foldlM (step isa) ⟨.statement,s.addTo p⟩ = .ok ⟨.statement,q⟩ := by
  obtain ⟨mid,hstep,h⟩ := foldlM_cons_eq_ok.mp h
  simp only [step] at hstep
  split at hstep
  · next name hlabel =>
    -- A label: the token behind it has to open a body.
    obtain ⟨hname,hnew,rfl⟩ := takeLabel_eq_ok.mp hstep
    have htoken : labelToken (name,t.line) = t := by
      rw [labelToken,← label?_eq_some_iff.mp hlabel]
    cases rest with
    | nil => simp at h
    | cons u rest =>
      obtain ⟨mid,hstep,h⟩ := foldlM_cons_eq_ok.mp h
      simp only [step] at hstep
      split at hstep
      · next next hopen =>
        cases hstep
        obtain ⟨b,more,rfl,rfl,hb,hvar,hmore⟩ := body_of_read hopen h
        refine ⟨⟨some (name,t.line),b⟩,more,?_,⟨hb,hname⟩,⟨by simpa using hnew,hvar⟩,hmore⟩
        simp [Statement.tokens,Body.tokens,htoken]
      · simp at hstep
  · next hlabel =>
    split at hstep
    · next next hopen =>
      cases hstep
      obtain ⟨b,more,rfl,rfl,hb,hvar,hmore⟩ := body_of_read hopen h
      exact ⟨⟨none,b⟩,more,rfl,⟨hb,label?_eq_none_iff.mp hlabel⟩,⟨by simp,hvar⟩,hmore⟩
    · simp at hstep

/-! ### Many statements -/

/-- Every statement declares names that are new where it stands. -/
def AllFresh : Program → List Statement → Prop
  | _,[] => True
  | p,s :: ss => s.FreshFor p ∧ AllFresh (s.addTo p) ss

theorem hasLabel_addTo (p : Program) (s : Statement) (name : String) :
    (s.addTo p).hasLabel name = (p.hasLabel name || (s.label.map Prod.fst) == some name) := by
  obtain ⟨label,b⟩ := s
  cases label <;> cases b <;>
    simp [Statement.addTo,Body.addTo,Program.addLabel,Program.addInstruction,
      Program.addVariable,Program.hasLabel,beq_eq_decide]

theorem hasVariable_addTo (p : Program) (s : Statement) (name : String) :
    (s.addTo p).hasVariable name =
      (p.hasVariable name || (s.body.var?.map Prod.fst) == some name) := by
  obtain ⟨label,b⟩ := s
  cases label <;> cases b <;>
    simp [Statement.addTo,Body.addTo,Program.addLabel,Program.addInstruction,
      Program.addVariable,Program.hasVariable,Body.var?,beq_eq_decide]

/-- New where they stand are just the names that are declared once and not before. -/
theorem allFresh_iff {p : Program} {ss : List Statement} :
    AllFresh p ss ↔ Distinct ss ∧ (∀ n ∈ labelNames ss, p.hasLabel n = false) ∧
      ∀ n ∈ varNames ss, p.hasVariable n = false := by
  induction ss generalizing p with
  | nil => simp [AllFresh,Distinct,labelNames,varNames,vars]
  | cons s ss ih =>
    have hlabels : labelNames (s :: ss) = (s.label.map Prod.fst).toList ++ labelNames ss := by
      cases h : s.label <;> simp [labelNames,h]
    have hvars : varNames (s :: ss) = (s.body.var?.map Prod.fst).toList ++ varNames ss := by
      cases h : s.body.var? <;> simp [varNames,vars,h]
    have hfresh : s.FreshFor p ↔ (∀ n ∈ s.label.map Prod.fst, p.hasLabel n = false) ∧
        ∀ n ∈ s.body.var?.map Prod.fst, p.hasVariable n = false := by
      simp only [Option.mem_def,Option.map_eq_some_iff,forall_exists_index,and_imp,
        forall_apply_eq_imp_iff₂]
      exact ⟨fun h => ⟨h.label,h.var⟩,fun h => ⟨h.1,h.2⟩⟩
    simp only [AllFresh,ih,Distinct,hlabels,hvars,hfresh,hasLabel_addTo,hasVariable_addTo]
    cases s.label.map Prod.fst <;> cases s.body.var?.map Prod.fst <;> grind

theorem read_of_allFresh (hk : isa.byMnemonic? InstructionSet.keyword = none) {p : Program}
    {ss : List Statement} (hv : ∀ s ∈ ss, s.Valid isa) (hf : AllFresh p ss) :
    (ss.flatMap Statement.tokens).foldlM (step isa) ⟨.statement,p⟩ =
      .ok ⟨.statement,ss.foldl Statement.addTo p⟩ := by
  induction ss generalizing p with
  | nil => rfl
  | cons s ss ih =>
    obtain ⟨hs,hf⟩ := hf
    rw [List.flatMap_cons,List.foldlM_append,(hv s (by simp)).read hk hs,ok_bind,
      ih (fun t ht => hv t (by simp [ht])) hf,List.foldl_cons]

theorem statements_of_read {p q : Program} (tokens : List Token)
    (h : tokens.foldlM (step isa) ⟨.statement,p⟩ = .ok ⟨.statement,q⟩) :
    ∃ ss, Derives isa ss tokens ∧ AllFresh p ss ∧ q = ss.foldl Statement.addTo p := by
  match tokens with
  | [] =>
    cases h
    exact ⟨[],⟨by simp,rfl⟩,trivial,rfl⟩
  | t :: rest =>
    obtain ⟨s,more,htokens,hs,hnew,hmore⟩ := statement_of_read h
    have hshorter : more.length < (t :: rest).length := by
      rw [htokens]
      simp only [Statement.tokens,Body.tokens,List.length_append,List.length_cons]
      omega
    obtain ⟨ss,⟨hv,hss⟩,hf,hq⟩ := statements_of_read more hmore
    refine ⟨s :: ss,⟨?_,by rw [htokens,List.flatMap_cons,hss]⟩,⟨hnew,hf⟩,hq⟩
    simpa using ⟨hs,hv⟩
termination_by tokens.length
decreasing_by exact hshorter

theorem finish_eq_ok {s : ParseState} {p : Program} :
    s.finish = .ok p ↔ s = ⟨.statement,p⟩ := by
  obtain ⟨phase,q⟩ := s
  cases phase <;> simp [finish]

/-- A program is read from just the tokens that statements with distinct names derive, and
it is the one that they denote. -/
theorem parse_eq_ok (hk : isa.byMnemonic? InstructionSet.keyword = none) {tokens : List Token}
    {p : Program} : Program.parse isa tokens = .ok p ↔
      ∃ ss, Derives isa ss tokens ∧ Distinct ss ∧ p = program ss := by
  have hstart : ∀ ss, AllFresh {} ss ↔ Distinct ss := by
    intro ss
    simp [allFresh_iff,Program.hasLabel,Program.hasVariable]
  constructor
  · intro h
    obtain ⟨s,hs,hp⟩ := bind_eq_ok.mp h
    obtain rfl := finish_eq_ok.mp hp
    obtain ⟨ss,hd,hf,rfl⟩ := statements_of_read tokens hs
    exact ⟨ss,hd,(hstart ss).mp hf,(program_eq_foldl ss).symm⟩
  · rintro ⟨ss,⟨hv,rfl⟩,hd,rfl⟩
    have hread := read_of_allFresh hk hv ((hstart ss).mpr hd)
    rw [← program_eq_foldl] at hread
    exact bind_eq_ok.mpr ⟨_,hread,rfl⟩

/-! ### The tables of a denoted program -/

theorem mem_labels_program {ss : List Statement} {l : String × Nat} :
    l ∈ (program ss).labels ↔ ∃ i, labelAt? ss i = some l := by
  simp only [program,List.mem_flatMap,List.mem_range,Option.mem_toList]
  constructor
  · rintro ⟨i,-,hi⟩
    exact ⟨i,hi⟩
  · rintro ⟨i,hi⟩
    refine ⟨i,?_,hi⟩
    by_contra hlen
    simp [labelAt?,List.getElem?_eq_none (Nat.le_of_not_lt hlen)] at hi

theorem labels_program_names (ss : List Statement) :
    (program ss).labels.map Prod.fst = labelNames ss := by
  induction ss using List.reverseRecOn with
  | nil => rfl
  | append_singleton ss s ih =>
    obtain ⟨label,b⟩ := s
    rw [program_concat]
    cases label <;> cases b <;>
      simpa [Statement.addTo,Body.addTo,Program.addLabel,Program.addInstruction,
        Program.addVariable,labelNames] using ih

/-- Reading accepts exactly what the grammar derives with distinct names; the statements are
determined by the tokens; and the program has their instructions in order, every label at the
number of instructions before it, and every variable with its value and its ordinal. -/
theorem parse_accepts_grammar {source : String} {text : List Char}
    (hisa : InstructionSet.parse source text = .ok isa) (tokens : List Token) :
    ((∃ p, Program.parse isa tokens = .ok p) ↔
      ∃ ss, Derives isa ss tokens ∧ Distinct ss) ∧
    (∀ ss ts, Derives isa ss tokens → Derives isa ts tokens → ss = ts) ∧
    ∀ p ss, Program.parse isa tokens = .ok p → Derives isa ss tokens →
      p = program ss ∧
      (∀ i name position, labelAt? ss i = some (name,position) →
        p.label? name = some position) ∧
      ∀ k name value, (vars ss)[k]? = some (name,value) →
        p.vars.lookup name = some value ∧ p.ordinal? name = some (k+1) := by
  have hk := InstructionSet.byMnemonic?_keyword hisa
  refine ⟨?_,fun ss ts hs ht => hs.unique hk ht,?_⟩
  · constructor
    · rintro ⟨p,hp⟩
      obtain ⟨ss,hd,hdis,-⟩ := (parse_eq_ok hk).mp hp
      exact ⟨ss,hd,hdis⟩
    · rintro ⟨ss,hd,hdis⟩
      exact ⟨program ss,(parse_eq_ok hk).mpr ⟨ss,hd,hdis,rfl⟩⟩
  · intro p ss hp hss
    obtain ⟨ts,hd,⟨hlabels,hvars⟩,rfl⟩ := (parse_eq_ok hk).mp hp
    obtain rfl := hss.unique hk hd
    refine ⟨rfl,?_,?_⟩
    · intro i name position hi
      rw [← labels_program_names] at hlabels
      exact (Program.label?_eq_some hlabels).mpr (mem_labels_program.mpr ⟨i,hi⟩)
    · intro k name value hv
      refine ⟨?_,(Program.ordinal?_eq_some (p := program ss) hvars).mpr ⟨k,value,hv,rfl⟩⟩
      exact (lookup_eq_some hvars).mpr (List.mem_of_getElem? hv)

/-- An operand may look like a label: it is taken as it stands. -/
theorem parse_accepts_operand_like_label :
    let jump : Entry := ⟨"J",1,true,true,some .jmp,1⟩
    let isa : InstructionSet := ⟨"set",[jump]⟩
    let tokens : List Token := [⟨"x:",1⟩,⟨"J",1⟩,⟨"x:",2⟩]
    InstructionSet.parse "set" "1 = J o i @jmp".toList = .ok isa ∧
    ∃ p, Program.parse isa tokens = .ok p ∧
      p = program [⟨some ("x",1),.instruction ⟨"J",1⟩ jump (some ⟨"x:",2⟩)⟩] ∧
      p.label? "x" = some 0 := by
  intro jump isa tokens
  have hisa : InstructionSet.parse "set" "1 = J o i @jmp".toList = .ok isa := by
    simp only [String.reduceToList]
    decide +kernel
  have hderives : Derives isa
      [⟨some ("x",1),.instruction ⟨"J",1⟩ jump (some ⟨"x:",2⟩)⟩] tokens := by
    refine ⟨?_,rfl⟩
    intro s hs
    obtain rfl := List.mem_singleton.mp hs
    exact ⟨⟨by decide,rfl⟩,by decide +kernel⟩
  obtain ⟨haccepts,-,hdenotes⟩ := parse_accepts_grammar hisa tokens
  obtain ⟨p,hp⟩ := haccepts.mpr ⟨_,hderives,by decide,by decide⟩
  obtain ⟨hprogram,hlabel,-⟩ := hdenotes p _ hp hderives
  exact ⟨hisa,p,hp,hprogram,hlabel 0 "x" 0 rfl⟩

end Micro86.Grammar
