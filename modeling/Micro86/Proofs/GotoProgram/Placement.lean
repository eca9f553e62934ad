import Micro86.Proofs.GotoProgram.Naming
import Micro86.Proofs.InstructionSet.Loaded

/-!
Labels and jumps in the text of a compiled program. Both are taken from the words of the text:
labels from the fronts of its lines, jumps from the word that follows a `goto`. No label stands
twice, every jump has its label, and a label stands in front of the statements of its position.
-/
namespace Micro86

/-- The statements of a role in C++, for an operand as it is written there. -/
def Role.phrases (x : String) : Role → List String
  | halt => ["exit(0);"]
  | load => ["_acc = " ++ x ++ ";"]
  | store => [x ++ " = _acc;"]
  | add => ["_acc += " ++ x ++ ";"]
  | sub => ["_acc -= " ++ x ++ ";"]
  | mul => ["_acc *= " ++ x ++ ";"]
  | div => ["_acc /= " ++ x ++ ";"]
  | mod => ["_acc %= " ++ x ++ ";"]
  | cmp => ["_cmp = _acc - " ++ x ++ ";"]
  | jmp => ["goto " ++ x ++ ";"]
  | je => ["if (_cmp == 0) goto " ++ x ++ ";"]
  | jne => ["if (_cmp != 0) goto " ++ x ++ ";"]
  | jl => ["if (_cmp < 0) goto " ++ x ++ ";"]
  | jle => ["if (_cmp <= 0) goto " ++ x ++ ";"]
  | jg => ["if (_cmp > 0) goto " ++ x ++ ";"]
  | jge => ["if (_cmp >= 0) goto " ++ x ++ ";"]
  | input => ["cin >> _byte;","_acc = (int) _byte;"]
  | output => ["cout << (char) _acc;"]

namespace GotoProgram

variable {isa reader : InstructionSet} {p : Program} {code : List ResolvedInstruction}
variable {numeric : List Int} {g : GotoProgram} {r : ResolvedInstruction} {role : Role}

/-! ### Statements as they are written -/

/-- An operand as it is written: the name of a variable or of the place that is jumped to, and
otherwise a number. -/
def written (r : ResolvedInstruction) (role : Role) : String :=
  r.operand.elim "" fun o =>
    if o.kind = .storage then o.text
    else if role.isJump = false then Text.decimal o.value
    else if o.kind = .label then o.text
    else positionLabel o.value

/-- The lines of an instruction. -/
def phrases (r : ResolvedInstruction) : List String :=
  r.role.elim [] fun role => role.phrases (written r role)

/-- Labels in front of the first of several lines. -/
def block (labels : List String) (ls : List String) : List String :=
  (ls.head?.map (labelled labels)).toList ++ ls.tail

theorem valueOperand_written (hjump : role.isJump = false) {e : Expr}
    (h : valueOperand r role = .ok e) : e.render = written r role := by
  obtain ⟨o,ho,h⟩ := bind_eq_ok.mp h
  split at h
  all_goals
    next hkind =>
    cases h
    simp [written,someOperand_eq_ok ho,hkind,hjump,Expr.render]

theorem storageOperand_written {name : String} (h : storageOperand r role = .ok name) :
    name = written r role := by
  obtain ⟨o,ho,h⟩ := bind_eq_ok.mp h
  split at h
  · next hkind =>
    cases h
    simp [written,someOperand_eq_ok ho,hkind]
  all_goals simp at h

theorem targetOperand_written (hjump : role.isJump = true) {label : String}
    (h : targetOperand r role = .ok label) : label = written r role := by
  obtain ⟨o,ho,h⟩ := bind_eq_ok.mp h
  split at h
  · next hkind =>
    cases h
    simp [written,someOperand_eq_ok ho,hkind,hjump]
  · next hkind =>
    cases h
    simp [written,someOperand_eq_ok ho,hkind,hjump]
  · simp at h

theorem statements_render {b : List Statement} (h : statements r role = .ok b) :
    b.map Statement.render = role.phrases (written r role) := by
  cases role with
  | halt | output | input =>
    obtain ⟨⟨⟩,-,h⟩ := bind_eq_ok.mp h
    cases h
    rfl
  | store =>
    obtain ⟨name,hname,h⟩ := bind_eq_ok.mp h
    cases h
    rw [← storageOperand_written hname]
    simp [Statement.render_eq_unwords,Statement.words,Role.phrases,Text.unwords,
      List.intercalate_cons_cons]
  | load | add | sub | mul | div | mod | cmp =>
    obtain ⟨e,he,h⟩ := bind_eq_ok.mp h
    cases h
    rw [← valueOperand_written rfl he]
    simp [Statement.render_eq_unwords,Statement.words,Role.phrases,Text.unwords,Operator.render,
      List.intercalate_cons_cons,← String.toList_inj]
  | jmp | je | jne | jl | jle | jg | jge =>
    obtain ⟨label,hlabel,h⟩ := bind_eq_ok.mp h
    cases h
    rw [← targetOperand_written rfl hlabel]
    simp [Statement.render_eq_unwords,Statement.words,Role.phrases,Text.unwords,Test.render,
      List.intercalate_cons_cons,← String.toList_inj]

theorem Operation.lines_eq_block (o : Operation) :
    o.lines = block o.labels (o.statements.map Statement.render) := by
  obtain ⟨labels,statements⟩ := o
  cases statements <;> rfl

/-- Every instruction gives its lines, in the order of the code. -/
theorem Compiled.operation_lines (hc : Compiled p code numeric g) :
    g.operations.flatMap Operation.lines =
      code.zipIdx.flatMap fun i => block (labelsAt p numeric i.2) (phrases i.1) := by
  rw [List.flatMap_def,List.flatMap_def]
  congr 1
  apply List.ext_getElem?
  intro i
  cases hr : code[i]? with
  | none =>
    have hlength : g.operations.length ≤ i := by
      rw [hc.length,← hc.code_length]
      exact List.getElem?_eq_none_iff.mp hr
    simp [hr,List.getElem?_eq_none_iff.mpr hlength]
  | some r =>
    obtain ⟨role,b,hrole,hb,ho⟩ := hc.operation i r hr
    simp [hr,ho,Operation.lines_eq_block,statements_render hb,phrases,hrole]

/-! ### Labels at the fronts of lines -/

/-- The labels at the fronts of the lines of a text. -/
def emittedLabels (text : String) : List String :=
  (codeLines text).flatMap fun ws => (splitLabels ws).1

def Line.labels : Line → List String
  | declaration _ _ => []
  | statement labels _ => labels

theorem Line.splitLabels_words {l : Line} (h : l.Named) : (splitLabels l.words).1 = l.labels := by
  cases l with
  | declaration name value => rfl
  | statement labels s =>
    obtain ⟨w,rest,hwords,hcolon,-⟩ := Statement.head_words h.2
    have hsplit : splitLabels (labels.map (· ++ ":") ++ s.words) = (labels,s.words) :=
      splitLabels_append (by simpa [hwords] using hcolon)
    rw [Line.words,hsplit]
    rfl

theorem Operation.labels_code {o : Operation} (h : o.Shaped) :
    o.code.flatMap Line.labels = o.labels := by
  obtain ⟨labels,statements⟩ := o
  obtain ⟨s,rfl,-⟩ | rfl := h <;> simp [Operation.code,Line.labels]

theorem emittedLabels_render (hnamed : ∀ l ∈ g.code, l.Named)
    (hshaped : ∀ o ∈ g.operations, o.Shaped) : emittedLabels g.render = g.labelSets.flatten := by
  have hheading : heading.flatMap (fun ws => (splitLabels ws).1) = [] := by decide +kernel
  have hcode : (g.code.map Line.words).flatMap (fun ws => (splitLabels ws).1) =
      g.code.flatMap Line.labels := by
    rw [List.flatMap_map]
    exact List.flatMap_congr fun l hl => Line.splitLabels_words (hnamed l hl)
  have hoperations : (g.operations.flatMap Operation.code).flatMap Line.labels =
      g.operations.flatMap Operation.labels := by
    rw [List.flatMap_assoc]
    exact List.flatMap_congr fun o ho => Operation.labels_code (hshaped o ho)
  rw [emittedLabels,codeLines_render hnamed,List.flatMap_append,List.flatMap_append,hheading,
    hcode,GotoProgram.code,List.flatMap_append,List.flatMap_append,hoperations]
  simp [labelSets,Line.labels,splitLabels,before?,List.flatMap_def]

theorem Compiled.labelSets_eq (hc : Compiled p code numeric g) :
    g.labelSets = (List.range (p.instructions.length+1)).map (labelsAt p numeric) := by
  apply List.ext_getElem
  · simp [labelSets,hc.length]
  · intro i _ hi
    have hle : i ≤ p.instructions.length := by
      simp only [List.length_map,List.length_range] at hi
      omega
    have hsome := hc.labelSets_getElem? hle
    rw [(List.getElem?_eq_some_iff.mp hsome).2]
    simp

/-- The labels of one position are distinct. -/
theorem nodup_labelsAt (hn : (p.labels.map Prod.fst).Nodup) (position : Nat) :
    (labelsAt p numeric position).Nodup := by
  have hdeclared : (p.labelsAt position).Nodup := hn.sublist (List.filter_sublist.map Prod.fst)
  unfold labelsAt
  dsimp only
  split
  · next hown =>
    simp only [Bool.and_eq_true,Bool.not_eq_true',List.contains_eq_mem,
      decide_eq_false_iff_not] at hown
    rw [← List.concat_eq_append]
    exact hdeclared.concat hown.2
  · exact hdeclared

/-- No label stands in front of two positions. -/
theorem nodup_flatMap_labelsAt (hnames : checkNames p = .ok ())
    (hn : (p.labels.map Prod.fst).Nodup) (count : Nat) :
    ((List.range count).flatMap (labelsAt p numeric)).Nodup := by
  refine List.nodup_flatMap.mpr ⟨fun i _ => nodup_labelsAt hn i,?_⟩
  refine List.nodup_range.imp ?_
  intro i j hij name hi hj
  -- a declared label has the form of another position's own one only if the check of names failed
  have hname : NameOf p numeric name i :=
    (mem_labelsAt.mp hi).imp_left (Program.label?_eq_some hn).mpr
  exact hij ((hname.mem_labelsAt_iff hnames hn).mp hj).symm

/-! ### Jumps -/

/-- The words that follow a `goto`, without the mark that ends a statement. -/
def gotoNames : List String → List String
  | [] => []
  | word :: rest =>
    (if word = "goto" then (rest.head?.map fun w => (before? ';' w).getD w).toList else []) ++
      gotoNames rest

/-- The labels that the lines of a text jump to. -/
def jumpedTo (text : String) : List String := (codeLines text).flatMap gotoNames

def Statement.target? : Statement → Option String
  | jump label | branch _ label => some label
  | _ => none

theorem append_semicolon_ne (word : String) : word ++ ";" ≠ "goto" := by
  intro heq
  have hsome := before?_semicolon word
  rw [heq] at hsome
  exact absurd hsome (by simp [before?])

theorem gotoNames_append {ws : List String} (h : "goto" ∉ ws) (rest : List String) :
    gotoNames (ws ++ rest) = gotoNames rest := by
  induction ws with
  | nil => rfl
  | cons word ws ih =>
    simp only [List.mem_cons,not_or] at h
    obtain ⟨hword,hws⟩ := h
    simp [gotoNames,Ne.symm hword,ih hws]

theorem Statement.gotoNames_words {s : Statement} (h : s.Named) :
    gotoNames s.words = s.target?.toList := by
  cases s with
  | exit code =>
    obtain rfl | rfl := h <;> decide +kernel
  | store name =>
    have hname : name ≠ "goto" := by
      rintro rfl
      exact h.2.1 (by decide)
    simp [gotoNames,Statement.words,Statement.target?,hname]
  | compute op e =>
    have hop : op.render ++ "=" ≠ "goto" := by cases op <;> decide
    simp [gotoNames,Statement.words,Statement.target?,append_semicolon_ne,hop]
  | branch test label =>
    have htest : test.render ≠ "goto" := by cases test <;> decide
    simp [gotoNames,Statement.words,Statement.target?,append_semicolon_ne,before?_semicolon,htest]
  | load | compare | jump =>
    simp [gotoNames,Statement.words,Statement.target?,append_semicolon_ne,before?_semicolon]
  | readByte | takeByte | writeChar => rfl

theorem Line.gotoNames_words {labels : List String} {s : Statement} (h : s.Named) :
    gotoNames (Line.statement labels s).words = s.target?.toList := by
  have hlabels : "goto" ∉ labels.map (· ++ ":") := by
    intro hmem
    obtain ⟨label,-,hlabel⟩ := List.mem_map.mp hmem
    exact append_colon_ne (by decide) label hlabel
  rw [Line.words,gotoNames_append hlabels,Statement.gotoNames_words h]

theorem Operation.mem_code {o : Operation} {l : Line} (h : l ∈ o.code) :
    ∃ labels, ∃ s ∈ o.statements, l = .statement labels s := by
  obtain ⟨labels,statements⟩ := o
  cases statements with
  | nil => simp [Operation.code] at h
  | cons first rest =>
    obtain rfl | h := List.mem_cons.mp h
    · exact ⟨labels,first,List.mem_cons_self,rfl⟩
    · obtain ⟨s,hs,rfl⟩ := List.mem_map.mp h
      exact ⟨[],s,List.mem_cons_of_mem first hs,rfl⟩

/-- Only the statements of operations jump. -/
theorem mem_jumpedTo_render (hnamed : ∀ l ∈ g.code, l.Named)
    (hvars : ∀ v ∈ g.declarations, v.1 ≠ "goto") {name : String}
    (h : name ∈ jumpedTo g.render) :
    ∃ o ∈ g.operations, ∃ s ∈ o.statements, s.target? = some name := by
  have hheading : heading.flatMap gotoNames = [] := by decide +kernel
  have hclose : [["\x7d"]].flatMap gotoNames = [] := by decide +kernel
  rw [jumpedTo,codeLines_render hnamed,List.flatMap_append,List.flatMap_append,hheading,hclose,
    List.nil_append,List.append_nil] at h
  obtain ⟨ws,hws,hname⟩ := List.mem_flatMap.mp h
  obtain ⟨l,hl,rfl⟩ := List.mem_map.mp hws
  have hl' := hnamed l hl
  -- a declaration, an operation, or the exit behind the last operation
  simp only [GotoProgram.code,List.mem_append,List.mem_singleton] at hl
  obtain (hl | hl) | rfl := hl
  · obtain ⟨v,hv,rfl⟩ := List.mem_map.mp hl
    simp [gotoNames,Line.words,hvars v hv,append_semicolon_ne] at hname
  · obtain ⟨o,ho,hl⟩ := List.mem_flatMap.mp hl
    obtain ⟨labels,s,hs,rfl⟩ := Operation.mem_code hl
    rw [Line.gotoNames_words hl'.2] at hname
    exact ⟨o,ho,s,hs,by simpa using hname⟩
  · rw [Line.gotoNames_words hl'.2] at hname
    simp [Statement.target?] at hname

theorem targetOperand_of_target? {b : List Statement} (h : statements r role = .ok b)
    {s : Statement} (hs : s ∈ b) {name : String} (hname : s.target? = some name) :
    role.isJump = true ∧ targetOperand r role = .ok name := by
  cases role with
  | input =>
    obtain ⟨⟨⟩,-,h⟩ := bind_eq_ok.mp h
    cases h
    obtain rfl | rfl : s = .readByte ∨ s = .takeByte := by simpa using hs
    all_goals cases hname
  | halt | output | store | load | add | sub | mul | div | mod | cmp =>
    obtain ⟨x,-,h⟩ := bind_eq_ok.mp h
    cases h
    obtain rfl := List.mem_singleton.mp hs
    cases hname
  | jmp | je | jne | jl | jle | jg | jge =>
    obtain ⟨label,hlabel,h⟩ := bind_eq_ok.mp h
    cases h
    obtain rfl := List.mem_singleton.mp hs
    cases hname
    exact ⟨rfl,hlabel⟩

theorem numericTarget?_eq_some {n : Int} : numericTarget? (r,role) = some n ↔
    role.isJump = true ∧ ∃ o, r.operand = some o ∧ o.kind = .literal ∧ o.value = n := by
  unfold numericTarget?
  cases r.operand <;> simp [and_assoc]

/-! ### Compiled programs -/

namespace Compiled

variable (hc : Compiled p code numeric g) (hcode : p.resolve isa = .ok code)

section Positions
variable (hp : p.WellFormed reader) (hr : r ∈ code)
include hc hcode hp hr

/-- A number that is jumped to is a position in the code or its end, with a label of its own. -/
theorem mem_numeric (hjump : r.role.any Role.isJump) {o : Operand} (ho : r.operand = some o)
    (hkind : o.kind = .literal) :
    ∃ n : Nat, o.value = n ∧ n ≤ p.instructions.length ∧ (n : Int) ∈ numeric := by
  obtain ⟨hlo,hhi⟩ := (Program.placed_of_resolve hp hcode hr ho).target hkind hjump
  obtain ⟨n,hn⟩ := Int.eq_ofNat_of_zero_le hlo
  obtain ⟨role,hrole,hjump⟩ := (Option.any_eq_true _ _).mp hjump
  refine ⟨n,hn,by omega,?_⟩
  exact (hc.numeric n).mpr ⟨r,hr,role,hrole,numericTarget?_eq_some.mpr ⟨hjump,o,ho,hkind,hn⟩⟩

/-- A jump has the name of a position in the code or of its end. -/
theorem nameOf_target (hrole : r.role = some role) (hjump : role.isJump = true) {label : String}
    (h : targetOperand r role = .ok label) :
    ∃ n ≤ p.instructions.length, NameOf p numeric label n := by
  obtain ⟨o,ho,h⟩ := bind_eq_ok.mp h
  have ho := someOperand_eq_ok ho
  split at h
  · next hkind =>
    cases h
    obtain ⟨n,hn,-,hle⟩ := (Program.placed_of_resolve hp hcode hr ho).label hkind
    exact ⟨n,hle,.inl hn⟩
  · next hkind =>
    cases h
    obtain ⟨n,hn,hle,hmem⟩ := hc.mem_numeric hcode hp hr (by simp [hrole,hjump]) ho hkind
    exact ⟨n,hle,.inr ⟨by rw [hn],hmem⟩⟩
  · simp at h

end Positions

variable (hplain : PlainNames p)
include hc hcode hplain

theorem emittedLabels_eq : emittedLabels g.render =
    (List.range (p.instructions.length+1)).flatMap (labelsAt p numeric) := by
  have hshaped : ∀ o ∈ g.operations, o.Shaped :=
    fun o ho => (hc.operation_named hcode hplain ho).2
  rw [emittedLabels_render (hc.code_named hcode hplain) hshaped,hc.labelSets_eq,List.flatMap_def]

theorem nodup_emittedLabels (hn : (p.labels.map Prod.fst).Nodup) :
    (emittedLabels g.render).Nodup := by
  rw [hc.emittedLabels_eq hcode hplain]
  exact nodup_flatMap_labelsAt hc.names hn _

/-- The name of a position stands in front of it, and nowhere else. -/
theorem count_of_nameOf (hn : (p.labels.map Prod.fst).Nodup) {name : String} {n : Nat}
    (hname : NameOf p numeric name n) (hle : n ≤ p.instructions.length) :
    name ∈ labelsAt p numeric n ∧ (emittedLabels g.render).count name = 1 := by
  have hfront := (hname.mem_labelsAt_iff hc.names hn).mpr rfl
  refine ⟨hfront,List.count_eq_one_of_mem (hc.nodup_emittedLabels hcode hplain hn) ?_⟩
  rw [hc.emittedLabels_eq hcode hplain]
  exact List.mem_flatMap.mpr ⟨n,List.mem_range.mpr (by omega),hfront⟩

/-- What is jumped to is the name of a position in the code or of its end. -/
theorem nameOf_of_mem_jumpedTo (hp : p.WellFormed reader) {name : String}
    (h : name ∈ jumpedTo g.render) : ∃ n ≤ p.instructions.length, NameOf p numeric name n := by
  have hvars : ∀ v ∈ g.declarations, v.1 ≠ "goto" := by
    rw [hc.declarations]
    intro v hv heq
    exact (fresh_of_checkNames hc.names hplain hv).2.1 (heq ▸ by decide)
  obtain ⟨o,ho,s,hs,htarget⟩ := mem_jumpedTo_render (hc.code_named hcode hplain) hvars h
  obtain ⟨i,hi⟩ := List.mem_iff_getElem?.mp ho
  obtain ⟨r,role,b,hr,hrole,hb,rfl⟩ := hc.instruction_of_operation hi
  obtain ⟨hjump,hoperand⟩ := targetOperand_of_target? hb hs htarget
  exact hc.nameOf_target hcode hp (List.mem_of_getElem? hr) hrole hjump hoperand

end Compiled

/-- The text of a compiled program, with the labels of every position. -/
theorem Compiled.render_eq (hc : Compiled p code numeric g) :
    g.render = Text.unlines (prologue ++ ["","// === Declarations ===",""] ++
      (p.vars.map fun v => "int " ++ v.1 ++ " = " ++ Text.decimal v.2 ++ ";") ++
      ["","// === Operations ===",""] ++
      (code.zipIdx.flatMap fun i => block (labelsAt p numeric i.2) (phrases i.1)) ++
      ["","// === HALT Bypassed ===","",
        labelled (labelsAt p numeric p.instructions.length) "exit(1);","\x7d"]) := by
  have hexit : (Statement.exit 1).render = "exit(1);" := by decide +kernel
  have hvars : (p.vars.map fun v => s!"int {v.1} = {Text.decimal v.2};") =
      p.vars.map fun v => "int " ++ v.1 ++ " = " ++ Text.decimal v.2 ++ ";" := by
    simp [Text.toString_string]
  rw [render,GotoProgram.lines,hc.operation_lines,hc.endLabels,hc.declarations,hexit,← hvars]

/-! ### The whole text -/

/-- The labels and jumps of a text for a program and its resolved instructions. The labels
`front i` stand in front of instruction `i`, and behind the last one in front of the exit. -/
structure WellLabelled (p : Program) (code : List ResolvedInstruction)
    (front : Nat → List String) (text : String) : Prop where
  /-- The instructions have the statements of their roles, in order, with labels in front. -/
  lines : text = Text.unlines (prologue ++ ["","// === Declarations ===",""] ++
    (p.vars.map fun v => "int " ++ v.1 ++ " = " ++ Text.decimal v.2 ++ ";") ++
    ["","// === Operations ===",""] ++
    (code.zipIdx.flatMap fun i => block (front i.2) (phrases i.1)) ++
    ["","// === HALT Bypassed ===","",labelled (front p.instructions.length) "exit(1);","\x7d"])
  role : ∀ r ∈ code, r.role.isSome
  labels : emittedLabels text = (List.range (p.instructions.length+1)).flatMap front
  nodup : (emittedLabels text).Nodup
  jump : ∀ name ∈ jumpedTo text, name ∈ emittedLabels text
  /-- A declared label stands at its position, and once. -/
  declared : ∀ l ∈ p.labels, l.2 ≤ p.instructions.length ∧ l.1 ∈ front l.2 ∧
    (emittedLabels text).count l.1 = 1
  /-- So does the label of a number that is jumped to. -/
  numeric : ∀ r ∈ code, r.role.any Role.isJump → ∀ o, r.operand = some o → o.kind = .literal →
    ∃ n : Nat, o.value = n ∧ n ≤ p.instructions.length ∧ positionLabel n ∈ front n ∧
      (emittedLabels text).count (positionLabel n) = 1
  /-- There are no other labels. -/
  only : ∀ i, ∀ name ∈ front i, (name,i) ∈ p.labels ∨ name = positionLabel i ∧
    ∃ r ∈ code, r.role.any Role.isJump ∧ ∃ o, r.operand = some o ∧ o.kind = .literal ∧ o.value = i

theorem Compiled.wellLabelled (hc : Compiled p code numeric g) (hp : p.WellFormed reader)
    (hcode : p.resolve isa = .ok code) (hplain : PlainNames p) :
    WellLabelled p code (labelsAt p numeric) g.render := by
  have hn := hp.labels_nodup
  constructor
  case lines => exact hc.render_eq
  case role =>
    intro r hr
    obtain ⟨i,hi⟩ := List.mem_iff_getElem?.mp hr
    obtain ⟨role,-,hrole,-⟩ := hc.operation i r hi
    simp [hrole]
  case labels => exact hc.emittedLabels_eq hcode hplain
  case nodup => exact hc.nodup_emittedLabels hcode hplain hn
  case jump =>
    intro name hname
    obtain ⟨n,hle,hname⟩ := hc.nameOf_of_mem_jumpedTo hcode hplain hp hname
    have hcount := (hc.count_of_nameOf hcode hplain hn hname hle).2
    exact List.count_pos_iff.mp (by omega)
  case declared =>
    intro l hl
    have hname : NameOf p numeric l.1 l.2 := .inl ((Program.label?_eq_some hn).mpr hl)
    have hle := hp.label_le l hl
    exact ⟨hle,hc.count_of_nameOf hcode hplain hn hname hle⟩
  case numeric =>
    intro r hr hjump o ho hkind
    obtain ⟨n,hvalue,hle,hmem⟩ := hc.mem_numeric hcode hp hr hjump ho hkind
    exact ⟨n,hvalue,hle,hc.count_of_nameOf hcode hplain hn (.inr ⟨rfl,hmem⟩) hle⟩
  case only =>
    intro i name hname
    refine (mem_labelsAt.mp hname).imp_right (And.imp_right ?_)
    intro hmem
    obtain ⟨r,hr,role,hrole,htarget⟩ := (hc.numeric i).mp hmem
    obtain ⟨hjump,hoperand⟩ := numericTarget?_eq_some.mp htarget
    exact ⟨r,hr,by simp [hrole,hjump],hoperand⟩

/-- A program that was read with one instruction set and compiled with another has a text in which
every jump has its label, and every label its place. -/
theorem wellLabelled_of_ofProgram {source : String} {descriptor marker text : List Char}
    (hisa : InstructionSet.parse source descriptor = .ok reader)
    (hparse : Program.parse reader (Source.tokens marker text) = .ok p)
    (hgoto : ofProgram isa p = .ok g) :
    ∃ code front, p.resolve isa = .ok code ∧ WellLabelled p code front g.render := by
  have hk := InstructionSet.byMnemonic?_keyword hisa
  obtain ⟨code,numeric,hcode,hc⟩ := compiled_of_ofProgram hgoto
  exact ⟨code,labelsAt p numeric,hcode,
    hc.wellLabelled (Program.wellFormed_of_parse hk hparse) hcode (plain_of_parse hk hparse)⟩

/-- Two names of the first position that differ in zeros, a number that is jumped to twice, and the
end of the code with a name that is also its number's and a variable's. -/
theorem wellLabelled_of_names_like_numbers :
    let text := "_L00: END GO 0 GO +0 GO 003 GO _L00 GO 6 _L6: VAR _L6 5".toList
    let reader : InstructionSet := ⟨"set",[⟨"GO",1,true,true,none,1⟩,⟨"END",2,false,false,none,2⟩]⟩
    let isa : InstructionSet :=
      ⟨"other",[⟨"JE",1,true,true,some .je,1⟩,⟨"IN",2,false,false,some .input,2⟩]⟩
    let p : Program := ⟨[⟨2,"END",none,1⟩,⟨1,"GO",some "0",1⟩,⟨1,"GO",some "+0",1⟩,
      ⟨1,"GO",some "003",1⟩,⟨1,"GO",some "_L00",1⟩,⟨1,"GO",some "6",1⟩],
      [("_L00",0),("_L6",6)],[("_L6",5)]⟩
    let g : GotoProgram := ⟨[("_L6",5)],[⟨["_L00","_L0"],[.readByte,.takeByte]⟩,
      ⟨[],[.branch .eq "_L0"]⟩,⟨[],[.branch .eq "_L0"]⟩,⟨["_L3"],[.branch .eq "_L3"]⟩,
      ⟨[],[.branch .eq "_L00"]⟩,⟨[],[.branch .eq "_L6"]⟩],["_L6"]⟩
    InstructionSet.parse "set" "1 = GO o i\n2 = END".toList = .ok reader ∧
    Program.parse reader (Source.tokens Source.comment text) = .ok p ∧
    ofProgram isa p = .ok g ∧
    ∃ code front, p.resolve isa = .ok code ∧ WellLabelled p code front g.render := by
  intro text reader isa p g
  have hisa : InstructionSet.parse "set" "1 = GO o i\n2 = END".toList = .ok reader := by
    decide +kernel
  have hparse : Program.parse reader (Source.tokens Source.comment text) = .ok p := by
    decide +kernel
  have hgoto : ofProgram isa p = .ok g := by decide +kernel
  exact ⟨hisa,hparse,hgoto,wellLabelled_of_ofProgram hisa hparse hgoto⟩

end GotoProgram
end Micro86
