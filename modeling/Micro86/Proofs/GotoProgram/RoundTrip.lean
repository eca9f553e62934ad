import Micro86.Proofs.GotoProgram.Reading

/-!
Programs of labelled statements are read back from their texts. This needs plain names: then a
line has the words that it was made of, and only the code is left of the lines.
-/
namespace Micro86.GotoProgram

/-! ### Words of the code -/

theorem isWord_append {word tail : String} (h : Text.IsWord word.toList)
    (htail : Text.IsWord tail.toList) : Text.IsWord (word ++ tail).toList := by
  refine ⟨by simp [h.1],?_⟩
  intro c hc
  rw [String.toList_append,List.mem_append] at hc
  obtain hc | hc := hc
  · exact h.2 c hc
  · exact htail.2 c hc

theorem Expr.isWord_render {e : Expr} (h : e.Named) : Text.IsWord e.render.toList := by
  cases e with
  | cell name => exact h.1.isWord
  | number n => exact Text.isWord_decimal n

theorem Statement.isWord_words {s : Statement} (h : s.Named) :
    ∀ w ∈ s.words, Text.IsWord w.toList := by
  have hmark : Text.IsWord ";".toList := by decide
  cases s with
  | exit code =>
    obtain rfl | rfl := h
    all_goals decide +kernel
  | load e =>
    simp only [Statement.words,List.forall_mem_cons]
    exact ⟨by decide,by decide,isWord_append (Expr.isWord_render h) hmark,by simp⟩
  | store name =>
    simp only [Statement.words,List.forall_mem_cons]
    exact ⟨h.1.isWord,by decide,by decide,by simp⟩
  | compute op e =>
    simp only [Statement.words,List.forall_mem_cons]
    refine ⟨by decide,?_,isWord_append (Expr.isWord_render h) hmark,by simp⟩
    cases op <;> decide
  | compare e =>
    simp only [Statement.words,List.forall_mem_cons]
    exact ⟨by decide,by decide,by decide,by decide,
      isWord_append (Expr.isWord_render h) hmark,by simp⟩
  | jump label =>
    simp only [Statement.words,List.forall_mem_cons]
    exact ⟨by decide,isWord_append (Plain.isWord h) hmark,by simp⟩
  | branch test label =>
    simp only [Statement.words,List.forall_mem_cons]
    refine ⟨by decide,by decide,?_,by decide,by decide,isWord_append (Plain.isWord h) hmark,
      by simp⟩
    cases test <;> decide
  | readByte | takeByte | writeChar => decide

theorem Line.isWord_words {l : Line} (h : l.Named) : ∀ w ∈ l.words, Text.IsWord w.toList := by
  cases l with
  | declaration name value =>
    simp only [Line.words,List.forall_mem_cons]
    exact ⟨by decide,Plain.isWord h,by decide,isWord_append (Text.isWord_decimal value) (by decide),
      by simp⟩
  | statement labels s =>
    intro w hw
    obtain hw | hw := List.mem_append.mp hw
    · obtain ⟨label,hlabel,rfl⟩ := List.mem_map.mp hw
      exact isWord_append (h.1 label hlabel).isWord (by decide)
    · exact Statement.isWord_words h.2 w hw

theorem Line.wordsOf_render {l : Line} (h : l.Named) : wordsOf l.render = l.words := by
  rw [wordsOf,l.render_eq_unwords,Text.words_unwords (Line.isWord_words h),List.map_map]
  simp

theorem Line.render_unbroken {l : Line} (h : l.Named) : Text.Unbroken l.render := by
  rw [l.render_eq_unwords]
  exact Text.unwords_unbroken (Line.isWord_words h)

/-! ### Whole programs -/

/-- The lines of an operation. -/
def Operation.code (o : Operation) : List Line :=
  match o.statements with
  | [] => []
  | first :: rest => .statement o.labels first :: rest.map (.statement [])

/-- A statement, or a byte that is read and taken. -/
def Operation.Shaped (o : Operation) : Prop :=
  (∃ s, o.statements = [s] ∧ s ≠ .readByte) ∨ o.statements = [.readByte,.takeByte]

/-- The lines of a program, without what is the same in all programs. -/
def code (g : GotoProgram) : List Line :=
  g.declarations.map (fun v => .declaration v.1 v.2) ++ g.operations.flatMap Operation.code ++
    [.statement g.endLabels (.exit 1)]

theorem operations?_append {o : Operation} (h : o.Shaped) {rest : List Line}
    {r : List Operation × List String} (hrest : operations? rest = some r) :
    operations? (o.code ++ rest) = some (o :: r.1,r.2) := by
  obtain ⟨labels,statements⟩ := o
  obtain ⟨s,rfl,hs⟩ | rfl := h
  · cases rest with
    | nil => simp [operations?] at hrest
    | cons l rest => cases s <;> simp_all [operations?,Operation.code]
  · simp [operations?,Operation.code,hrest]

theorem operations?_code {operations : List Operation} (h : ∀ o ∈ operations, o.Shaped)
    (endLabels : List String) :
    operations? (operations.flatMap Operation.code ++ [.statement endLabels (.exit 1)]) =
      some (operations,endLabels) := by
  induction operations with
  | nil => rfl
  | cons o operations ih =>
    rw [List.flatMap_cons,List.append_assoc]
    exact operations?_append (h o List.mem_cons_self)
      (ih fun o' ho' => h o' (List.mem_cons_of_mem o ho'))

theorem program?_of_operations? {ls : List Line} {r : List Operation × List String}
    (h : operations? ls = some r) : program? ls = some ⟨[],r.1,r.2⟩ := by
  cases ls with
  | nil => simp [operations?] at h
  | cons l ls =>
    cases l with
    | declaration name value => simp [operations?] at h
    | statement labels s => simp [program?,h]

theorem program?_code {g : GotoProgram} (h : ∀ o ∈ g.operations, o.Shaped) :
    program? g.code = some g := by
  obtain ⟨declarations,operations,endLabels⟩ := g
  have hops := program?_of_operations? (operations?_code h endLabels)
  rw [code,List.append_assoc]
  induction declarations with
  | nil => exact hops
  | cons v declarations ih => simp [program?,ih h hops]

theorem mapM_read {ls : List Line} (h : ∀ l ∈ ls, l.Named) :
    (ls.map Line.words).mapM Line.read = some ls := by
  induction ls with
  | nil => rfl
  | cons l ls ih =>
    rw [List.map_cons,List.mapM_cons,Line.read_words (h l List.mem_cons_self),
      ih fun l' hl' => h l' (List.mem_cons_of_mem l hl')]
    rfl

theorem Operation.lines_eq_render (o : Operation) : o.lines = o.code.map Line.render := by
  obtain ⟨labels,statements⟩ := o
  cases statements with
  | nil => rfl
  | cons first rest =>
    have hrest : rest.map Statement.render = rest.map (Line.render ∘ Line.statement []) := by
      apply List.map_congr_left
      intro s _
      simp [Line.render,labelled]
    simp [Operation.lines,Operation.code,Line.render,hrest]

theorem codeLines_unlines {ls : List String} (h : ∀ l ∈ ls, Text.Unbroken l) :
    codeLines (Text.unlines ls) = (ls.map wordsOf).filter isCode := by
  have hline : (wordsOf ∘ String.ofList) ∘ String.toList = wordsOf := by
    funext l
    simp
  rw [codeLines,Text.lines_unlines h,List.map_map,hline]

theorem filter_wordsOf {ls : List Line} (h : ∀ l ∈ ls, l.Named) :
    ((ls.map Line.render).map wordsOf).filter isCode = ls.map Line.words := by
  have hwords : (ls.map Line.render).map wordsOf = ls.map Line.words := by
    rw [List.map_map]
    apply List.map_congr_left
    intro l hl
    exact Line.wordsOf_render (h l hl)
  rw [hwords,List.filter_eq_self]
  intro ws hws
  obtain ⟨l,hl,rfl⟩ := List.mem_map.mp hws
  exact Line.isCode_words (h l hl)

/-- The text of a program, with the lines that are the same in all programs. -/
theorem lines_eq_render (g : GotoProgram) :
    g.lines = prologue ++ ["","// === Declarations ===",""] ++
      (g.declarations.map fun v => Line.declaration v.1 v.2).map Line.render ++
      ["","// === Operations ===",""] ++
      (g.operations.flatMap Operation.code).map Line.render ++
      ["","// === HALT Bypassed ===",""] ++
      [Line.statement g.endLabels (.exit 1)].map Line.render ++ ["\x7d"] := by
  have hops : Operation.lines = fun o => o.code.map Line.render :=
    funext Operation.lines_eq_render
  rw [lines,hops,← List.map_flatMap]
  simp [Line.render]

/-- A name in the code breaks no line. -/
theorem lines_unbroken {g : GotoProgram} (h : ∀ l ∈ g.code, l.Named) :
    ∀ l ∈ g.lines, Text.Unbroken l := by
  have hfixed : ∀ l ∈ prologue ++ ["","// === Declarations ===",""] ++
      ["","// === Operations ===",""] ++ ["","// === HALT Bypassed ===",""] ++ ["\x7d"],
      Text.Unbroken l := by decide +kernel
  simp only [code,List.forall_mem_append] at h
  simp only [List.forall_mem_append] at hfixed
  obtain ⟨⟨hdeclarations,hoperations⟩,hend⟩ := h
  obtain ⟨⟨⟨⟨hprologue,hfirst⟩,hsecond⟩,hthird⟩,hclose⟩ := hfixed
  simp only [lines_eq_render,List.forall_mem_append]
  refine ⟨⟨⟨⟨⟨⟨⟨hprologue,hfirst⟩,?_⟩,hsecond⟩,?_⟩,hthird⟩,?_⟩,hclose⟩
  all_goals
    intro l hl
    obtain ⟨line,hline,rfl⟩ := List.mem_map.mp hl
  · exact Line.render_unbroken (hdeclarations line hline)
  · exact Line.render_unbroken (hoperations line hline)
  · exact Line.render_unbroken (hend line hline)

theorem codeLines_render {g : GotoProgram} (h : ∀ l ∈ g.code, l.Named) :
    codeLines g.render = heading ++ g.code.map Line.words ++ [["\x7d"]] := by
  have hfront : ((prologue ++ ["","// === Declarations ===",""]).map wordsOf).filter isCode =
      heading := by decide +kernel
  have hmiddle : (["","// === Operations ===",""].map wordsOf).filter isCode = [] := by
    decide +kernel
  have hback : (["","// === HALT Bypassed ===",""].map wordsOf).filter isCode = [] := by
    decide +kernel
  have hclose : (["\x7d"].map wordsOf).filter isCode = [["\x7d"]] := by decide +kernel
  rw [render,codeLines_unlines (lines_unbroken h)]
  simp only [code,List.forall_mem_append] at h
  obtain ⟨⟨hdeclarations,hoperations⟩,hend⟩ := h
  rw [lines_eq_render]
  simp only [List.map_append,List.filter_append] at hfront ⊢
  rw [hfront,hmiddle,hback,hclose,filter_wordsOf hdeclarations,filter_wordsOf hoperations,
    filter_wordsOf hend]
  simp [code]

/-- A program is read back from its text. -/
theorem read_render {g : GotoProgram} (hnames : ∀ l ∈ g.code, l.Named)
    (hshapes : ∀ o ∈ g.operations, o.Shaped) : read g.render = some g := by
  have hlines := codeLines_render hnames
  have hbody : ((codeLines g.render).drop heading.length).dropLast = g.code.map Line.words := by
    rw [hlines,List.append_assoc,List.drop_left,List.dropLast_concat]
  have hhead : (codeLines g.render).take heading.length = heading := by
    rw [hlines,List.append_assoc,List.take_left]
  have hlast : (codeLines g.render).getLast? = some ["\x7d"] := by
    rw [hlines,List.getLast?_concat]
  rw [read,if_pos ⟨hhead,hlast⟩,hbody,mapM_read hnames]
  exact program?_code hshapes

end Micro86.GotoProgram
