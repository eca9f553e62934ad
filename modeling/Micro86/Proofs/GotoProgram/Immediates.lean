import Micro86.Proofs.GotoProgram.Naming
import Micro86.Proofs.Machine.Simulation

/-!
Numbers without a memory cell, in the text of the labelled statements and in the machine. The text
shows the number that was written; the machine takes the lower half of the word with its sign. The
two are the same up to `0x7FFF`. Words also hold the numbers from there up to `0xFFFF`, and these
the machine takes for negative ones.
-/
namespace Micro86.GotoProgram

/-- What a statement reads. -/
def Statement.reads : Statement → Option Expr
  | load e => some e
  | compute _ e => some e
  | compare e => some e
  | _ => none

variable {isa : InstructionSet} {p : Program} {code : List ResolvedInstruction}
variable {image : Image} {g : GotoProgram} {r : ResolvedInstruction} {role : Role}

/-- What is read stands at the end of the statement. -/
theorem Statement.render_of_reads {s : Statement} {e : Expr} (h : s.reads = some e) :
    ∃ lead, s.render = lead ++ e.render ++ ";" := by
  cases s <;> cases h
  case load => exact ⟨"_acc = ",rfl⟩
  case compute op => exact ⟨"_acc " ++ op.render ++ "= ",rfl⟩
  case compare => exact ⟨"_cmp = _acc - ",rfl⟩

theorem reads_of_statements (hvalue : role.takesValue) {block : List Statement}
    (h : statements r role = .ok block) :
    ∃ s e, block = [s] ∧ s.reads = some e ∧ valueOperand r role = .ok e := by
  cases role <;> simp [Role.takesValue,Role.takesOperand,Role.isJump] at hvalue
  all_goals
    obtain ⟨e,he,h⟩ := bind_eq_ok.mp h
    cases h
    exact ⟨_,e,rfl,rfl,he⟩

/-- An immediate operand that is read is a number. -/
theorem valueOperand_immediate (hcode : p.resolve isa = .ok code) (hr : r ∈ code)
    (himmediate : r.isImmediate = true) {e : Expr} (h : valueOperand r role = .ok e) :
    ∃ o, r.operand = some o ∧ e = .number o.value := by
  obtain ⟨o,ho,h⟩ := bind_eq_ok.mp h
  have hoperand := someOperand_eq_ok ho
  refine ⟨o,hoperand,?_⟩
  obtain ⟨i,hi⟩ := List.mem_iff_getElem?.mp hr
  obtain ⟨instruction,-,hres⟩ := getElem?_mapM hcode hi
  obtain ⟨entry,-,-,-,hmark,hbound⟩ := Program.entry_of_resolve hres
  have hcases := Program.resolveOperand_cases (hbound o hoperand)
  rw [← hmark,himmediate] at hcases
  obtain ⟨kind,text,value⟩ := o
  cases kind with
  | literal | label =>
    cases h
    rfl
  | storage => simp at hcases

/-- A machine that has fetched the word of an instruction does what its role says, with the lower
half of the word. -/
theorem execute_word (himage : Image.ofProgram isa p = .ok image)
    (hcode : p.resolve isa = .ok code) {i : Nat} (hr : code[i]? = some r)
    (hrole : r.role = some role) :
    ∃ w, image.code[i]? = some w ∧ (Word.decode w).2 = operandHalf r ∧
      (∀ o, r.operand = some o → -0x8000 ≤ o.value ∧ o.value ≤ 0xFFFF) ∧
      ∀ m : Machine, m.isa = isa → m.cpu.ir = Word.signed w →
        m.execute = m.perform (Word.decode w).2 r.isImmediate role := by
  obtain ⟨w,hw,hencode⟩ := Image.word_of_ofProgram himage hcode hr
  have hdecode := Word.decode_encode hencode
  rw [Int.toNat_natCast] at hdecode
  refine ⟨w,hw,by rw [hdecode,operandHalf],?_,?_⟩
  · intro o ho
    rw [ho] at hencode
    exact Word.operand_of_encode hencode
  · intro m hisa hir
    obtain ⟨instruction,-,hres⟩ := getElem?_mapM hcode hr
    obtain ⟨e,he,hsame,hentry,hmark,-⟩ := Program.entry_of_resolve hres
    rw [hrole] at hentry
    simp only [Machine.execute,hir,Word.decode_signed,hdecode,hisa,hsame,he,← hentry,hmark]

theorem eq_signExtend_iff {n : Int} (hlo : -0x8000 ≤ n) (hhi : n ≤ 0xFFFF) :
    (n = Word.signExtend n ↔ n ≤ 0x7FFF) ∧ (0x7FFF < n → n = Word.signExtend n+0x10000) := by
  rw [Word.signExtend_eq]
  split <;> omega

/-- In a program that goes both into an image and into labelled statements, an instruction that
reads an immediate value becomes one statement, which ends in the number as it was written, and one
word, of which the machine takes the lower half with its sign. These are the same number exactly
if it is at most `0x7FFF`; above that the machine's number is `0x10000` less. -/
theorem immediates_agree_iff (himage : Image.ofProgram isa p = .ok image)
    (hgoto : ofProgram isa p = .ok g) (hcode : p.resolve isa = .ok code) {i : Nat}
    (hr : code[i]? = some r) (hrole : r.role = some role) (hvalue : role.takesValue)
    (himmediate : r.isImmediate = true) :
    ∃ labels s n w, g.operations[i]? = some ⟨labels,[s]⟩ ∧ s.reads = some (.number n) ∧
      (∃ lead, s.render = lead ++ Text.decimal n ++ ";") ∧ image.code[i]? = some w ∧
      (∀ m : Machine, m.isa = isa → m.cpu.ir = Word.signed w →
        m.execute = m.perform (Word.decode w).2 true role ∧
        m.value (Word.decode w).2 true = .ok (Word.signExtend (Word.decode w).2)) ∧
      (n = Word.signExtend (Word.decode w).2 ↔ n ≤ 0x7FFF) ∧
      (0x7FFF < n → n = Word.signExtend (Word.decode w).2+0x10000) := by
  obtain ⟨code',numeric,hcode',hc⟩ := compiled_of_ofProgram hgoto
  obtain rfl : code = code' := Except.ok.inj (hcode.symm.trans hcode')
  obtain ⟨role',block,hrole',hblock,hop⟩ := hc.operation i r hr
  obtain rfl : role = role' := Option.some.inj (hrole.symm.trans hrole')
  obtain ⟨s,e,rfl,hreads,he⟩ := reads_of_statements hvalue hblock
  obtain ⟨o,ho,rfl⟩ := valueOperand_immediate hcode (List.mem_of_getElem? hr) himmediate he
  obtain ⟨w,hw,hhalf,hfits,hexecute⟩ := execute_word himage hcode hr hrole
  have hextend : Word.signExtend (Word.decode w).2 = Word.signExtend o.value := by
    rw [hhalf,← Word.signExtend_emod o.value,operandHalf,ho,Option.map_some,Option.getD_some,
      Int.toNat_of_nonneg (by omega)]
  obtain ⟨hlo,hhi⟩ := hfits o ho
  obtain ⟨lead,hrender⟩ := Statement.render_of_reads hreads
  rw [Expr.render] at hrender
  refine ⟨_,s,o.value,w,hop,hreads,⟨lead,hrender⟩,hw,?_,?_⟩
  · intro m hisa hir
    exact ⟨himmediate ▸ hexecute m hisa hir,rfl⟩
  · rw [hextend]
    exact eq_signExtend_iff hlo hhi

/-- The largest number that both sides take for the same. -/
theorem immediates_agree_largest :
    let p : Program := ⟨[⟨0x0201,"LOADI",some "32767",1⟩],[],[]⟩
    let image : Image := ⟨[0x02017FFF],[]⟩
    let g : GotoProgram := ⟨[],[⟨[],[.load (.number 32767)]⟩],[]⟩
    Image.ofProgram InstructionSet.bundled p = .ok image ∧
    ofProgram InstructionSet.bundled p = .ok g ∧
    (Statement.load (.number 32767)).render = "_acc = 32767;" ∧
    Word.signExtend (Word.decode 0x02017FFF).2 = 32767 := by
  intro p image g
  have himage : Image.ofProgram InstructionSet.bundled p = .ok image := by
    rw [InstructionSet.bundled_eq]
    decide +kernel
  have hgoto : ofProgram InstructionSet.bundled p = .ok g := by
    rw [InstructionSet.bundled_eq]
    decide +kernel
  have hcode : p.resolve InstructionSet.bundled = .ok [⟨⟨0x0201,"LOADI",some "32767",1⟩,some .load,
      true,some ⟨.literal,"32767",32767⟩⟩] := by
    rw [InstructionSet.bundled_eq]
    decide +kernel
  obtain ⟨labels,s,n,w,hop,hreads,-,hw,-,hagree,-⟩ :=
    immediates_agree_iff himage hgoto hcode (i := 0) rfl rfl rfl rfl
  cases hop
  cases hreads
  cases hw
  exact ⟨himage,hgoto,by decide +kernel,(hagree.mpr (by decide)).symm⟩

/-- The number behind it is `32768` in the text and `-32768` in the machine. -/
theorem immediates_differ_above_largest :
    let tokens : List Token := [⟨"LOADI",1⟩,⟨"32768",1⟩,⟨"HALT",2⟩]
    let p : Program := ⟨[⟨0x0201,"LOADI",some "32768",1⟩,⟨0x0100,"HALT",none,2⟩],[],[]⟩
    let image : Image := ⟨[0x02018000,0x01000000],[]⟩
    let g : GotoProgram := ⟨[],[⟨[],[.load (.number 32768)]⟩,⟨[],[.exit 0]⟩],[]⟩
    Program.parse InstructionSet.bundled tokens = .ok p ∧
    Image.ofProgram InstructionSet.bundled p = .ok image ∧
    ofProgram InstructionSet.bundled p = .ok g ∧
    (Statement.load (.number 32768)).render = "_acc = 32768;" ∧
    ∃ m k, Machine.boot 20 InstructionSet.bundled (image.words.map Int.ofNat) 20 false [] = .ok m ∧
      m.after 1 = .ok (k,"") ∧ k.cpu.acc = -32768 := by
  intro tokens p image g
  let m : Machine := ⟨InstructionSet.bundled,#[0x02018000,0x01000000],20,false,
    { memory := #[0x02018000,0x01000000] ++ Array.replicate 18 0 },0,0,false,[]⟩
  let k : Machine := { m with
    steps := 1, cpu := { m.cpu with acc := -32768, ip := 1, ir := 0x02018000 } }
  have hparse : Program.parse InstructionSet.bundled tokens = .ok p := by
    rw [InstructionSet.bundled_eq]
    decide +kernel
  have himage : Image.ofProgram InstructionSet.bundled p = .ok image := by
    rw [InstructionSet.bundled_eq]
    decide +kernel
  have hgoto : ofProgram InstructionSet.bundled p = .ok g := by
    rw [InstructionSet.bundled_eq]
    decide +kernel
  have htext : (Statement.load (.number 32768)).render = "_acc = 32768;" := by decide +kernel
  have hboot : Machine.boot 20 InstructionSet.bundled (image.words.map Int.ofNat) 20 false [] =
      .ok m := rfl
  have hafter : m.after 1 = .ok (k,"") := by
    simp only [m,k,InstructionSet.bundled_eq]
    decide +kernel
  exact ⟨hparse,himage,hgoto,htext,m,k,hboot,hafter,rfl⟩

end Micro86.GotoProgram
