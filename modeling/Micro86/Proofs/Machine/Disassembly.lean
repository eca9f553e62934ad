import Micro86.Proofs.Machine.MemoryDump
import Micro86.Proofs.Machine.Procedure
import Micro86.Proofs.Machine.Simulation

/-!
The disassembly of a machine that has just booted with the image of a program shows the program:
opcodes lead back to the mnemonics, words to the operands, and cells to the numbers that the
variables are declared with. Where two lines of an instruction set share an opcode the way back is
lost, so this is said of instruction sets with distinct opcodes.
-/
namespace Micro86

/-- How an instruction is shown: its mnemonic; the lower half of its operand, if it takes one; and the
variable that the operand names, if it is one to read or to write, with the number that the variable
is declared with. -/
inductive Program.Shows (p : Program) (e : Entry) (r : ResolvedInstruction) : String → Prop
  | plain (h : e.hasOperand = false) (ho : r.operand = none) : Shows p e r r.instruction.mnemonic
  | operand {o : Operand} (h : e.hasOperand = true)
      (hkind : e.isImmediate = true ∨ e.role.any Role.isJump = true) (ho : r.operand = some o) :
      Shows p e r s!"{r.instruction.mnemonic}\t\t{Cpu.hex8 (o.value % 0x10000)}"
  | storage {o : Operand} {address : Nat} {v : Int} (h : e.hasOperand = true)
      (hdirect : e.isImmediate = false) (hjump : e.role.any Role.isJump = false)
      (ho : r.operand = some o) (haddress : p.address? o.text = some address)
      (hv : (o.text,v) ∈ p.vars) :
      Shows p e r (s!"{r.instruction.mnemonic}\t\t{Cpu.hex8 (o.value % 0x10000)}" ++
        s!"\t\t|{Cpu.hex8 address}: {Cpu.hex8 (v % 0x100000000)}|")

/-! ### Lines -/

theorem mapM_eq_some_map {α β : Type} {f : α → Option β} {g : α → β} {l : List α}
    (h : ∀ a ∈ l, f a = some (g a)) : l.mapM f = some (l.map g) := by
  induction l with
  | nil => rfl
  | cons a l ih =>
    have hrest := ih fun b hb => h b (List.mem_cons_of_mem a hb)
    rw [List.mapM_cons,h a List.mem_cons_self,hrest]
    rfl

namespace Machine
variable {m : Machine}

/-- The line of a cell that the program was loaded to. -/
def codeLine (m : Machine) (address : Nat) : String :=
  s!"{Cpu.hex8 address}:\t{m.disassemble (m.cpu.memory.getD address 0)}"

theorem disassembly?_eq (hm : m.Sound) :
    m.disassembly? = some (Text.unlines (["","=== DISASSEMBLED CODE ===",""] ++
      (List.range m.program.size).map m.codeLine)) := by
  have hlines : ((List.range m.program.size).mapM fun (address : Nat) => do
      return s!"{Cpu.hex8 address}:\t{m.disassemble (← m.cpu.memory[address]?)}") =
      some ((List.range m.program.size).map m.codeLine) := by
    apply mapM_eq_some_map
    intro address haddress
    have hlt := (List.mem_range.mp haddress).trans_le hm.program_le
    rw [codeLine,Array.getD_eq_getD_getElem?,Array.getElem?_eq_getElem hlt]
    rfl
  rw [disassembly?,hlines]
  rfl

section
variable {w : Int} {e : Entry} {operand : Nat} (hdecode : Word.decode w = (e.opcode,operand))
  (hentry : m.isa.byOpcode? e.opcode = some e)
include hdecode hentry

theorem disassemble_plain (h : e.hasOperand = false) : m.disassemble w = e.mnemonic := by
  rw [disassemble,hdecode]
  simp [hentry,h]

theorem disassemble_operand (h : e.hasOperand = true)
    (hkind : (e.isImmediate || e.role.any Role.isJump) = true) :
    m.disassemble w = s!"{e.mnemonic}\t\t{Cpu.hex8 operand}" := by
  rw [disassemble,hdecode]
  simp only [hentry,h,hkind,Bool.not_true,Bool.false_eq_true,if_false,if_true]

theorem disassemble_storage (h : e.hasOperand = true)
    (hkind : (e.isImmediate || e.role.any Role.isJump) = false) {v : Int}
    (hcell : m.cpu.memory[operand]? = some v) :
    m.disassemble w = s!"{e.mnemonic}\t\t{Cpu.hex8 operand}" ++
      s!"\t\t|{Cpu.hex8 operand}: {Cpu.hex8 (v % 0x100000000)}|" := by
  rw [disassemble,hdecode]
  simp only [hentry,h,hkind,hcell,Bool.not_true,Bool.false_eq_true,if_false,Text.toString_string,
    Cpu.hexWord_eq,String.append_assoc]

end

/-- A cell is shown on one line, whatever stands in it. -/
theorem unbroken_disassemble (hwords : ∀ e ∈ m.isa.entries, Text.IsWord e.mnemonic.toList) (w : Int) :
    Text.Unbroken (m.disassemble w) := by
  have htabs : Text.Unbroken "\t\t" := by decide
  have hbar : Text.Unbroken "\t\t|" := by decide
  have hcolon : Text.Unbroken ": " := by decide
  have hend : Text.Unbroken "|" := by decide
  unfold disassemble
  dsimp only
  split
  · exact Cpu.unbroken_hex8 _
  · next e he =>
    have hmnemonic : Text.Unbroken e.mnemonic :=
      Text.unbroken_of_not_blank (hwords e (InstructionSet.mem_of_byOpcode? he).1).2
    split
    · exact hmnemonic
    · split
      · simp only [Text.unbroken_append,Text.toString_string,hmnemonic,htabs,Cpu.unbroken_hex8,
          and_self]
      · split
        · simp only [Text.unbroken_append,Text.toString_string,hmnemonic,htabs,Cpu.unbroken_hex8,
            and_self]
        · simp only [Text.unbroken_append,Text.toString_string,hmnemonic,htabs,hbar,hcolon,hend,
            Cpu.unbroken_hex8,Cpu.hexWord,and_self]

theorem unbroken_codeLine (hwords : ∀ e ∈ m.isa.entries, Text.IsWord e.mnemonic.toList)
    (address : Nat) : Text.Unbroken (m.codeLine address) := by
  have htab : Text.Unbroken ":\t" := by decide
  simp only [codeLine,Text.unbroken_append,Text.toString_string,htab,Cpu.unbroken_hex8,
    unbroken_disassemble hwords,and_self]

/-- The lines of a disassembly: three of its own, then one for each cell of the program. -/
theorem lines_disassembly? (hm : m.Sound)
    (hwords : ∀ e ∈ m.isa.entries, Text.IsWord e.mnemonic.toList) :
    ∃ text, m.disassembly? = some text ∧ Text.lines text.toList =
      (["","=== DISASSEMBLED CODE ===",""] ++
        (List.range m.program.size).map m.codeLine).map String.toList := by
  refine ⟨_,disassembly?_eq hm,Text.lines_unlines ?_⟩
  intro l hl
  obtain hl | hl := List.mem_append.mp hl
  · have hheader : ∀ l ∈ ["","=== DISASSEMBLED CODE ===",""], Text.Unbroken l := by decide
    exact hheader l hl
  · obtain ⟨address,-,rfl⟩ := List.mem_map.mp hl
    exact unbroken_codeLine hwords address

end Machine

/-! ### Programs -/

open Grammar in
/-- The mnemonic of an instruction that was read has the entry that the instruction was read by. -/
theorem Program.entry_of_parse {isa : InstructionSet} {tokens : List Token} {p : Program}
    (hk : isa.byMnemonic? InstructionSet.keyword = none) (h : Program.parse isa tokens = .ok p)
    {i : Instruction} (hi : i ∈ p.instructions) :
    ∃ e, isa.byMnemonic? i.mnemonic = some e ∧ i.opcode = e.opcode ∧
      i.operand.isSome = e.hasOperand := by
  obtain ⟨ss,⟨hvalid,-⟩,-,rfl⟩ := (parse_eq_ok hk).mp h
  obtain ⟨s,hs,hbody⟩ := List.mem_filterMap.mp hi
  have hb := (hvalid s hs).1
  cases hc : s.body with
  | instruction head e operand =>
    rw [hc] at hb hbody
    obtain rfl := Option.some.inj hbody
    refine ⟨e,?_,rfl,by simpa using hb.2⟩
    rw [(InstructionSet.mem_of_byMnemonic? hb.1).2]
    exact hb.1
  | declaration head name literal value =>
    rw [hc] at hbody
    simp [Body.instruction?] at hbody

variable {isa : InstructionSet} {p : Program} {image : Image} {code : List ResolvedInstruction}
variable {m : Machine}

section
variable (himage : Image.ofProgram isa p = .ok image)
include himage

theorem Image.length_code : image.code.length = p.instructions.length := by
  obtain ⟨code,hcode,hwords,-⟩ := Image.ofProgram_eq_ok.mp himage
  rw [length_of_mapM hwords,length_of_mapM hcode]

theorem Image.length_words : image.words.length = p.instructions.length+p.vars.length := by
  obtain ⟨-,-,-,hdata⟩ := Image.ofProgram_eq_ok.mp himage
  simp [Image.words,Image.length_code himage,hdata]

/-- The word at the address of a variable is the number that the variable is declared with. -/
theorem Image.word_of_address (hn : (p.vars.map Prod.fst).Nodup) {name : String} {address : Nat}
    (ha : p.address? name = some address) :
    ∃ v, (name,v) ∈ p.vars ∧ image.words[address]? = some (Word.unsigned v) := by
  obtain ⟨-,-,-,hdata⟩ := Image.ofProgram_eq_ok.mp himage
  obtain ⟨k,v,hv,rfl⟩ := (Program.address?_eq_some hn).mp ha
  refine ⟨v,List.mem_of_getElem? hv,?_⟩
  rw [← Image.length_code himage,Image.words_of_data]
  simp [hdata,hv]

variable {capacity : Nat} {memorySize : Int} {resize : Bool} {input : List Char}
  (hp : p.WellFormed isa)
  (hboot : Machine.boot capacity isa (image.words.map Int.ofNat) memorySize resize input = .ok m)
include hp hboot

theorem cell_of_address {name : String} {address : Nat} (ha : p.address? name = some address) :
    ∃ v, (name,v) ∈ p.vars ∧ m.cpu.memory[address]? = some v := by
  obtain ⟨v,hv,hword⟩ := Image.word_of_address himage hp.vars_nodup ha
  refine ⟨v,hv,?_⟩
  have hcell := getElem?_of_boot hboot (i := address) (w := Word.unsigned v)
    (by rw [List.getElem?_map,hword]; rfl)
  rw [hcell,Word.signed_unsigned,Word.signed_of_inRange (hp.value _ hv)]

/-- The word of an instruction is shown as the instruction. -/
theorem shows_disassemble {e : Entry} {r : ResolvedInstruction} {w operand : Nat}
    (hentry : isa.byOpcode? e.opcode = some e) (hdecode : Word.decode w = (e.opcode,operand))
    (hmnemonic : e.mnemonic = r.instruction.mnemonic) (hsome : r.operand.isSome = e.hasOperand)
    (hoperand : ∀ o, r.operand = some o → (operand : Int) = o.value % 0x10000 ∧
      o.value ≤ 0xFFFF ∧ ∃ line, p.resolveOperand e o.text line = .ok o) :
    p.Shows e r (m.disassemble (Word.signed w)) := by
  have hisa : m.isa = isa := congrArg (fun b => b.1) (Machine.sound_of_boot hboot).2
  rw [← hisa] at hentry
  rw [← Word.decode_signed] at hdecode
  cases ho : r.operand with
  | none =>
    have htakes : e.hasOperand = false := by rw [← hsome,ho]; rfl
    rw [Machine.disassemble_plain hdecode hentry htakes,hmnemonic]
    exact .plain htakes ho
  | some o =>
    have htakes : e.hasOperand = true := by rw [← hsome,ho]; rfl
    obtain ⟨hhalf,hfits,line,hresolve⟩ := hoperand o ho
    cases hkind : e.isImmediate || e.role.any Role.isJump with
    | true =>
      have hshown : p.Shows e r _ := .operand htakes ((Bool.or_eq_true _ _).mp hkind) ho
      rw [← hhalf] at hshown
      rw [Machine.disassemble_operand hdecode hentry htakes hkind,hmnemonic]
      exact hshown
    | false =>
      obtain ⟨hdirect,hjump⟩ := (Bool.or_eq_false_iff).mp hkind
      -- a direct operand is a variable, whose address is its whole half of the word
      obtain ⟨himm,-⟩ | ⟨himm,-⟩ | ⟨-,a,hstorage,ha⟩ := Program.resolveOperand_cases hresolve
      · simp [hdirect] at himm
      · simp [hdirect] at himm
      · obtain ⟨v,hv,hcell⟩ := cell_of_address himage hp hboot ha
        have hvalue : o.value = a := congrArg Operand.value hstorage
        obtain rfl : operand = a := by omega
        have hshown : p.Shows e r _ := .storage htakes hdirect hjump ho ha hv
        rw [← hhalf] at hshown
        rw [Machine.disassemble_storage hdecode hentry htakes hkind hcell,hmnemonic]
        exact hshown

/-- The line of an instruction, at the instruction's place. -/
theorem shows_instruction (hdistinct : (isa.entries.map Entry.opcode).Nodup)
    (hcode : p.resolve isa = .ok code) {i : Nat} {instruction : Instruction}
    (hi : p.instructions[i]? = some instruction) {e : Entry}
    (he : isa.byMnemonic? instruction.mnemonic = some e)
    (hopcode : instruction.opcode = e.opcode)
    (hsome : instruction.operand.isSome = e.hasOperand) :
    ∃ r shown, code[i]? = some r ∧ r.instruction = instruction ∧
      m.codeLine i = s!"{Cpu.hex8 i}:\t{shown}" ∧ p.Shows e r shown := by
  obtain ⟨hmem,hmnemonic⟩ := InstructionSet.mem_of_byMnemonic? he
  have hentry := InstructionSet.byOpcode?_of_mem hdistinct hmem
  obtain ⟨r,hr,hres⟩ := getElem?_of_mapM hcode hi
  obtain ⟨e',he',rfl,-,-,hresolved⟩ := Program.entry_of_resolve hres
  obtain rfl : e' = e := by
    rw [hopcode,hentry] at he'
    exact (Option.some.inj he').symm
  obtain ⟨w,hw,hencode⟩ := Image.word_of_ofProgram himage hcode hr
  have hcell := getElem?_of_boot hboot (i := i) (w := w)
    (by rw [List.getElem?_map,Image.words_of_code hw]; rfl)
  have hline : m.codeLine i = s!"{Cpu.hex8 i}:\t{m.disassemble (Word.signed w)}" := by
    rw [Machine.codeLine,Array.getD_eq_getD_getElem?,hcell,Option.getD_some]
  have hdecode := Word.decode_encode hencode
  rw [Int.toNat_natCast,hopcode] at hdecode
  refine ⟨r,_,hr,rfl,hline,shows_disassemble himage hp hboot hentry hdecode hmnemonic ?_ ?_⟩
  · rw [← hsome,← Program.text_of_resolve hres,Option.isSome_map]
  · intro o ho
    rw [ho,Option.map_some] at hencode
    refine ⟨?_,(Word.operand_of_encode hencode).2,_,hresolved o ho⟩
    rw [ho,Option.map_some,Option.getD_some]
    omega

end

/-- A machine that has just booted with the image of a program shows the program, if no two lines of
the instruction set share an opcode. Behind three lines of its own the disassembly has a line for
every word; that of an instruction has its address, and the instruction as it was written, with its
operand resolved. A number below `2^32` is written with eight hexadecimal digits. -/
theorem disassembly_shows_program {source : String} {descriptor : List Char} {tokens : List Token}
    {capacity : Nat} {memorySize : Int} {resize : Bool} {input : List Char}
    (hisa : InstructionSet.parse source descriptor = .ok isa)
    (hdistinct : (isa.entries.map Entry.opcode).Nodup)
    (hparse : Program.parse isa tokens = .ok p) (himage : Image.ofProgram isa p = .ok image)
    (hboot : Machine.boot capacity isa (image.words.map Int.ofNat) memorySize resize input =
      .ok m) :
    ∃ text ls code, m.disassembly? = some text ∧
      Text.lines text.toList = (["","=== DISASSEMBLED CODE ===",""] ++ ls).map String.toList ∧
      ls.length = p.instructions.length+p.vars.length ∧ p.resolve isa = .ok code ∧
      (∀ (i : Nat) instruction, p.instructions[i]? = some instruction →
        ∃ e r shown, isa.byMnemonic? instruction.mnemonic = some e ∧ code[i]? = some r ∧
          r.instruction = instruction ∧ ls[i]? = some s!"{Cpu.hex8 i}:\t{shown}" ∧
          p.Shows e r shown) ∧
      ∀ n : Nat, n < 0x100000000 → ∃ digits, (Cpu.hex8 n).toList = '0' :: 'x' :: digits ∧
        digits.length = 8 ∧ Text.hexValue digits = n := by
  have hk := InstructionSet.byMnemonic?_keyword hisa
  obtain ⟨hm,hbuild⟩ := Machine.sound_of_boot hboot
  have hset : m.isa = isa := congrArg (fun b => b.1) hbuild
  have hsize : m.program.size = p.instructions.length+p.vars.length := by
    rw [Machine.program_size_of_boot hboot,List.length_map,Image.length_words himage]
  have hp := Program.wellFormed_of_parse hk hparse
  obtain ⟨code,hcode,-⟩ := Image.ofProgram_eq_ok.mp himage
  obtain ⟨text,htext,hlines⟩ :=
    Machine.lines_disassembly? hm (hset ▸ InstructionSet.isWord_mnemonic hisa)
  refine ⟨text,_,code,htext,hlines,?_,hcode,?_,fun n => Cpu.digits_of_hex8⟩
  · rw [List.length_map,List.length_range,hsize]
  · intro i instruction hi
    obtain ⟨e,he,hopcode,hsome⟩ := Program.entry_of_parse hk hparse (List.mem_of_getElem? hi)
    obtain ⟨r,shown,hr,hinstruction,hline,hshown⟩ :=
      shows_instruction himage hp hboot hdistinct hcode hi he hopcode hsome
    have hlt : i < m.program.size := by
      have := (List.getElem?_eq_some_iff.mp hi).1
      omega
    refine ⟨e,r,shown,he,hr,hinstruction,?_,hshown⟩
    rw [List.getElem?_map,List.getElem?_range hlt,Option.map_some,hline]

/-- A mnemonic with two opcodes, the second of which counts, and a variable that it reads. -/
theorem disassembly_shows_negative_variable :
    let descriptor := "1 = GET o i @load\nFFFF = GET o @load\n3 = END @halt".toList
    let isa : InstructionSet := ⟨"set",[⟨"GET",1,true,true,some .load,1⟩,
      ⟨"GET",0xFFFF,true,false,some .load,2⟩,⟨"END",3,false,false,some .halt,3⟩]⟩
    let tokens : List Token := ["VAR","x","-2","GET","x","END"].map (⟨·,1⟩)
    let p : Program := ⟨[⟨0xFFFF,"GET",some "x",1⟩,⟨3,"END",none,1⟩],[],[("x",-2)]⟩
    let image : Image := ⟨[0xFFFF0002,0x30000],[0xFFFFFFFE]⟩
    let m : Machine := ⟨isa,#[-0xFFFE,0x30000,-2],3,false,{ memory := #[-0xFFFE,0x30000,-2] },
      0,0,false,[]⟩
    InstructionSet.parse "set" descriptor = .ok isa ∧ (isa.entries.map Entry.opcode).Nodup ∧
    Program.parse isa tokens = .ok p ∧ Image.ofProgram isa p = .ok image ∧
    Machine.boot 20 isa (image.words.map Int.ofNat) 3 false [] = .ok m ∧
    ∃ text ls, m.disassembly? = some text ∧
      Text.lines text.toList = (["","=== DISASSEMBLED CODE ===",""] ++ ls).map String.toList ∧
      ls[0]? = some "0x00000000:\tGET\t\t0x00000002\t\t|0x00000002: 0xFFFFFFFE|" := by
  intro descriptor isa tokens p image m
  have hisa : InstructionSet.parse "set" descriptor = .ok isa := by decide +kernel
  have hdistinct : (isa.entries.map Entry.opcode).Nodup := by decide
  have hparse : Program.parse isa tokens = .ok p := by decide +kernel
  have himage : Image.ofProgram isa p = .ok image := by decide +kernel
  have hboot : Machine.boot 20 isa (image.words.map Int.ofNat) 3 false [] = .ok m := by
    decide +kernel
  obtain ⟨text,ls,code,htext,hlines,-,hcode,hshown,-⟩ :=
    disassembly_shows_program hisa hdistinct hparse himage hboot
  refine ⟨hisa,hdistinct,hparse,himage,hboot,text,ls,htext,hlines,?_⟩
  obtain ⟨e,r,shown,he,hr,-,hline,hshows⟩ := hshown 0 _ rfl
  have hresolve : p.resolve isa = .ok [⟨⟨0xFFFF,"GET",some "x",1⟩,some .load,false,
      some ⟨.storage,"x",2⟩⟩,⟨⟨3,"END",none,1⟩,some .halt,false,none⟩] := by decide +kernel
  cases hcode.symm.trans hresolve
  cases hr
  have hentry : isa.byMnemonic? "GET" = some ⟨"GET",0xFFFF,true,false,some .load,2⟩ := by decide
  cases he.symm.trans hentry
  rw [hline]
  cases hshows with
  | plain h => simp at h
  | operand h hkind => simp [Role.isJump] at hkind
  | storage h hdirect hjump ho haddress hv =>
    cases ho
    have haddress' : p.address? "x" = some 2 := by decide
    cases haddress.symm.trans haddress'
    cases List.mem_singleton.mp hv
    decide +kernel

end Micro86
