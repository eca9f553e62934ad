import Micro86.Machine.Basic
import Micro86.Proofs.InstructionSet.Loaded
import Micro86.Proofs.Program.Resolve

/-!
How a program, its resolved instructions, its image and a machine that boots with the image
belong together: the instructions in order, then the variables in order, each at its address.
-/
namespace Micro86

/-- The resolved instructions and the image of a program, place by place. -/
structure Image.Linked (isa : InstructionSet) (p : Program) (code : List ResolvedInstruction)
    (image : Image) : Prop where
  program : p.WellFormed isa
  code_length : code.length = p.instructions.length
  image_length : image.code.length = p.instructions.length
  /-- The word of an instruction finds the role and the mark that the operand is bound by. -/
  word : ∀ (i : Nat) (r : ResolvedInstruction), code[i]? = some r →
    ∃ (w : Nat) (e : Entry) (role : Role), image.code[i]? = some w ∧
    Word.encode r.instruction.opcode (r.operand.map Operand.value) = .ok w ∧
    isa.byOpcode? r.instruction.opcode = some e ∧ e.role = some role ∧
    e.isImmediate = r.isImmediate ∧ r.role = some role ∧ r.Bound p role
  data : image.data = p.vars.map fun v => Word.unsigned v.2

variable {isa : InstructionSet} {p : Program} {image : Image} {code : List ResolvedInstruction}

/-- A code word keeps its place. -/
theorem Image.words_of_code {i w : Nat} (h : image.code[i]? = some w) :
    image.words[i]? = some w := by
  have hi := (List.getElem?_eq_some_iff.mp h).1
  rw [Image.words,List.getElem?_append_left hi,h]

/-- The data words follow the code words. -/
theorem Image.words_of_data (image : Image) (k : Nat) :
    image.words[image.code.length+k]? = image.data[k]? := by
  rw [Image.words,List.getElem?_append_right (by omega),Nat.add_sub_cancel_left]

theorem Image.ofProgram_eq_ok :
    Image.ofProgram isa p = .ok image ↔ ∃ code, p.resolve isa = .ok code ∧
      code.mapM ResolvedInstruction.encode = .ok image.code ∧
      image.data = p.vars.map fun v => Word.unsigned v.2 := by
  obtain ⟨words,data⟩ := image
  constructor
  · intro h
    obtain ⟨code,hcode,h⟩ := bind_eq_ok.mp h
    obtain ⟨words',hwords,h⟩ := bind_eq_ok.mp h
    cases h
    exact ⟨code,mapError_eq_ok.mp hcode,hwords,rfl⟩
  · rintro ⟨code,hcode,hwords,rfl⟩
    exact bind_eq_ok.mpr ⟨code,mapError_eq_ok.mpr hcode,bind_eq_ok.mpr ⟨words,hwords,rfl⟩⟩

/-- The code words stand where their instructions stand. -/
theorem Image.word_of_ofProgram (h : Image.ofProgram isa p = .ok image)
    (hcode : p.resolve isa = .ok code) {i : Nat} {r : ResolvedInstruction}
    (hr : code[i]? = some r) :
    ∃ w, image.code[i]? = some w ∧
      Word.encode r.instruction.opcode (r.operand.map Operand.value) = .ok w := by
  obtain ⟨code',hcode',hwords,-⟩ := Image.ofProgram_eq_ok.mp h
  obtain rfl : code = code' := Except.ok.inj (hcode.symm.trans hcode')
  obtain ⟨w,hw,hencode⟩ := getElem?_of_mapM hwords hr
  exact ⟨w,hw,mapError_eq_ok.mp hencode⟩

theorem Image.words_lt (h : Image.ofProgram isa p = .ok image) :
    ∀ w ∈ image.words, w < 0x100000000 := by
  obtain ⟨code,-,hwords,hdata⟩ := Image.ofProgram_eq_ok.mp h
  intro w hw
  obtain hw | hw := List.mem_append.mp hw
  · obtain ⟨i,hi⟩ := List.mem_iff_getElem?.mp hw
    obtain ⟨r,-,hr⟩ := getElem?_mapM hwords hi
    exact Word.encode_lt (mapError_eq_ok.mp hr)
  · rw [hdata] at hw
    obtain ⟨v,-,rfl⟩ := List.mem_map.mp hw
    exact Word.unsigned_lt v.2

theorem Image.linked_of_ofProgram (hisa : isa.Regular) (hp : p.WellFormed isa)
    (h : Image.ofProgram isa p = .ok image) :
    ∃ code, p.resolve isa = .ok code ∧ Image.Linked isa p code image := by
  obtain ⟨code,hresolve,hwords,hdata⟩ := Image.ofProgram_eq_ok.mp h
  refine ⟨code,hresolve,hp,length_of_mapM hresolve,?_,?_,hdata⟩
  · rw [length_of_mapM hwords,length_of_mapM hresolve]
  · intro i r hr
    obtain ⟨instruction,hi,hres⟩ := getElem?_mapM hresolve hr
    obtain ⟨w,hw,hencode⟩ := Image.word_of_ofProgram h hresolve hr
    obtain ⟨e,role,he,rfl,hrole,herole,himm,hb⟩ :=
      p.bound_of_resolve hisa hp (List.mem_of_getElem? hi) hres
    exact ⟨w,e,role,hw,hencode,he,herole,himm,hrole,hb⟩

theorem Image.Linked.bound (h : Image.Linked isa p code image) {r : ResolvedInstruction}
    (hr : r ∈ code) : ∃ role, r.role = some role ∧ r.Bound p role := by
  obtain ⟨i,hi⟩ := List.mem_iff_getElem?.mp hr
  obtain ⟨-,-,role,-,-,-,-,-,hrole,hb⟩ := h.word i r hi
  exact ⟨role,hrole,hb⟩

/-- The data word of a variable stands at the variable's address. -/
theorem Image.Linked.words_of_address (h : Image.Linked isa p code image) {name : String}
    {a : Nat} (ha : p.address? name = some a) :
    ∃ v, (name,v) ∈ p.vars ∧ image.words[a]? = some (Word.unsigned v) := by
  obtain ⟨k,v,hv,rfl⟩ := (Program.address?_eq_some h.program.vars_nodup).mp ha
  refine ⟨v,List.mem_of_getElem? hv,?_⟩
  rw [← h.image_length,Image.words_of_data]
  simp [h.data,hv]

/-- The words of an image: the instructions in order, then the variables in order, each at its
address. -/
structure Image.LaidOut (p : Program) (code : List ResolvedInstruction) (image : Image) :
    Prop where
  words_length : image.words.length = p.instructions.length+p.vars.length
  word_lt : ∀ w ∈ image.words, w < 0x100000000
  code_length : code.length = p.instructions.length
  /-- The word of an instruction holds the opcode and the lower half of the operand. -/
  instruction : ∀ (i : Nat) (instruction : Instruction), p.instructions[i]? = some instruction →
    ∃ r w, code[i]? = some r ∧ r.instruction = instruction ∧
      r.operand.map Operand.text = instruction.operand ∧ image.words[i]? = some w ∧
      Word.decode w =
        (instruction.opcode,((r.operand.map Operand.value).getD 0 % 0x10000).toNat)
  operand : ∀ r ∈ code, ∀ o, r.operand = some o → o.Placed p r.role
  addresses : p.vars.map (fun v => p.address? v.1) =
    (List.range' p.instructions.length p.vars.length).map some
  /-- The word of a variable is its value, with and without a sign. -/
  data : ∀ v ∈ p.vars, ∃ a w, p.address? v.1 = some a ∧ image.words[a]? = some w ∧
    (w : Int) = v.2 % 0x100000000 ∧ Word.signed w = v.2

/-- The image of a program that was read with a loaded instruction set is laid out place by
place. -/
theorem Image.laidOut_of_ofProgram {source : String} {text : List Char} {tokens : List Token}
    (hisa : InstructionSet.parse source text = .ok isa)
    (hparse : Program.parse isa tokens = .ok p) (himage : Image.ofProgram isa p = .ok image) :
    ∃ code, p.resolve isa = .ok code ∧ image.LaidOut p code := by
  have hp := Program.wellFormed_of_parse (InstructionSet.byMnemonic?_keyword hisa) hparse
  obtain ⟨code,hresolve,hwords,hdata⟩ := Image.ofProgram_eq_ok.mp himage
  have hlength : image.code.length = p.instructions.length :=
    (length_of_mapM hwords).trans (length_of_mapM hresolve)
  refine ⟨code,hresolve,?_⟩
  constructor
  case words_length => simp [Image.words,hlength,hdata]
  case word_lt => exact Image.words_lt himage
  case code_length => exact length_of_mapM hresolve
  case instruction =>
    intro i instruction hi
    obtain ⟨r,hr,hres⟩ := getElem?_of_mapM hresolve hi
    obtain ⟨-,-,hinstruction,-⟩ := Program.entry_of_resolve hres
    obtain ⟨w,hw,hencode⟩ := Image.word_of_ofProgram himage hresolve hr
    refine ⟨r,w,hr,hinstruction,Program.text_of_resolve hres,Image.words_of_code hw,?_⟩
    rw [Word.decode_encode hencode,hinstruction,Int.toNat_natCast]
  case operand =>
    intro r hr o ho
    exact Program.placed_of_resolve hp hresolve hr ho
  case addresses => exact Program.map_address? hp.vars_nodup
  case data =>
    rintro ⟨name,v⟩ hv
    obtain ⟨k,hk⟩ := List.mem_iff_getElem?.mp hv
    refine ⟨p.instructions.length+k,Word.unsigned v,?_,?_,?_,?_⟩
    · exact (Program.address?_eq_some hp.vars_nodup).mpr ⟨k,v,hk,rfl⟩
    · rw [← hlength,Image.words_of_data]
      simp [hdata,hk]
    · unfold Word.unsigned
      omega
    · rw [Word.signed_unsigned,Word.signed_of_inRange (hp.value _ hv)]

/-- Variables around the code, a negative operand, an opcode that needs all its bits, and two
jumps to the end of the code. -/
theorem Image.laidOut_of_scattered_variables :
    let text := "FFFF = PUT o i @load\n2 = GET o @load\n3 = GO o i @jmp\n4 = END @halt".toList
    let tokens : List Token := ["VAR","low","-2147483648","PUT","-1","GET","high","VAR","high","7",
      "GO","4","GO","out","out:","VAR","last","-2"].map (⟨·,1⟩)
    let isa : InstructionSet := ⟨"set",[⟨"PUT",0xFFFF,true,true,some .load,1⟩,
      ⟨"GET",2,true,false,some .load,2⟩,⟨"GO",3,true,true,some .jmp,3⟩,
      ⟨"END",4,false,false,some .halt,4⟩]⟩
    let p : Program := ⟨[⟨0xFFFF,"PUT",some "-1",1⟩,⟨2,"GET",some "high",1⟩,
      ⟨3,"GO",some "4",1⟩,⟨3,"GO",some "out",1⟩],[("out",4)],
      [("low",-2147483648),("high",7),("last",-2)]⟩
    let image : Image :=
      ⟨[0xFFFFFFFF,0x20005,0x30004,0x30004],[0x80000000,7,0xFFFFFFFE]⟩
    InstructionSet.parse "set" text = .ok isa ∧ Program.parse isa tokens = .ok p ∧
    Image.ofProgram isa p = .ok image ∧ ∃ code, p.resolve isa = .ok code ∧
      image.LaidOut p code := by
  intro text tokens isa p image
  have hisa : InstructionSet.parse "set" text = .ok isa := by decide +kernel
  have hparse : Program.parse isa tokens = .ok p := by decide +kernel
  have himage : Image.ofProgram isa p = .ok image := by decide +kernel
  exact ⟨hisa,hparse,himage,Image.laidOut_of_ofProgram hisa hparse himage⟩

end Micro86
