import Micro86.Proofs.Machine.Simulation
import Micro86.Proofs.Program.Renumbering

/-!
Two machines with the same code under different numbers. Their code words are read as the same
instructions, and the rest of their memories is the same. No instruction reads or writes a word of
the code as a cell, so a step that is taken inside the code does the same to both, also when it
fails. A program that is assembled and booted under a renumbered instruction set therefore runs as
it did before.
-/
namespace Micro86

open Machine

/-- What an instruction set takes a word for. -/
def InstructionSet.Reads (isa : InstructionSet) (w : Int) (role : Role) (immediate : Bool)
    (operand : Nat) : Prop :=
  ∃ e, isa.byOpcode? (Word.decode w).1 = some e ∧ e.role = some role ∧
    e.isImmediate = immediate ∧ (Word.decode w).2 = operand

/-- An instruction that reads and writes no cell among the first `count`, where the code is: what
it takes from a cell or stores into one lies behind them. -/
structure Avoids (count : Nat) (role : Role) (immediate : Bool) (operand : Nat) : Prop where
  direct : role.takesOperand → immediate = false → count ≤ operand
  store : role = .store → immediate = false

/-- Two machines that differ in the numbers of their instructions, in the first `count` cells. -/
structure Machine.Twin (count : Nat) (m k : Machine) : Prop where
  acc : k.cpu.acc = m.cpu.acc
  ip : k.cpu.ip = m.cpu.ip
  zero : k.cpu.zero = m.cpu.zero
  sign : k.cpu.sign = m.cpu.sign
  input : k.input = m.input
  current : k.current = m.current
  steps : k.steps = m.steps
  halted : k.halted = m.halted
  size : k.cpu.memory.size = m.cpu.memory.size
  cell : ∀ i, count ≤ i → k.cpu.memory[i]? = m.cpu.memory[i]?
  code : ∀ i < count, ∃ w v role immediate operand,
    m.cpu.memory[i]? = some w ∧ k.cpu.memory[i]? = some v ∧
    m.isa.Reads w role immediate operand ∧ k.isa.Reads v role immediate operand ∧
    Avoids count role immediate operand

/-- Two outcomes that differ in the words that they show at most. -/
structure Outcome.Alike (o q : Outcome) : Prop where
  halted : q.halted = o.halted
  output : q.output = o.output
  cause : q.fault.map Fault.cause = o.fault.map Fault.cause
  address : q.fault.map Fault.address = o.fault.map Fault.address
  message : q.fault.map Fault.message = o.fault.map Fault.message

namespace Machine

/-- The machine after a number of steps. Steps are taken also behind one that fails. -/
def stepped : Nat → Machine → Machine
  | 0,m => m
  | n+1,m => (stepped n m).step.2

/-- As long as the first machine stays inside the first `count` cells, the machines are alike
after every number of steps and have had like outcomes. -/
def RunsAlike (count : Nat) (m k : Machine) : Prop :=
  ∀ n, (∀ i < n, (m.stepped i).halted = false → (m.stepped i).cpu.ip < count) →
    Twin count (m.stepped n) (k.stepped n) ∧
    ∀ i < n, Outcome.Alike (m.stepped i).step.1 (k.stepped i).step.1

/-- Neither machine boots, for one reason, or both do and run alike. -/
def BootsAlike (count : Nat) : Except BootError Machine → Except BootError Machine → Prop
  | .error e,.error d => d = e
  | .ok m,.ok k => RunsAlike count m k
  | _,_ => False

variable {m k : Machine} {count : Nat}

theorem BootsAlike.of_ok {booted : Except BootError Machine}
    (h : BootsAlike count (.ok m) booted) : ∃ k, booted = .ok k ∧ RunsAlike count m k := by
  cases booted with
  | error e => exact h.elim
  | ok k => exact ⟨k,rfl,h⟩

/-! ### Instructions -/

/-- A word that is read as an instruction is carried out as that one. -/
theorem execute_of_reads {role : Role} {immediate : Bool} {operand : Nat}
    (h : m.isa.Reads m.cpu.ir role immediate operand) :
    m.execute = m.perform operand immediate role := by
  obtain ⟨e,he,hrole,rfl,rfl⟩ := h
  simp only [execute,he,hrole]

namespace Twin

theorem fetched (h : Twin count m k) : Twin count m.fetched k.fetched where
  __ := h
  ip := by simp [Machine.fetched,h.ip]
  current := by simp [Machine.fetched,h.ip]

theorem accumulate (h : Twin count m k) (n : Int) :
    Twin count (m.accumulate n).machine (k.accumulate n).machine where
  __ := h
  acc := rfl

/-- Both machines read the same number, or fail at the same cell. -/
theorem value (h : Twin count m k) {operand : Nat} {immediate : Bool}
    (hoperand : immediate = false → count ≤ operand) :
    (∃ v, m.value operand immediate = .ok v ∧ k.value operand immediate = .ok v) ∨
    ∃ g g', m.value operand immediate = .error g ∧ k.value operand immediate = .error g' ∧
      g'.cause = g.cause ∧ g'.address = g.address := by
  cases immediate with
  | true => exact .inl ⟨_,rfl,rfl⟩
  | false =>
    have hcell := h.cell operand (hoperand rfl)
    have hbounds : k.cpu.inBounds operand = m.cpu.inBounds operand := by
      simp only [Cpu.inBounds,h.size]
    have hget : k.cpu.memory.getD operand 0 = m.cpu.memory.getD operand 0 := by
      rw [Array.getD_eq_getD_getElem?,Array.getD_eq_getD_getElem?,hcell]
    simp only [Machine.value,Bool.false_eq_true,if_false,Machine.read,hbounds,Int.toNat_natCast,
      hget]
    split
    · exact .inl ⟨_,rfl,rfl⟩
    · exact .inr ⟨_,_,rfl,rfl,rfl,rfl⟩

/-- Both machines write the same cell behind the code, or fail there. -/
theorem write (h : Twin count m k) {operand : Nat} (hoperand : count ≤ operand) :
    (∃ m' k', m.write operand m.cpu.acc = .ok m' ∧ k.write operand k.cpu.acc = .ok k' ∧
      Twin count m' k') ∨
    ∃ g g', m.write operand m.cpu.acc = .error g ∧ k.write operand k.cpu.acc = .error g' ∧
      g'.cause = g.cause ∧ g'.address = g.address := by
  have hbounds : k.cpu.inBounds operand = m.cpu.inBounds operand := by
    simp only [Cpu.inBounds,h.size]
  simp only [Machine.write,hbounds]
  split
  · refine .inl ⟨_,_,rfl,rfl,{ h with size := ?_, cell := ?_, code := ?_ }⟩
    · simp [h.size]
    · intro i hi
      simp [Array.getElem?_setIfInBounds,h.size,h.cell i hi,h.acc]
    · intro i hi
      have hne : operand ≠ i := by omega
      simpa [Array.getElem?_setIfInBounds_ne hne] using h.code i hi
  · exact .inr ⟨_,_,rfl,rfl,rfl,rfl⟩

end Twin

/-- Both machines carry an instruction out and stay alike, or fail for the same cause at the same
address. -/
def EffectsAlike (count : Nat) : Except Fault Effect → Except Fault Effect → Prop
  | .ok e,.ok d => Twin count e.machine d.machine ∧ d.target = e.target ∧ d.halts = e.halts ∧
      d.output = e.output
  | .error g,.error g' => g'.cause = g.cause ∧ g'.address = g.address
  | _,_ => False

theorem Twin.perform (h : Twin count m k) {role : Role} {immediate : Bool} {operand : Nat}
    (ha : Avoids count role immediate operand) :
    EffectsAlike count (m.perform operand immediate role) (k.perform operand immediate role) := by
  cases hv : role.takesValue with
  | true =>
    have htakes : role.takesOperand := by
      simp only [Role.takesValue,Bool.and_eq_true] at hv
      exact hv.1.1
    obtain ⟨v,hm,hk⟩ | ⟨g,g',hm,hk,hfault⟩ := h.value (ha.direct htakes)
    all_goals cases role <;> simp [Role.takesValue,Role.takesOperand,Role.isJump] at hv
    all_goals simp only [Machine.perform,divisor,hm,hk,ok_bind,error_bind,h.acc]
    case inl.load | inl.add | inl.sub | inl.mul => exact ⟨h.accumulate _,rfl,rfl,rfl⟩
    case inl.cmp => exact ⟨{ h with zero := rfl, sign := rfl },rfl,rfl,rfl⟩
    case inl.div | inl.mod =>
      split
      · exact ⟨rfl,congrArg Int.ofNat h.current⟩
      · exact ⟨h.accumulate _,rfl,rfl,rfl⟩
    all_goals exact hfault
  | false =>
    cases role <;> simp [Role.takesValue,Role.takesOperand,Role.isJump] at hv
    case halt => exact ⟨h,rfl,rfl,rfl⟩
    case store =>
      obtain ⟨m',k',hm,hk,htwin⟩ | ⟨g,g',hm,hk,hfault⟩ := h.write (ha.direct rfl (ha.store rfl))
      all_goals simp only [Machine.perform,hm,hk,ok_bind,error_bind]
      · exact ⟨htwin,rfl,rfl,rfl⟩
      · exact hfault
    case jmp | je | jne | jl | jle | jg | jge =>
      simp only [Machine.perform,h.zero,h.sign]
      exact ⟨h,rfl,rfl,rfl⟩
    case output =>
      simp only [Machine.perform,h.acc]
      exact ⟨h,rfl,rfl,rfl⟩
    case input =>
      simp only [Machine.perform,h.input]
      cases m.input with
      | nil => exact ⟨rfl,congrArg Int.ofNat h.current⟩
      | cons c rest =>
        have hrest : Twin count { m with input := rest } { k with input := rest } :=
          { h with input := rfl }
        exact ⟨hrest.accumulate _,rfl,rfl,rfl⟩

/-! ### Steps -/

theorem Twin.apply {e d : Effect} (h : Twin count e.machine d.machine)
    (htarget : d.target = e.target) (hhalts : d.halts = e.halts) :
    Twin count (Machine.apply e) (Machine.apply d) where
  __ := h
  ip := by simp [Machine.apply,h.ip,htarget,hhalts]
  steps := by simp [Machine.apply,h.steps]
  halted := by simp [Machine.apply,h.halted,hhalts]

theorem Fault.alike {g g' : Fault} (hcause : g'.cause = g.cause)
    (haddress : g'.address = g.address) : Outcome.Alike { fault := some g } { fault := some g' } where
  halted := rfl
  output := rfl
  cause := by simp [hcause]
  address := by simp [haddress]
  message := by simp [Fault.message,hcause,haddress]

/-- Inside the code both machines fetch words that are read as one instruction. -/
theorem Twin.execute (h : Twin count m k) (hip : 0 ≤ m.cpu.ip ∧ m.cpu.ip < count) :
    EffectsAlike count m.fetched.execute k.fetched.execute := by
  obtain ⟨w,v,role,immediate,operand,hw,hv,hm,hk,ha⟩ := h.code m.cpu.ip.toNat (by omega)
  have hmir : m.fetched.cpu.ir = w := by
    simp only [Machine.fetched,Array.getD_eq_getD_getElem?,hw,Option.getD_some]
  have hkir : k.fetched.cpu.ir = v := by
    simp only [Machine.fetched,h.ip,Array.getD_eq_getD_getElem?,hv,Option.getD_some]
  rw [execute_of_reads (m := m.fetched) (by rw [hmir]; exact hm),
    execute_of_reads (m := k.fetched) (by rw [hkir]; exact hk)]
  exact h.fetched.perform ha

/-- A step from inside the code does the same to both machines, also if it fails. -/
theorem Twin.step (h : Twin count m k) (hm : count ≤ m.program.size) (hk : count ≤ k.program.size)
    (hip : m.halted = false → 0 ≤ m.cpu.ip ∧ m.cpu.ip < count) :
    Twin count m.step.2 k.step.2 ∧ Outcome.Alike m.step.1 k.step.1 := by
  cases hh : m.halted with
  | true =>
    have hh' : k.halted = true := h.halted.trans hh
    simp only [Machine.step,hh,hh',if_true]
    exact ⟨h,⟨rfl,rfl,rfl,rfl,rfl⟩⟩
  | false =>
    have hh' : k.halted = false := h.halted.trans hh
    have hin := hip hh
    obtain ⟨w,v,-,-,-,hw,hv,-⟩ := h.code m.cpu.ip.toNat (by omega)
    have hwsize := (Array.getElem?_eq_some_iff.mp hw).1
    have hvsize := (Array.getElem?_eq_some_iff.mp hv).1
    have hfetch : m.fetch = .ok m.fetched := fetch_eq_ok.mpr ⟨⟨hin.1,by omega,by omega⟩,rfl⟩
    have hfetch' : k.fetch = .ok k.fetched :=
      fetch_eq_ok.mpr ⟨⟨h.ip ▸ hin.1,by rw [h.ip]; omega,by rw [h.ip]; omega⟩,rfl⟩
    have heffects := h.execute hin
    simp only [Machine.step,hh,hh',hfetch,hfetch',Bool.false_eq_true,if_false]
    generalize m.fetched.execute = x at heffects ⊢
    generalize k.fetched.execute = y at heffects ⊢
    cases x <;> cases y <;> simp only [EffectsAlike] at heffects
    · exact ⟨h.fetched,Fault.alike heffects.1 heffects.2⟩
    · obtain ⟨htwin,htarget,hhalts,houtput⟩ := heffects
      exact ⟨htwin.apply htarget hhalts,⟨hhalts,houtput,rfl,rfl,rfl⟩⟩

theorem Sound.stepped (h : m.Sound) (n : Nat) :
    (m.stepped n).Sound ∧ (m.stepped n).build = m.build := by
  induction n with
  | zero => exact ⟨h,rfl⟩
  | succ n ih =>
    obtain ⟨hsound,hbuild⟩ := ih
    exact ⟨hsound.step.1,hsound.step.2.trans hbuild⟩

theorem Twin.runsAlike (h : Twin count m k) (hms : m.Sound) (hks : k.Sound)
    (hm : count ≤ m.program.size) (hk : count ≤ k.program.size) : RunsAlike count m k := by
  intro n hip
  induction n with
  | zero => exact ⟨h,by simp⟩
  | succ n ih =>
    obtain ⟨htwin,halike⟩ := ih fun i hi => hip i (by omega)
    obtain ⟨hmn,hmb⟩ := hms.stepped n
    obtain ⟨-,hkb⟩ := hks.stepped n
    have hmsize : (m.stepped n).program = m.program := congrArg (fun b => b.2.1) hmb
    have hksize : (k.stepped n).program = k.program := congrArg (fun b => b.2.1) hkb
    obtain ⟨hnext,hlast⟩ := htwin.step (hmsize ▸ hm) (hksize ▸ hk)
      fun hh => ⟨hmn.ip_nonneg,hip n (by omega) hh⟩
    refine ⟨hnext,?_⟩
    intro i hi
    obtain hi | rfl := Nat.lt_succ_iff_lt_or_eq.mp hi
    · exact halike i hi
    · exact hlast

/-! ### Boots -/

/-- Whether and why a machine does not boot depends on the number of words only. -/
theorem boot_cases (capacity : Nat) (isa isa' : InstructionSet) {words words' : List Int}
    (hlength : words'.length = words.length) (memorySize : Int) (resize : Bool)
    (input : List Char) :
    (∃ e, boot capacity isa words memorySize resize input = .error e ∧
      boot capacity isa' words' memorySize resize input = .error e) ∨
    ∃ m k, boot capacity isa words memorySize resize input = .ok m ∧
      boot capacity isa' words' memorySize resize input = .ok k := by
  simp only [boot,reset,Array.isEmpty,List.size_toArray,List.length_map,hlength]
  split
  · exact .inl ⟨_,rfl,rfl⟩
  · split
    · exact .inl ⟨_,rfl,rfl⟩
    · cases Cpu.cellCount capacity (grownSize memorySize words.length) with
      | error e => exact .inl ⟨_,rfl,rfl⟩
      | ok cells => exact .inr ⟨_,_,rfl,rfl⟩

end Machine

/-! ### Programs under other numbers -/

section
variable {f : Nat → Nat} {isa : InstructionSet} {p : Program} {image : Image}
variable {code : List ResolvedInstruction} {m k : Machine}

theorem Word.decode_renumber {w : Nat} (hw : w < 0x100000000)
    (hle : f (Word.decode w).1 ≤ 0xFFFF) :
    Word.decode (Word.renumber f w) = (f (Word.decode w).1,(Word.decode w).2) := by
  simp only [decode,unsigned_of_lt hw] at hle ⊢
  have hnew : renumber f w < 0x100000000 := by
    unfold renumber
    omega
  rw [unsigned_of_lt hnew]
  simp only [renumber,Prod.mk.injEq]
  omega

/-- An instruction of a program leaves the cells of the code alone. -/
theorem ResolvedInstruction.Bound.avoids {r : ResolvedInstruction} {role : Role}
    (hp : (p.vars.map Prod.fst).Nodup) (hb : r.Bound p role)
    (hfits : ∀ o, r.operand = some o → o.value ≤ 0xFFFF) :
    Avoids p.instructions.length role r.isImmediate (operandHalf r) := by
  cases hb with
  | plain htakes =>
    refine ⟨fun h => ?_,fun h => ?_⟩
    · simp [htakes] at h
    · simp [h,Role.takesOperand] at htakes
  | @direct i role name a htakes hjump ha =>
    refine ⟨fun _ _ => ?_,fun _ => rfl⟩
    obtain ⟨j,v,-,rfl⟩ := (Program.address?_eq_some hp).mp ha
    rw [operandHalf_natCast (hfits _ rfl)]
    omega
  | value hrole =>
    refine ⟨by simp,fun h => ?_⟩
    simp [h,Role.takesValue] at hrole
  | position hjump | label hjump =>
    refine ⟨by simp,fun h => ?_⟩
    simp [h,Role.isJump] at hjump

/-- The word of an instruction and the word with the new number are read as the same. -/
theorem Image.Linked.reads (hl : Image.Linked isa p code image) (hf : isa.Renumbers f) {i : Nat}
    (hi : i < p.instructions.length) :
    ∃ w role immediate operand, image.code[i]? = some w ∧
      isa.Reads (Word.signed w) role immediate operand ∧
      (isa.renumber f).Reads (Word.signed (Word.renumber f w)) role immediate operand ∧
      Avoids p.instructions.length role immediate operand := by
  obtain ⟨r,hr⟩ : ∃ r, code[i]? = some r :=
    ⟨_,List.getElem?_eq_getElem (hl.code_length.symm ▸ hi)⟩
  obtain ⟨w,e,role,hw,hencode,he,herole,himmediate,-,hb⟩ := hl.word i r hr
  have hmem : r.instruction.opcode ∈ isa.opcodes := by
    obtain ⟨hentry,hopcode⟩ := InstructionSet.mem_of_byOpcode? he
    exact InstructionSet.mem_opcodes.mpr ⟨e,hentry,by omega⟩
  have hdecode : Word.decode w = (r.instruction.opcode,operandHalf r) := by
    rw [Word.decode_encode hencode,operandHalf,Int.toNat_natCast]
  have hfind : (isa.renumber f).byOpcode? (f r.instruction.opcode) = some (e.renumber f) := by
    rw [InstructionSet.byOpcode?_renumber hf hmem,he,Option.map_some]
  have hnew : Word.decode (Word.renumber f w) = (f r.instruction.opcode,operandHalf r) := by
    rw [Word.decode_renumber (Word.encode_lt hencode) (by rw [hdecode]; exact hf.le _ hmem),hdecode]
  refine ⟨w,role,r.isImmediate,operandHalf r,hw,⟨e,?_,herole,himmediate,?_⟩,
    ⟨e.renumber f,?_,herole,himmediate,?_⟩,hb.avoids hl.program.vars_nodup ?_⟩
  · rw [Word.decode_signed,hdecode,he]
  · rw [Word.decode_signed,hdecode]
  · rw [Word.decode_signed,hnew,hfind]
  · rw [Word.decode_signed,hnew]
  · intro o ho
    rw [ho] at hencode
    exact (Word.operand_of_encode hencode).2

theorem Image.length_words_renumber : (image.renumber f).words.length = image.words.length := by
  simp [Image.words,Image.renumber]

/-- Machines that boot with an image and with the renumbered one are alike. -/
theorem twin_of_boot (hl : Image.Linked isa p code image) (hf : isa.Renumbers f)
    {capacity : Nat} {memorySize : Int} {resize : Bool} {input : List Char}
    (hm : boot capacity isa (image.words.map Int.ofNat) memorySize resize input = .ok m)
    (hk : boot capacity (isa.renumber f) ((image.renumber f).words.map Int.ofNat) memorySize resize
      input = .ok k) : Twin p.instructions.length m k := by
  have hcode : ∀ i < p.instructions.length, ∃ w v role immediate operand,
      m.cpu.memory[i]? = some w ∧ k.cpu.memory[i]? = some v ∧
      isa.Reads w role immediate operand ∧ (isa.renumber f).Reads v role immediate operand ∧
      Avoids p.instructions.length role immediate operand := by
    intro i hi
    obtain ⟨w,role,immediate,operand,hw,hreads,hreads',ha⟩ := hl.reads hf hi
    have hlt : i < image.code.length := hl.image_length.symm ▸ hi
    refine ⟨_,_,role,immediate,operand,getElem?_of_boot hm ?_,getElem?_of_boot hk ?_,hreads,
      hreads',ha⟩
    · rw [List.getElem?_map,Image.words,List.getElem?_append_left hlt,hw]
      rfl
    · rw [List.getElem?_map,Image.words,Image.renumber,
        List.getElem?_append_left (by simpa using hlt),List.getElem?_map,hw]
      rfl
  obtain ⟨-,-,cells,⟨hcells,-⟩,rfl⟩ := reset_eq_ok.mp hm
  obtain ⟨-,-,cells',⟨hcells',-⟩,rfl⟩ := reset_eq_ok.mp hk
  simp only [List.size_toArray,List.length_map,Image.length_words_renumber] at hcells hcells'
  obtain rfl : cells = cells' := Int.ofNat.inj (hcells.symm.trans hcells')
  refine ⟨rfl,rfl,rfl,rfl,rfl,rfl,rfl,rfl,?_,?_,hcode⟩
  · simp [Image.length_words_renumber]
  · intro i hi
    have hwords : (image.renumber f).words[i]? = image.words[i]? := by
      rw [← hl.image_length] at hi
      rw [Image.words,Image.words,List.getElem?_append_right (by simpa [Image.renumber] using hi),
        List.getElem?_append_right hi]
      simp [Image.renumber]
    simp only [Array.getElem?_append,List.size_toArray,List.length_map,
      Image.length_words_renumber,List.getElem?_toArray,List.getElem?_map,hwords]

theorem boot_renumber (hl : Image.Linked isa p code image) (hf : isa.Renumbers f)
    (capacity : Nat) (memorySize : Int) (resize : Bool) (input : List Char) :
    BootsAlike p.instructions.length
      (boot capacity isa (image.words.map Int.ofNat) memorySize resize input)
      (boot capacity (isa.renumber f) ((image.renumber f).words.map Int.ofNat) memorySize resize
        input) := by
  have hlength : ((image.renumber f).words.map Int.ofNat).length =
      (image.words.map Int.ofNat).length := by
    simp [Image.words,Image.renumber]
  have hcode : p.instructions.length ≤ (image.words.map Int.ofNat).length := by
    simp [Image.words,hl.image_length]
  obtain ⟨e,hm,hk⟩ | ⟨m,k,hm,hk⟩ :=
    boot_cases capacity isa (isa.renumber f) hlength memorySize resize input
  · rw [hm,hk]
    rfl
  · rw [hm,hk]
    have hmsize := program_size_of_boot hm
    have hksize := program_size_of_boot hk
    exact (twin_of_boot hl hf hm hk).runsAlike (sound_of_boot hm).1 (sound_of_boot hk).1
      (by omega) (by omega)

/-- Renumbering the bundled instruction set changes nothing but the numbers. Its text with the new
numbers is read to it; every source is accepted or refused as before, gives the same labelled
statements, and an image with the same data and with code that differs in the upper halves. A
machine boots as before, and as long as it stays inside the code, every step leaves the same
registers, flags, counters and variables and has the same outcome, also if it fails. -/
theorem renumbering_changes_only_numbers (hf : InstructionSet.bundled.Renumbers f)
    (tokens : List Token) :
    InstructionSet.parse InstructionSet.bundledSource (InstructionSet.renumberedText f) =
      .ok (InstructionSet.bundled.renumber f) ∧
    Program.parse (InstructionSet.bundled.renumber f) tokens =
      (Program.parse InstructionSet.bundled tokens).map (Program.renumber f) ∧
    ∀ p, Program.parse InstructionSet.bundled tokens = .ok p →
      (p.renumber f).resolve (InstructionSet.bundled.renumber f) =
        (p.resolve InstructionSet.bundled).map (List.map (ResolvedInstruction.renumber f)) ∧
      GotoProgram.ofProgram (InstructionSet.bundled.renumber f) (p.renumber f) =
        GotoProgram.ofProgram InstructionSet.bundled p ∧
      Image.ofProgram (InstructionSet.bundled.renumber f) (p.renumber f) =
        (Image.ofProgram InstructionSet.bundled p).map (Image.renumber f) ∧
      ∀ image, Image.ofProgram InstructionSet.bundled p = .ok image →
        ∀ capacity memorySize resize input, BootsAlike p.instructions.length
          (boot capacity InstructionSet.bundled (image.words.map Int.ofNat) memorySize resize
            input)
          (boot capacity (InstructionSet.bundled.renumber f)
            ((image.renumber f).words.map Int.ofNat) memorySize resize input) := by
  refine ⟨InstructionSet.parse_renumberedText hf,Program.parse_renumber tokens,?_⟩
  intro p hparse
  have hregular := InstructionSet.bundled_regular
  have hopcodes := Program.opcode_mem_of_parse hregular.keyword hparse
  have hle := InstructionSet.opcode_le_of_parse InstructionSet.parse_bundledText
  refine ⟨Program.resolve_renumber hf hopcodes,GotoProgram.ofProgram_renumber hregular hf hopcodes,
    Image.ofProgram_renumber hf hle hopcodes,?_⟩
  intro image himage capacity memorySize resize input
  have hp := Program.wellFormed_of_parse hregular.keyword hparse
  obtain ⟨code,-,hl⟩ := Image.linked_of_ofProgram hregular hp himage
  exact boot_renumber hl hf capacity memorySize resize input

end

/-- The numbers of `HALT` and `OUT` exchanged: the letter is shown, and then the program halts. -/
theorem renumbering_exchanges_halt_and_output :
    let f : Nat → Nat := fun o => if o = 0x0100 then 0x1200 else if o = 0x1200 then 0x0100 else o
    let tokens : List Token := [⟨"LOADI",1⟩,⟨"65",1⟩,⟨"OUT",2⟩,⟨"HALT",3⟩]
    let p : Program := ⟨[⟨0x0201,"LOADI",some "65",1⟩,⟨0x1200,"OUT",none,2⟩,⟨0x0100,"HALT",none,3⟩],
      [],[]⟩
    let image : Image := ⟨[0x02010041,0x12000000,0x01000000],[]⟩
    InstructionSet.bundled.Renumbers f ∧
    Program.parse InstructionSet.bundled tokens = .ok p ∧
    Image.ofProgram InstructionSet.bundled p = .ok image ∧
    (image.renumber f).words = [0x02010041,0x01000000,0x12000000] ∧
    ∃ k, boot 20 (InstructionSet.bundled.renumber f) ((image.renumber f).words.map Int.ofNat) 3
        false [] = .ok k ∧
      (k.stepped 1).step.1.output = some 'A' ∧ (k.stepped 3).halted = true ∧
      (k.stepped 3).cpu.acc = 65 := by
  intro f tokens p image
  have hf : InstructionSet.bundled.Renumbers f := by
    rw [InstructionSet.bundled_eq]
    exact ⟨by decide +kernel,by decide +kernel⟩
  let m : Machine := ⟨InstructionSet.bundled,#[0x02010041,0x12000000,0x01000000],3,false,
    { memory := #[0x02010041,0x12000000,0x01000000] },0,0,false,[]⟩
  have hparse : Program.parse InstructionSet.bundled tokens = .ok p := by
    rw [InstructionSet.bundled_eq]
    decide +kernel
  have himage : Image.ofProgram InstructionSet.bundled p = .ok image := by
    rw [InstructionSet.bundled_eq]
    decide +kernel
  have hboot : boot 20 InstructionSet.bundled (image.words.map Int.ofNat) 3 false [] = .ok m := rfl
  have hinside : ∀ i < 3, (m.stepped i).halted = false → (m.stepped i).cpu.ip < 3 := by
    simp only [m,InstructionSet.bundled_eq]
    decide +kernel
  obtain ⟨-,-,hprograms⟩ := renumbering_changes_only_numbers hf tokens
  obtain ⟨-,-,-,hboots⟩ := hprograms p hparse
  have halike := hboots image himage 20 3 false []
  rw [hboot] at halike
  obtain ⟨k,hk,hruns⟩ := halike.of_ok
  obtain ⟨htwin,houtcomes⟩ := hruns 3 hinside
  have hlast : (m.stepped 1).step.1.output = some 'A' ∧ (m.stepped 3).halted = true ∧
      (m.stepped 3).cpu.acc = 65 := by
    simp only [m,InstructionSet.bundled_eq]
    decide +kernel
  exact ⟨hf,hparse,himage,by decide,k,hk,(houtcomes 1 (by decide)).output.trans hlast.1,
    htwin.halted.trans hlast.2.1,htwin.acc.trans hlast.2.2⟩

end Micro86
