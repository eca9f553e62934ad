import Micro86.Proofs.Machine.Simulation

/-!
The end of the code, where the variables begin. A program without variables cannot go on from
there, but nothing tells the machine where the code ends in a program that has some: it fetches the
first variable as the next word. The run ends there exactly if that word has no known opcode. So it
always does if the first variable starts with such a word and is never stored to; a variable that
holds the word of an instruction is carried out.
-/
namespace Micro86

open Machine

/-- The run ends before the cell at an address is carried out: the next step fails at that address,
because there is no more program or because the cell is no instruction. -/
def Machine.EndsAt (m : Machine) (address : Nat) : Prop :=
  ∃ f, m.step.1 = { fault := some f } ∧ f.address = address ∧
    f.cause ∈ [.memoryViolation,.programEnd,.invalidInstruction]

/-- The first variable, if there is one, starts without a known opcode and is never stored to. -/
def Program.Closed (isa : InstructionSet) (p : Program) (code : List ResolvedInstruction) : Prop :=
  ∀ v ∈ p.vars.head?, isa.byOpcode? (Word.decode v.2).1 = none ∧
    ∀ r ∈ code, r.role = some .store → r.operand.map Operand.text ≠ some v.1

instance (isa : InstructionSet) (p : Program) (code : List ResolvedInstruction) :
    Decidable (p.Closed isa code) :=
  inferInstanceAs (Decidable (∀ v ∈ p.vars.head?, _ ∧ _))

variable {isa : InstructionSet} {p : Program} {image : Image} {code : List ResolvedInstruction}
variable {s t : SourceState} {m k : Machine}

/-! ### Runs that end -/

namespace Machine

/-- A run ends at an address exactly if the program does not reach there, or if there is a word
without a known opcode. -/
theorem endsAt_iff (hs : m.Sound) (hisa : m.isa.Regular)
    (hm : m.halted = false) {address : Nat} (hip : m.cpu.ip = address) :
    m.EndsAt address ↔ m.program.size ≤ address ∨
      ∃ w, m.cpu.memory[address]? = some w ∧ m.isa.byOpcode? (Word.decode w).1 = none := by
  have hprogram := hs.program_le
  have hfetch := fetch_eq_ok (m := m) (k := m.fetched)
  obtain ⟨hh,-⟩ | ⟨-,f,hf,hstep⟩ | ⟨-,f,hf,he,hstep⟩ | ⟨-,e,hf,he,hstep⟩ := m.step_cases
  · simp [hm] at hh
  · -- the fetch fails, and only behind the program
    obtain ⟨haddress,hcause⟩ := fetch_eq_error hf
    have hends : m.EndsAt address :=
      ⟨f,by rw [hstep],haddress.trans hip,by obtain h | h := hcause <;> simp [h]⟩
    have hbehind : m.program.size ≤ address := by
      rw [hf] at hfetch
      simp only [reduceCtorEq,false_iff,and_true] at hfetch
      omega
    simp [hends,hbehind]
  all_goals
    have hin := (hfetch.mp hf).1
    have hbound : address < m.cpu.memory.size := by omega
    have hcell : m.cpu.memory[address]? = some m.fetched.cpu.ir := by
      simp [fetched,hip,hbound]
    have hbehind : ¬m.program.size ≤ address := by omega
    simp only [hbehind,false_or,hcell,Option.some.injEq,exists_eq_left']
  · -- the word is no instruction, or one that fails
    have hset : m.fetched.isa = m.isa := rfl
    unfold execute at he
    simp only [hset] at he
    cases hd : m.isa.byOpcode? (Word.decode m.fetched.cpu.ir).1 with
    | none =>
      simp only [hd] at he
      cases he
      simp only [iff_true]
      exact ⟨_,by rw [hstep],by simp [fetched,hip],by simp⟩
    | some d =>
      obtain ⟨role,hrole⟩ := Option.isSome_iff_exists.mp (hisa.role_isSome hd)
      simp only [hd,hrole] at he
      simp only [reduceCtorEq,iff_false]
      rintro ⟨g,hg,haddress,hcause⟩
      rw [hstep] at hg
      cases hg
      obtain h | h | ⟨-,hoperand,hlarge⟩ := perform_eq_error he
      · simp [h] at hcause
      · simp [h] at hcause
      · have hmemory : m.fetched.cpu.memory = m.cpu.memory := rfl
        rw [hmemory] at hlarge
        omega
  · -- an instruction is carried out
    obtain ⟨d,role,hd,-⟩ := execute_eq_ok.mp he
    have hset : m.fetched.isa = m.isa := rfl
    rw [hset] at hd
    simp only [hd,reduceCtorEq,iff_false]
    rintro ⟨g,hg,-⟩
    simp [hstep] at hg

/-- A run that has gone on to a machine goes on from there. -/
theorem runFor_of_after {n : Nat} {shown : String} (h : m.after n = .ok (k,shown))
    (hk : k.halted = false) {α : Type} (note : α → Outcome → α) (a : α) :
    ∃ b, ∀ j, m.runFor note (n+j) a = k.runFor note j b := by
  induction n generalizing k shown with
  | zero =>
    cases h
    exact ⟨a,fun j => by rw [Nat.zero_add]⟩
  | succ n ih =>
    obtain ⟨⟨l,text⟩,hl,h⟩ := bind_eq_ok.mp h
    simp only [proceed] at h
    obtain ⟨hh,hstep⟩ | ⟨-,f,-,hstep⟩ | ⟨-,f,-,-,hstep⟩ | ⟨hh,e,-,-,hstep⟩ := l.step_cases
    · rw [hstep] at h
      cases h
      simp [hh] at hk
    · simp [hstep] at h
    · simp [hstep] at h
    · rw [hstep] at h
      cases h
      obtain ⟨b,hb⟩ := ih hl hh
      have hgoes : e.halts = false := by
        simp only [apply,Bool.or_eq_false_iff] at hk
        exact hk.2
      refine ⟨note b l.step.1,?_⟩
      intro j
      rw [Nat.add_assoc,hb,Nat.add_comm 1 j]
      simp only [runFor,hstep,Outcome.isFinal,hgoes]
      rfl

end Machine

/-! ### Variables that are never stored to -/

theorem store_of_perform {r : ResolvedInstruction} {role : Role} {name : String}
    (hname : role = .store → r.operand.map Operand.text ≠ some name)
    (h : s.perform r role = .ok t) : t.store name = s.store name := by
  cases role with
  | halt | output => cases h; rfl
  | input =>
    simp only [SourceState.perform] at h
    split at h
    · simp at h
    · cases h; rfl
  | store =>
    obtain ⟨other,hother,h⟩ := bind_eq_ok.mp h
    cases h
    have hne : name ≠ other := by
      rintro rfl
      apply hname rfl
      unfold SourceState.destination at hother
      split at hother
      · simp at hother
      · next o ho =>
        split at hother
        · simp at hother
        · cases hother
          rw [ho,Option.map_some]
    exact if_neg hne
  | jmp | je | jne | jl | jle | jg | jge =>
    obtain ⟨n,-,h⟩ := bind_eq_ok.mp h
    cases h
    unfold SourceState.goto
    split <;> rfl
  | load | add | sub | mul | div | mod | cmp =>
    obtain ⟨v,-,h⟩ := bind_eq_ok.mp h
    cases h
    rfl

theorem store_of_after {name : String}
    (hname : ∀ r ∈ code, r.role = some .store → r.operand.map Operand.text ≠ some name)
    {n : Nat} (h : s.after code n = .ok t) : t.store name = s.store name := by
  induction n generalizing t with
  | zero =>
    cases h
    rfl
  | succ n ih =>
    obtain ⟨u,hu,h⟩ := bind_eq_ok.mp h
    rw [← ih hu]
    unfold SourceState.step at h
    split at h
    · cases h
      rfl
    · split at h
      · simp at h
      · next r hr =>
        split at h
        · simp at h
        · next role hrole =>
          refine store_of_perform ?_ (mapError_eq_ok.mp h)
          rintro rfl
          exact hname r (List.mem_of_getElem? hr) hrole

/-! ### Runs to the end of the code -/

section
variable {capacity : Nat} {memorySize : Int} {resize : Bool} {input : List Char} {n : Nat}
variable {shown : String}

/-- A run keeps the instruction set, and a program with a word for every instruction and every
variable. -/
theorem sound_of_after (hl : Image.Linked isa p code image)
    (hboot : boot capacity isa (image.words.map Int.ofNat) memorySize resize input = .ok m)
    (h : m.after n = .ok (k,shown)) :
    k.Sound ∧ k.isa = isa ∧ k.program.size = p.instructions.length+p.vars.length := by
  obtain ⟨hsound,hbuild⟩ := sound_of_boot hboot
  obtain ⟨hk,hsame⟩ := hsound.reaches (reaches_of_after h)
  have hprogram : k.program = m.program := congrArg (fun b => b.2.1) hsame
  refine ⟨hk,congrArg (fun b => b.1) (hsame.trans hbuild),?_⟩
  rw [hprogram,program_size_of_boot hboot]
  simp [Image.words,hl.image_length,hl.data]

/-- With its first variable closed, a program that has come to the end of its code ends there. -/
theorem endsAt_of_closed (hl : Image.Linked isa p code image)
    (hisa : isa.Regular) (hclosed : p.Closed isa code)
    (hboot : boot capacity isa (image.words.map Int.ofNat) memorySize resize input = .ok m)
    (hafter : m.after n = .ok (k,shown)) (hk : k.halted = false)
    (hip : k.cpu.ip = p.instructions.length)
    (ht : (SourceState.start p input).after code n = .ok t) (h : Agrees p image t k) :
    k.EndsAt p.instructions.length := by
  obtain ⟨hs,rfl,hsize⟩ := sound_of_after hl hboot hafter
  rw [endsAt_iff hs hisa hk hip]
  cases hvars : p.vars with
  | nil =>
    rw [hvars] at hsize
    exact .inl (by simp [hsize])
  | cons v rest =>
    obtain ⟨name,value⟩ := v
    obtain ⟨hopcode,hstored⟩ := hclosed (name,value) (by simp [hvars])
    have haddress : p.address? name = some p.instructions.length :=
      (Program.address?_eq_some hl.program.vars_nodup).mpr ⟨0,value,by simp [hvars],rfl⟩
    have hstart : (SourceState.start p input).store name = value := by
      simp [SourceState.start,hvars]
    refine .inr ⟨value,?_,hopcode⟩
    rw [h.vars name _ haddress,store_of_after hstored ht,hstart]

/-- With its first variable closed, no step of a program that goes on is taken from the end of its
code. -/
theorem inside_of_closed (hl : Image.Linked isa p code image)
    (hisa : isa.Regular) (hclosed : p.Closed isa code)
    (hboot : boot capacity isa (image.words.map Int.ofNat) memorySize resize input = .ok m)
    (hafter : m.after n = .ok (k,shown)) :
    ∀ i < n, ∀ t, (SourceState.start p input).after code i = .ok t → t.halted = false →
      t.pc < p.instructions.length := by
  induction n generalizing k shown with
  | zero => exact fun i hi => absurd hi (Nat.not_lt_zero i)
  | succ n ih =>
    obtain ⟨⟨l,text⟩,hl',hproceed⟩ := bind_eq_ok.mp hafter
    have hbefore := ih hl'
    intro i hi t ht hgoing
    obtain hi | rfl := Nat.lt_succ_iff_lt_or_eq.mp hi
    · exact hbefore i hi t ht hgoing
    -- the last step: from the end of the code it would fail
    have hle := pc_le_of_after hl (Nat.zero_le _) i hbefore ht
    have hmatches := boot_agrees hl hboot i hbefore
    rw [ht,hl'] at hmatches
    obtain ⟨hagrees,-⟩ := hmatches
    by_contra hend
    have hip : l.cpu.ip = p.instructions.length := by
      rw [hagrees.ip]
      omega
    obtain ⟨f,hf,-⟩ := endsAt_of_closed hl hisa hclosed hboot hl' (hagrees.halted.trans hgoing)
      hip ht hagrees
    simp [proceed,hf] at hproceed

end

/-- When an assembled program has come to the end of its code, the run ends there exactly if there
are no variables or the word of the first one has no known opcode; every longer run reports that
end. A program whose first variable starts with such a word and is never stored to stays in its
code, and every way to the end of the code ends the run. -/
theorem run_ends_at_code_end_iff {tokens : List Token} {capacity : Nat} {memorySize : Int}
    {resize : Bool} {input : List Char} (hparse : Program.parse InstructionSet.bundled tokens = .ok p)
    (hcode : p.resolve InstructionSet.bundled = .ok code)
    (himage : Image.ofProgram InstructionSet.bundled p = .ok image)
    (hboot : boot capacity InstructionSet.bundled (image.words.map Int.ofNat) memorySize resize
      input = .ok m) :
    (∀ n k shown, m.after n = .ok (k,shown) → k.halted = false →
      k.cpu.ip = p.instructions.length →
      (k.EndsAt p.instructions.length ↔ p.vars = [] ∨
        ∃ w, k.cpu.memory[p.instructions.length]? = some w ∧
          InstructionSet.bundled.byOpcode? (Word.decode w).1 = none) ∧
      (k.EndsAt p.instructions.length →
        ∀ (α : Type) (note : α → Outcome → α) (a : α) (j : Nat),
          (m.runFor note (n+(j+1)) a).1 = some k.step.1)) ∧
    (p.Closed InstructionSet.bundled code → ∀ n k shown, m.after n = .ok (k,shown) →
      k.cpu.ip ≤ p.instructions.length ∧
      (k.halted = false → k.cpu.ip = p.instructions.length →
        k.EndsAt p.instructions.length)) := by
  have hp := Program.wellFormed_of_parse InstructionSet.bundled_regular.keyword hparse
  obtain ⟨code',hcode',hl⟩ := Image.linked_of_ofProgram InstructionSet.bundled_regular hp himage
  obtain rfl : code = code' := Except.ok.inj (hcode.symm.trans hcode')
  refine ⟨?_,?_⟩
  · intro n k shown hafter hk hip
    obtain ⟨hs,hset,hsize⟩ := sound_of_after hl hboot hafter
    refine ⟨?_,?_⟩
    · rw [endsAt_iff hs (hset ▸ InstructionSet.bundled_regular) hk hip,hset,hsize]
      have hnone : p.instructions.length+p.vars.length ≤ p.instructions.length ↔ p.vars = [] := by
        rw [← List.length_eq_zero_iff]
        omega
      rw [hnone]
    · rintro ⟨f,hf,-⟩ α note a j
      obtain ⟨b,hb⟩ := runFor_of_after hafter hk note a
      rw [hb]
      simp [runFor,hf,Outcome.isFinal]
  · intro hclosed n k shown hafter
    have hinside := inside_of_closed hl InstructionSet.bundled_regular hclosed hboot hafter
    have hmatches := boot_agrees hl hboot n hinside
    rw [hafter] at hmatches
    cases ht : (SourceState.start p input).after code n with
    | error e => simp [ht,Matches] at hmatches
    | ok t =>
      rw [ht] at hmatches
      obtain ⟨hagrees,-⟩ := hmatches
      refine ⟨?_,?_⟩
      · have hle := pc_le_of_after hl (Nat.zero_le _) n hinside ht
        rw [hagrees.ip]
        omega
      · intro hk hip
        exact endsAt_of_closed hl InstructionSet.bundled_regular hclosed hboot hafter hk hip ht
          hagrees

/-- A jump over the last instruction to a variable that holds no instruction. -/
theorem run_ends_at_code_end_of_jump :
    let tokens : List Token := [⟨"JMPI",1⟩,⟨"end",1⟩,⟨"HALT",2⟩,⟨"end:",3⟩,⟨"VAR",3⟩,⟨"x",3⟩,
      ⟨"-1",3⟩]
    let p : Program := ⟨[⟨0x0A01,"JMPI",some "end",1⟩,⟨0x0100,"HALT",none,2⟩],[("end",2)],
      [("x",-1)]⟩
    let image : Image := ⟨[0x0A010002,0x01000000],[0xFFFFFFFF]⟩
    let m : Machine := ⟨InstructionSet.bundled,#[0x0A010002,0x01000000,-1],3,false,
      { memory := #[0x0A010002,0x01000000,-1] },0,0,false,[]⟩
    let k : Machine := { m with steps := 1, cpu := { m.cpu with ip := 2, ir := 0x0A010002 } }
    Program.parse InstructionSet.bundled tokens = .ok p ∧
    Image.ofProgram InstructionSet.bundled p = .ok image ∧
    boot 20 InstructionSet.bundled (image.words.map Int.ofNat) 3 false [] = .ok m ∧
    m.after 1 = .ok (k,"") ∧ k.EndsAt 2 := by
  intro tokens p image m k
  have hparse : Program.parse InstructionSet.bundled tokens = .ok p := by
    rw [InstructionSet.bundled_eq]
    decide +kernel
  have hcode : p.resolve InstructionSet.bundled = .ok [
      ⟨⟨0x0A01,"JMPI",some "end",1⟩,some .jmp,true,some ⟨.label,"end",2⟩⟩,
      ⟨⟨0x0100,"HALT",none,2⟩,some .halt,false,none⟩] := by
    rw [InstructionSet.bundled_eq]
    decide +kernel
  have himage : Image.ofProgram InstructionSet.bundled p = .ok image := by
    rw [InstructionSet.bundled_eq]
    decide +kernel
  have hboot : boot 20 InstructionSet.bundled (image.words.map Int.ofNat) 3 false [] = .ok m := rfl
  have hafter : m.after 1 = .ok (k,"") := by
    simp only [m,k,InstructionSet.bundled_eq]
    decide +kernel
  obtain ⟨-,hclosed⟩ := run_ends_at_code_end_iff hparse hcode himage hboot
  have hends := (hclosed (by rw [InstructionSet.bundled_eq]; decide +kernel) 1 k "" hafter).2
  exact ⟨hparse,himage,hboot,hafter,hends rfl rfl⟩

/-- A variable that holds the word of a halt: the run goes on from the end of the code, and the
machine reports that it has halted. -/
theorem variable_runs_as_halt :
    let tokens : List Token := [⟨"LOADI",1⟩,⟨"1",1⟩,⟨"VAR",2⟩,⟨"x",2⟩,⟨"16777216",2⟩]
    let p : Program := ⟨[⟨0x0201,"LOADI",some "1",1⟩],[],[("x",0x01000000)]⟩
    let image : Image := ⟨[0x02010001],[0x01000000]⟩
    let m : Machine := ⟨InstructionSet.bundled,#[0x02010001,0x01000000],20,false,
      { memory := #[0x02010001,0x01000000] ++ Array.replicate 18 0 },0,0,false,[]⟩
    let k : Machine := { m with
      steps := 1, cpu := { m.cpu with acc := 1, ip := 1, ir := 0x02010001 } }
    Program.parse InstructionSet.bundled tokens = .ok p ∧
    Image.ofProgram InstructionSet.bundled p = .ok image ∧
    boot 20 InstructionSet.bundled (image.words.map Int.ofNat) 20 false [] = .ok m ∧
    m.after 1 = .ok (k,"") ∧ k.halted = false ∧ k.cpu.ip = p.instructions.length ∧
    k.step.1.fault = none ∧ k.step.1.halted = true ∧ k.step.2.current = p.instructions.length := by
  intro tokens p image m k
  have hparse : Program.parse InstructionSet.bundled tokens = .ok p := by
    rw [InstructionSet.bundled_eq]
    decide +kernel
  have himage : Image.ofProgram InstructionSet.bundled p = .ok image := by
    rw [InstructionSet.bundled_eq]
    decide +kernel
  have hboot : boot 20 InstructionSet.bundled (image.words.map Int.ofNat) 20 false [] = .ok m := rfl
  have hafter : m.after 1 = .ok (k,"") := by
    simp only [m,k,InstructionSet.bundled_eq]
    decide +kernel
  refine ⟨hparse,himage,hboot,hafter,rfl,rfl,?_⟩
  simp only [p,m,k,InstructionSet.bundled_eq]
  decide +kernel

end Micro86
