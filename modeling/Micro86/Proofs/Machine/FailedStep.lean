import Micro86.Proofs.Machine.Procedure

/-!
Steps that fail. An instruction finds out that it cannot be carried out before it has changed
anything, and so does a fetch. What is left of a step that fails is the fetch, if there was one.
-/
namespace Micro86.Machine

variable {m k : Machine} {f : Fault}

/-- A step fails in the fetch, or behind it. -/
theorem step_of_fault (hf : m.step.1.fault = some f) :
    m.halted = false ∧ m.step.1 = { fault := some f } ∧
    ((m.fetch = .error f ∧ m.step.2 = m) ∨
      (m.fetch = .ok m.fetched ∧ m.fetched.execute = .error f ∧ m.step.2 = m.fetched)) := by
  obtain ⟨-,hs⟩ | ⟨hh,g,hg,hs⟩ | ⟨hh,g,hg,he,hs⟩ | ⟨-,e,-,-,hs⟩ := m.step_cases
  · simp [hs] at hf
  · rw [hs] at hf ⊢
    cases hf
    exact ⟨hh,rfl,.inl ⟨hg,rfl⟩⟩
  · rw [hs] at hf ⊢
    cases hf
    exact ⟨hh,rfl,.inr ⟨hg,he,rfl⟩⟩
  · simp [hs] at hf

/-- Behind the fetch the program has not come to its end, and a cell that is missing is not the one
that was fetched. -/
theorem execute_fault_ne (hfetch : m.fetch = .ok m.fetched) (he : m.fetched.execute = .error f) :
    ¬((f.cause = .memoryViolation ∨ f.cause = .programEnd) ∧ f.address = m.cpu.ip) := by
  obtain ⟨⟨-,hip,-⟩,-⟩ := fetch_eq_ok.mp hfetch
  obtain hcause | ⟨immediate,role,hperform⟩ := execute_eq_error he
  · simp [hcause]
  · obtain hcause | hcause | ⟨-,haddress,hsize⟩ := perform_eq_error hperform
    · simp [hcause]
    · simp [hcause]
    · have hsame : m.fetched.cpu.memory.size = m.cpu.memory.size := rfl
      rw [haddress]
      omega

/-- A step that fails keeps the accumulator, the flags, the memory, the number of steps and the
input, also where it is taken in place. A fault at the instruction pointer, for want of a cell or of
a program, comes from the fetch, and then nothing at all is changed; any other fault comes when the
fetch is done, and nothing else. -/
theorem failed_step_changes_nothing_but_fetch {capacity : Nat} {isa : InstructionSet}
    {words : List Int} {memorySize : Int} {resize : Bool} {input : List Char}
    (hboot : boot capacity isa words memorySize resize input = .ok m) (hr : m.Reaches k)
    (hf : k.step.1.fault = some f) :
    Procedure.step.run k = .ok k.step.1 k.step.2 ∧
    k.step.2.cpu.acc = k.cpu.acc ∧ k.step.2.cpu.zero = k.cpu.zero ∧
    k.step.2.cpu.sign = k.cpu.sign ∧ k.step.2.cpu.memory = k.cpu.memory ∧
    k.step.2.steps = k.steps ∧ k.step.2.halted = k.halted ∧ k.step.2.input = k.input ∧
    k.step.2.build = k.build ∧
    (k.fetch = .error f ↔
      (f.cause = .memoryViolation ∨ f.cause = .programEnd) ∧ f.address = k.cpu.ip) ∧
    (k.fetch = .error f → k.step.2.cpu.ip = k.cpu.ip ∧ k.step.2.cpu.ir = k.cpu.ir ∧
      k.step.2.current = k.current) ∧
    (k.fetch ≠ .error f → k.step.2.cpu.ip = k.cpu.ip+1 ∧ k.step.2.current = k.cpu.ip ∧
      k.cpu.memory[k.cpu.ip.toNat]? = some k.step.2.cpu.ir) := by
  have hk := ((sound_of_boot hboot).1.reaches hr).1
  refine ⟨Procedure.run_step hk.fits,?_⟩
  obtain ⟨-,-,⟨hfetch,hstep⟩ | ⟨hfetch,he,hstep⟩⟩ := step_of_fault hf
  · obtain ⟨haddress,hcause⟩ := fetch_eq_error hfetch
    rw [hstep]
    refine ⟨rfl,rfl,rfl,rfl,rfl,rfl,rfl,rfl,?_,fun _ => ⟨rfl,rfl,rfl⟩,fun hne => absurd hfetch hne⟩
    exact ⟨fun _ => ⟨hcause,haddress⟩,fun _ => hfetch⟩
  · obtain ⟨⟨hnonneg,hip,-⟩,-⟩ := fetch_eq_ok.mp hfetch
    have hne : k.fetch ≠ .error f := by
      rw [hfetch]
      simp
    rw [hstep]
    refine ⟨rfl,rfl,rfl,rfl,rfl,rfl,rfl,rfl,?_,fun h => absurd h hne,fun _ => ⟨rfl,?_,?_⟩⟩
    · exact ⟨fun h => absurd h hne,fun h => absurd h (execute_fault_ne hfetch he)⟩
    · exact Int.toNat_of_nonneg hnonneg
    · have hlt : k.cpu.ip.toNat < k.cpu.memory.size := by omega
      simp [fetched,hlt]

/-- A division by zero with something in the accumulator and something to read. -/
theorem failed_step_changes_nothing_but_fetch_division :
    let isa : InstructionSet :=
      ⟨"set",[⟨"LOAD#",1,true,true,some .load,1⟩,⟨"DIV",2,true,false,some .div,2⟩]⟩
    let m : Machine := ⟨isa,#[0x10007,0x20002],3,false,
      { memory := #[0x10007,0x20002,0] },0,0,false,['x']⟩
    let k := m.step.2
    boot 20 isa [0x10007,0x20002] 3 false ['x'] = .ok m ∧ m.Reaches k ∧
    k.step.1.fault = some ⟨.divisionByZero,1,0x20002⟩ ∧
    k.cpu.acc = 7 ∧ k.step.2.cpu.acc = k.cpu.acc ∧ k.step.2.input = k.input ∧
    k.step.2.steps = k.steps ∧ k.step.2.cpu.memory = k.cpu.memory ∧ k.step.2.cpu.ip = 2 := by
  intro isa m k
  have hboot : boot 20 isa [0x10007,0x20002] 3 false ['x'] = .ok m := by decide
  have hr : m.Reaches k := Reaches.start.call .step
  have hf : k.step.1.fault = some ⟨.divisionByZero,1,0x20002⟩ := by decide
  obtain ⟨-,hacc,-,-,hmemory,hsteps,-,hinput,-⟩ :=
    failed_step_changes_nothing_but_fetch hboot hr hf
  exact ⟨hboot,hr,hf,by decide,hacc,hinput,hsteps,hmemory,by decide⟩

end Micro86.Machine
