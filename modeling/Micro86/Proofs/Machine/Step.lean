import Micro86.Machine.Step
import Micro86.Proofs.Fallible

/-!
What a step can do, said once. A fetch changes the current address and two registers; an
instruction does one of seven things to the machine, or fails for one of a few causes; and a step is
idle, or fails in the fetch or behind it, or does what the fetched instruction does.
-/
namespace Micro86.Machine

variable {m : Machine}

/-- A machine with the word at its instruction pointer fetched. -/
def fetched (m : Machine) : Machine :=
  { m with
    current := m.cpu.ip.toNat
    cpu := { m.cpu with ip := m.cpu.ip+1, ir := m.cpu.memory.getD m.cpu.ip.toNat 0 } }

theorem inBounds_iff {c : Cpu} {address : Int} :
    c.inBounds address ↔ 0 ≤ address ∧ address < c.memory.size := by
  simp [Cpu.inBounds]

theorem fetch_eq_ok {k : Machine} :
    m.fetch = .ok k ↔ (0 ≤ m.cpu.ip ∧ m.cpu.ip < m.cpu.memory.size ∧
      m.cpu.ip < m.program.size) ∧ k = m.fetched := by
  unfold fetch
  split
  · next hout =>
    have hin : ¬(0 ≤ m.cpu.ip ∧ m.cpu.ip < m.cpu.memory.size) := by
      rw [← inBounds_iff]
      simpa using hout
    simp only [reduceCtorEq,false_iff]
    rintro ⟨⟨h0,hsize,-⟩,-⟩
    exact hin ⟨h0,hsize⟩
  · next hin =>
    have hin : 0 ≤ m.cpu.ip ∧ m.cpu.ip < m.cpu.memory.size := by
      rw [← inBounds_iff]
      simpa using hin
    split
    · next hend =>
      simp only [reduceCtorEq,false_iff]
      rintro ⟨⟨-,-,hlt⟩,-⟩
      omega
    · next hend =>
      rw [Except.ok.injEq,eq_comm]
      exact ⟨fun h => ⟨⟨hin.1,hin.2,Int.not_le.mp hend⟩,h⟩,fun h => h.2⟩

theorem read_eq_ok {address v : Int} :
    m.read address = .ok v ↔
      (0 ≤ address ∧ address < m.cpu.memory.size) ∧ v = m.cpu.memory.getD address.toNat 0 := by
  unfold read
  split
  · next h => simp [inBounds_iff.mp h,eq_comm]
  · next h => simp [mt inBounds_iff.mpr h]

theorem write_eq_ok {address value : Int} {k : Machine} :
    m.write address value = .ok k ↔
      (0 ≤ address ∧ address < m.cpu.memory.size) ∧
      k = { m with cpu := { m.cpu with
        memory := m.cpu.memory.setIfInBounds address.toNat (Word.signed value) } } := by
  unfold write
  split
  · next h => simp [inBounds_iff.mp h,eq_comm]
  · next h => simp [mt inBounds_iff.mpr h]

/-! ### Instructions -/

/-- The effects that an instruction with this operand can have. -/
inductive Does (m : Machine) (operand : Nat) : Effect → Prop
  | halt : Does m operand { machine := m, halts := true }
  | accumulate (n : Int) : Does m operand (m.accumulate n)
  | store {k : Machine} (h : m.write operand m.cpu.acc = .ok k) : Does m operand { machine := k }
  | compare (n : Int) :
      Does m operand { machine := { m with cpu := m.cpu.setFlags n } }
  | jump (taken : Bool) : Does m operand (m.jumpIf operand taken)
  | input {c : Char} {rest : List Char} (h : m.input = c :: rest) (n : Int) :
      Does m operand (accumulate { m with input := rest } n)
  | output (c : Char) : Does m operand { machine := m, output := some c }

theorem perform_does {operand : Nat} {immediate : Bool} {role : Role} {e : Effect}
    (h : m.perform operand immediate role = .ok e) : m.Does operand e := by
  cases role with
  | halt => cases h; exact .halt
  | store =>
    obtain ⟨k,hk,h⟩ := bind_eq_ok.mp h
    cases h
    exact .store hk
  | cmp =>
    obtain ⟨v,-,h⟩ := bind_eq_ok.mp h
    cases h
    exact .compare _
  | input =>
    simp only [perform] at h
    split at h
    · simp at h
    · next hinput => cases h; exact .input hinput _
  | output => cases h; exact .output _
  | jmp | je | jne | jl | jle | jg | jge => cases h; exact .jump _
  | load | add | sub | mul | div | mod =>
    obtain ⟨v,-,h⟩ := bind_eq_ok.mp h
    cases h
    exact .accumulate _

/-- An instruction that is carried out has an entry with a role. -/
theorem execute_eq_ok {e : Effect} :
    m.execute = .ok e ↔ ∃ d role, m.isa.byOpcode? (Word.decode m.cpu.ir).1 = some d ∧
      d.role = some role ∧ m.perform (Word.decode m.cpu.ir).2 d.isImmediate role = .ok e := by
  unfold execute
  cases hd : m.isa.byOpcode? (Word.decode m.cpu.ir).1 with
  | none => simp [hd]
  | some d => cases hrole : d.role <;> simp [hd,hrole]

theorem execute_does {e : Effect} (h : m.execute = .ok e) :
    m.Does (Word.decode m.cpu.ir).2 e := by
  obtain ⟨d,role,-,-,hperform⟩ := execute_eq_ok.mp h
  exact perform_does hperform

/-! ### Faults -/

theorem value_eq_error {operand : Nat} {immediate : Bool} {f : Fault}
    (h : m.value operand immediate = .error f) :
    f.cause = .memoryViolation ∧ f.address = operand ∧ m.cpu.memory.size ≤ operand := by
  unfold value read at h
  split at h
  · simp at h
  · split at h
    · simp at h
    · next hout =>
      cases h
      rw [inBounds_iff] at hout
      exact ⟨rfl,rfl,by omega⟩

theorem divisor_eq_error {operand : Nat} {immediate : Bool} {f : Fault}
    (h : m.divisor operand immediate = .error f) :
    f.cause = .divisionByZero ∨ m.value operand immediate = .error f := by
  unfold divisor at h
  cases hv : m.value operand immediate with
  | error g =>
    rw [hv] at h
    exact .inr h
  | ok d =>
    rw [hv,ok_bind] at h
    split at h
    · cases h
      exact .inl rfl
    · simp at h

/-- An instruction fails at the cell that its operand names, if there is none, or for a cause of
its own. -/
theorem perform_eq_error {operand : Nat} {immediate : Bool} {role : Role} {f : Fault}
    (h : m.perform operand immediate role = .error f) :
    f.cause = .divisionByZero ∨ f.cause = .noInput ∨
    (f.cause = .memoryViolation ∧ f.address = operand ∧ m.cpu.memory.size ≤ operand) := by
  cases role with
  | halt | jmp | je | jne | jl | jle | jg | jge | output => simp [perform] at h
  | input =>
    simp only [perform] at h
    split at h
    · cases h
      exact .inr (.inl rfl)
    · simp at h
  | store =>
    simp only [perform,write] at h
    split at h
    · simp at h
    · next hout =>
      cases h
      rw [inBounds_iff] at hout
      exact .inr (.inr ⟨rfl,rfl,by omega⟩)
  | div | mod =>
    simp only [perform] at h
    cases hd : m.divisor operand immediate with
    | ok d => simp [hd] at h
    | error g =>
      rw [hd,error_bind] at h
      cases h
      obtain hzero | hv := divisor_eq_error hd
      · exact .inl hzero
      · exact .inr (.inr (value_eq_error hv))
  | load | add | sub | mul | cmp =>
    simp only [perform] at h
    cases hv : m.value operand immediate with
    | ok v => simp [hv] at h
    | error g =>
      rw [hv,error_bind] at h
      cases h
      exact .inr (.inr (value_eq_error hv))

theorem fetch_eq_error {f : Fault} (h : m.fetch = .error f) :
    f.address = m.cpu.ip ∧ (f.cause = .memoryViolation ∨ f.cause = .programEnd) := by
  unfold fetch at h
  split at h
  · cases h
    exact ⟨rfl,.inl rfl⟩
  · split at h
    · cases h
      exact ⟨rfl,.inr rfl⟩
    · simp at h

/-- A fetched word fails because it is no instruction, or as the instruction that it is. -/
theorem execute_eq_error {f : Fault} (h : m.execute = .error f) :
    f.cause = .invalidInstruction ∨ ∃ immediate role,
      m.perform (Word.decode m.cpu.ir).2 immediate role = .error f := by
  unfold execute at h
  cases hd : m.isa.byOpcode? (Word.decode m.cpu.ir).1 with
  | none =>
    simp only [hd] at h
    cases h
    exact .inl rfl
  | some d =>
    cases hrole : d.role with
    | none =>
      simp only [hd,hrole] at h
      cases h
      exact .inl rfl
    | some role =>
      simp only [hd,hrole] at h
      exact .inr ⟨d.isImmediate,role,h⟩

/-! ### Steps -/

/-- A step is idle, or fails in the fetch, or fails behind it, or is carried out. -/
theorem step_cases (m : Machine) :
    (m.halted = true ∧ m.step = ({ halted := true },m)) ∨
    (m.halted = false ∧ ∃ f, m.fetch = .error f ∧ m.step = ({ fault := some f },m)) ∨
    (m.halted = false ∧ ∃ f, m.fetch = .ok m.fetched ∧ m.fetched.execute = .error f ∧
      m.step = ({ fault := some f },m.fetched)) ∨
    (m.halted = false ∧ ∃ e, m.fetch = .ok m.fetched ∧ m.fetched.execute = .ok e ∧
      m.step = ({ halted := e.halts, output := e.output, trace := some m.fetched.traceLine },
        apply e)) := by
  cases hh : m.halted with
  | true => simp [step,hh]
  | false =>
    cases hf : m.fetch with
    | error f => simp [step,hh,hf]
    | ok k =>
      obtain ⟨-,rfl⟩ := fetch_eq_ok.mp hf
      cases he : m.fetched.execute <;> simp [step,hh,hf,he]

/-! ### Jumps -/

/-- Whether a jump of a role would be taken. -/
def jumps (m : Machine) (role : Role) : Bool :=
  match m.perform 0 true role with
  | .ok e => e.target.isSome
  | .error _ => false

@[simp] theorem jumpIf_target_isSome (operand : Nat) (taken : Bool) :
    (m.jumpIf operand taken).target.isSome = taken := by cases taken <;> rfl

/-- A jump goes to its operand if it is taken, whatever the operand is. -/
theorem perform_jump {role : Role} (h : role.isJump) (operand : Nat) (immediate : Bool) :
    m.perform operand immediate role = .ok (m.jumpIf operand (m.jumps role)) := by
  cases role <;> simp [Role.isJump] at h <;>
    simp [perform,jumps]

end Micro86.Machine
