import Micro86.Proofs.Machine.Pausing

/-!
The machine in place, one assignment after another. A procedure reads and changes the machine as it
goes, and where it breaks off the machine keeps what was changed before. Cells are taken from the
memory without a look at its size, so an address that nothing has checked breaks a procedure off; so
does a negative one, a division by zero, or a number without a character.

Every function of the machine has its procedure, and in a memory whose cells all have an address the
two agree: a procedure ends as the function says, breaks off only where the function has a fault,
and has then changed no more than the function says.
-/
namespace Micro86.Machine

/-- Why a procedure breaks off. Only a fault is ever reported. -/
inductive Break
  | fault (f : Fault)
  | negative (address : Int)
  | address (e : AddressError)
  | size (e : SizeError)
  | zeroDivisor
  | character (number : Int)
  | unwritable (e : Text.Unwritable)
  deriving DecidableEq, Repr

/-- A computation that changes a machine in place. -/
abbrev Procedure := EStateM Break Machine

/-- What follows from an instruction beside its changes to the machine. -/
structure Sequel where
  target : Option Nat := none
  halts : Bool := false
  output : Option Char := none
  deriving DecidableEq, Repr

namespace Procedure

/-- The cell at an address, which has to be there. -/
def cell (address : Int) : Procedure Int := do
  if address < 0 then throw (.negative address)
  else MonadExcept.ofExcept (((← get).cpu.read address).mapError .address)

/-- Changes the cell at an address, which has to be there. -/
def setCell (address value : Int) : Procedure Unit := do
  if address < 0 then throw (.negative address)
  else
    let m ← get
    let cpu ← MonadExcept.ofExcept ((m.cpu.write address value).mapError .address)
    set { m with cpu := cpu }

def read (address : Int) : Procedure Int := do
  let m ← get
  if m.cpu.inBounds address then cell address
  else throw (.fault ⟨.memoryViolation,address,m.cpu.ir⟩)

def write (address value : Int) : Procedure Unit := do
  let m ← get
  if m.cpu.inBounds address then setCell address value
  else throw (.fault ⟨.memoryViolation,address,m.cpu.ir⟩)

def fetch : Procedure Int := do
  let m ← get
  let ip := m.cpu.ip
  if !m.cpu.inBounds ip then throw (.fault ⟨.memoryViolation,ip,0⟩)
  else if m.program.size ≤ ip then throw (.fault ⟨.programEnd,ip,0⟩)
  else
    modify fun m => { m with current := ip.toNat }
    modify fun m => { m with cpu := { m.cpu with ip := ip+1 } }
    let word ← cell ip
    modify fun m => { m with cpu := { m.cpu with ir := word } }
    return word

def accumulate (n : Int) : Procedure Unit := modify fun m => { m with cpu := m.cpu.setAcc n }

/-- The quotient of the sizes of two numbers, with the sign of their quotient. -/
def quotient (dividend divisor : Int) : Procedure Int := do
  if divisor = 0 then throw .zeroDivisor
  else
    let q : Int := dividend.natAbs/divisor.natAbs
    return if decide (dividend < 0) != decide (divisor < 0) then -q else q

def character (number : Int) : Procedure Char := do
  if number < 0 ∨ 0x10FFFF < number then throw (.character number)
  else return Char.ofNat number.toNat

/-- The next character of the input, if there is one, which is then gone. -/
def takeInput : Procedure (Option Char) := do
  let m ← get
  set { m with input := m.input.tail }
  return m.input.head?

section
variable (operand : Nat) (immediate : Bool)

def value : Procedure Int :=
  if immediate then return Word.signExtend operand else read operand

def divisor : Procedure Int := do
  let d ← value operand immediate
  let m ← get
  if d = 0 then throw (.fault ⟨.divisionByZero,m.current,m.cpu.ir⟩) else return d

/-- Puts what an operation gives for the accumulator and the operand into the accumulator. -/
def calculate (operation : Int → Int → Int) : Procedure Sequel := do
  accumulate (operation (← get).cpu.acc (← value operand immediate))
  return {}

def jumpIf (taken : Cpu → Bool) : Procedure Sequel := do
  return { target := if taken (← get).cpu then some operand else none }

def perform : Role → Procedure Sequel
  | .halt => return { halts := true }
  | .load => calculate operand immediate fun _ v => v
  | .store => do
    write operand (← get).cpu.acc
    return {}
  | .add => calculate operand immediate fun acc v => acc+v
  | .sub => calculate operand immediate fun acc v => acc - v
  | .mul => calculate operand immediate fun acc v => acc*v
  | .div => do
    let d ← divisor operand immediate
    accumulate (← quotient (← get).cpu.acc d)
    return {}
  | .mod => do
    let d ← divisor operand immediate
    let acc := (← get).cpu.acc
    accumulate (acc - d*(← quotient acc d))
    return {}
  | .cmp => do
    let difference := (← get).cpu.acc - (← value operand immediate)
    modify fun m => { m with cpu := m.cpu.setFlags difference }
    return {}
  | .jmp => jumpIf operand fun _ => true
  | .je => jumpIf operand fun c => c.zero
  | .jne => jumpIf operand fun c => !c.zero
  | .jl => jumpIf operand fun c => c.sign
  | .jle => jumpIf operand fun c => c.sign || c.zero
  | .jg => jumpIf operand fun c => !c.zero && !c.sign
  | .jge => jumpIf operand fun c => c.zero || !c.sign
  | .input => do
    let next ← takeInput
    let m ← get
    match next with
    | none => throw (.fault ⟨.noInput,m.current,m.cpu.ir⟩)
    | some c =>
      accumulate (c.toNat % 0x100)
      return {}
  | .output => do return { output := some (← character ((← get).cpu.acc % 0x100)) }

end

def execute (word : Int) : Procedure Sequel := do
  let (opcode,operand) := Word.decode word
  let m ← get
  match (m.isa.byOpcode? opcode).bind fun e => e.role.map (e.isImmediate,·) with
  | none => throw (.fault ⟨.invalidInstruction,m.current,word⟩)
  | some (immediate,role) => perform operand immediate role

def disassemble (word : Int) : Procedure String := do
  let (opcode,operand) := Word.decode word
  let m ← get
  match m.isa.byOpcode? opcode with
  | none => return Cpu.hexWord word
  | some e =>
    if !e.hasOperand then return e.mnemonic
    else
      let text := s!"{e.mnemonic}\t\t{Cpu.hex8 operand}"
      if e.isImmediate || e.role.any Role.isJump || !m.cpu.inBounds operand then return text
      else return s!"{text}\t\t|{Cpu.hex8 operand}: {Cpu.hexWord (← cell operand)}|"

/-- Fetches a word, makes its trace line and carries it out. -/
def cycle : Procedure (String × Sequel) := do
  let word ← fetch
  let text ← disassemble word
  let m ← get
  let sequel ← execute word
  return (s!"{Cpu.hex8 m.current}:\t{text}\t\t{m.cpu.dump}",sequel)

/-- A fault is no longer a reason to break off; the machine stays as the fault left it. -/
def catchFault {α : Type} (x : Procedure α) : Procedure (Except Fault α) := fun m =>
  match x.run m with
  | .ok a k => .ok (.ok a) k
  | .error (.fault f) k => .ok (.error f) k
  | .error other k => .error other k

/-- Counts the step, and goes where the instruction says. -/
def conclude (trace : String) (sequel : Sequel) : Procedure Outcome := do
  modify fun m => { m with steps := m.steps+1 }
  if sequel.halts then
    modify fun m => { m with halted := true }
    return { halted := true, output := sequel.output, trace := some trace }
  else
    sequel.target.forM fun target =>
      modify fun m => { m with cpu := { m.cpu with ip := target } }
    return { output := sequel.output, trace := some trace }

def step : Procedure Outcome := do
  if (← get).halted then return { halted := true }
  else
    match ← catchFault cycle with
    | .error f => return { fault := some f }
    | .ok (trace,sequel) => conclude trace sequel

/-! ### What procedures do -/

variable {α β : Type} {m k : Machine}

/-- The result of a procedure that does what a function says: the value and the machine of a
success, or a fault and the machine as it was. -/
def resultOf (m : Machine) : Except Fault (α × Machine) → EStateM.Result Break Machine α
  | .ok (a,k) => .ok a k
  | .error f => .error (.fault f) m

theorem run_bind_of_ok {x : Procedure α} {f : α → Procedure β} {a : α} (h : x.run m = .ok a k) :
    (x >>= f).run m = (f a).run k := by
  rw [EStateM.run_bind,h]

theorem run_bind_of_error {x : Procedure α} {f : α → Procedure β} {b : Break}
    (h : x.run m = .error b k) : (x >>= f).run m = .error b k := by
  rw [EStateM.run_bind,h]

/-- A procedure that begins with a look at the machine goes on if the function does. -/
theorem run_bind_of_resultOf {γ : Type} {x : Procedure α} {f : α → Procedure β}
    {r : Except Fault α} {s : α → Except Fault γ} {g : γ → β × Machine}
    (hx : x.run m = resultOf m (r.map (·,m)))
    (hf : ∀ a, r = .ok a → (f a).run m = resultOf m ((s a).map g)) :
    (x >>= f).run m = resultOf m ((r >>= s).map g) := by
  cases r with
  | error e => exact run_bind_of_error hx
  | ok a => exact (run_bind_of_ok hx).trans (hf a rfl)

/-! ### Parts that look at no cell -/

/-- The quotient of two numbers is cut toward zero. -/
theorem quotient_eq_tdiv (a d : Int) :
    (if decide (a < 0) != decide (d < 0) then -((a.natAbs : Int)/d.natAbs)
      else (a.natAbs : Int)/d.natAbs) = a.tdiv d := by
  have hpos (n : Nat) : decide (Int.ofNat n < 0) = false := by simp
  have hneg (n : Nat) : decide (Int.negSucc n < 0) = true := decide_eq_true (Int.negSucc_lt_zero n)
  cases a <;> cases d <;> simp only [hpos,hneg] <;> rfl

theorem run_quotient {d : Int} (hd : d ≠ 0) (a : Int) : (quotient a d).run m = .ok (a.tdiv d) m := by
  rw [quotient,if_neg hd,← quotient_eq_tdiv]
  rfl

theorem run_character {n : Int} (h : 0 ≤ n ∧ n ≤ 0x10FFFF) :
    (character n).run m = .ok (Char.ofNat n.toNat) m := by
  rw [character,if_neg (by omega)]
  rfl

theorem run_takeInput :
    takeInput.run m = .ok m.input.head? { m with input := m.input.tail } := rfl

theorem divisor_ne_zero {operand : Nat} {immediate : Bool} {d : Int}
    (h : m.divisor operand immediate = .ok d) : d ≠ 0 := by
  obtain ⟨v,-,h⟩ := bind_eq_ok.mp h
  split at h
  · simp at h
  · next hv =>
    cases h
    exact hv

/-- What follows from an effect, and the machine that it leaves. -/
def parts (e : Effect) : Sequel × Machine := (⟨e.target,e.halts,e.output⟩,e.machine)

theorem run_accumulate (n : Int) : (accumulate n).run m = .ok () (m.accumulate n).machine := rfl

theorem run_catchFault_of_ok {x : Procedure α} {a : α} (h : x.run m = .ok a k) :
    (catchFault x).run m = .ok (.ok a) k := by
  change catchFault x m = _
  rw [catchFault,h]

theorem run_catchFault_of_fault {x : Procedure α} {f : Fault} (h : x.run m = .error (.fault f) k) :
    (catchFault x).run m = .ok (.error f) k := by
  change catchFault x m = _
  rw [catchFault,h]

theorem run_conclude (trace : String) (e : Effect) : (conclude trace (parts e).1).run e.machine =
    .ok { halted := e.halts, output := e.output, trace := some trace } (apply e) := by
  obtain ⟨k,target,halts,output⟩ := e
  cases halts with
  | true =>
    simp only [apply,Bool.or_true]
    rfl
  | false =>
    simp only [apply,Bool.or_false]
    cases target <;> rfl

/-! ### Cells -/

section
variable (hm : m.cpu.memory.size < 0x8000000000000000)
include hm

theorem index_of_inBounds {address : Int} (h : 0 ≤ address ∧ address < m.cpu.memory.size) :
    m.cpu.index address = .ok address.toNat := by
  have hfits : Cpu.fits address = true := by
    simp only [Cpu.fits,Bool.and_eq_true,decide_eq_true_eq]
    omega
  have hin : m.cpu.inBounds address = true := inBounds_iff.mpr h
  have hnonneg : ¬address < 0 := by omega
  simp [Cpu.index,hfits,hnonneg,hin]

theorem run_cell {address : Int} (h : 0 ≤ address ∧ address < m.cpu.memory.size) :
    (cell address).run m = .ok (m.cpu.memory.getD address.toNat 0) m := by
  have hread : m.cpu.read address = .ok (m.cpu.memory.getD address.toNat 0) := by
    rw [Cpu.read,index_of_inBounds hm h]
    rfl
  have hnonneg : ¬address < 0 := by omega
  rw [cell,if_neg hnonneg,run_bind_of_ok (EStateM.run_get m),hread]
  rfl

/-- A value that the memory has at an address is what the cell there gives. -/
theorem run_cell_of_getElem? {address : Nat} {v : Int} (h : m.cpu.memory[address]? = some v) :
    m.cpu.inBounds address = true ∧ (cell address).run m = .ok v m := by
  obtain ⟨hlt,-⟩ := Array.getElem?_eq_some_iff.mp h
  have hin : 0 ≤ (address : Int) ∧ (address : Int) < m.cpu.memory.size := by omega
  have hcell := run_cell hm hin
  rw [Int.toNat_natCast,Array.getD_eq_getD_getElem?,h,Option.getD_some] at hcell
  exact ⟨inBounds_iff.mpr hin,hcell⟩

theorem run_setCell {address : Int} (h : 0 ≤ address ∧ address < m.cpu.memory.size) (v : Int) :
    (setCell address v).run m = .ok () { m with cpu := { m.cpu with
      memory := m.cpu.memory.setIfInBounds address.toNat (Word.signed v) } } := by
  have hwrite : m.cpu.write address v = .ok { m.cpu with
      memory := m.cpu.memory.setIfInBounds address.toNat (Word.signed v) } := by
    rw [Cpu.write,index_of_inBounds hm h]
    rfl
  have hnonneg : ¬address < 0 := by omega
  rw [setCell,if_neg hnonneg,run_bind_of_ok (EStateM.run_get m),hwrite]
  rfl

theorem run_read (address : Int) :
    (read address).run m = resultOf m ((m.read address).map (·,m)) := by
  rw [read,run_bind_of_ok (EStateM.run_get m),Machine.read]
  split
  · next h => exact run_cell hm (inBounds_iff.mp h)
  · rfl

theorem run_write (address v : Int) :
    (write address v).run m = resultOf m ((m.write address v).map ((),·)) := by
  rw [write,run_bind_of_ok (EStateM.run_get m),Machine.write]
  split
  · next h => exact run_setCell hm (inBounds_iff.mp h) v
  · rfl

theorem run_fetch : fetch.run m = resultOf m (m.fetch.map fun k => (k.cpu.ir,k)) := by
  rw [fetch,run_bind_of_ok (EStateM.run_get m),Machine.fetch]
  dsimp only
  split
  · rfl
  · next hin =>
    split
    · rfl
    · have hbounds : 0 ≤ m.cpu.ip ∧ m.cpu.ip < m.cpu.memory.size := by
        rw [← inBounds_iff]
        simpa using hin
      have hcell := run_cell
        (m := { m with current := m.cpu.ip.toNat, cpu := { m.cpu with ip := m.cpu.ip+1 } }) hm hbounds
      simp only [EStateM.run_bind,EStateM.run_modify,hcell]
      rfl

/-! ### Instructions -/

theorem run_value (operand : Nat) (immediate : Bool) :
    (value operand immediate).run m = resultOf m ((m.value operand immediate).map (·,m)) := by
  cases immediate with
  | true => rfl
  | false => exact run_read hm operand

theorem run_divisor (operand : Nat) (immediate : Bool) :
    (divisor operand immediate).run m = resultOf m ((m.divisor operand immediate).map (·,m)) := by
  rw [divisor,Machine.divisor]
  refine run_bind_of_resultOf (run_value hm operand immediate) fun d _ => ?_
  rw [run_bind_of_ok (EStateM.run_get m)]
  split <;> rfl

theorem run_calculate (operand : Nat) (immediate : Bool) (operation : Int → Int → Int) :
    (calculate operand immediate operation).run m = resultOf m ((do
      let v ← m.value operand immediate
      return m.accumulate (operation m.cpu.acc v)).map parts) := by
  rw [calculate,run_bind_of_ok (EStateM.run_get m)]
  refine run_bind_of_resultOf (run_value hm operand immediate) fun v _ => ?_
  rw [run_bind_of_ok (run_accumulate _)]
  rfl

theorem run_perform (operand : Nat) (immediate : Bool) (role : Role) :
    (perform operand immediate role).run m =
      resultOf m ((m.perform operand immediate role).map parts) := by
  cases role with
  | halt | jmp | je | jne | jl | jle | jg | jge => rfl
  | load | add | sub | mul =>
    rw [perform,Machine.perform]
    exact run_calculate hm operand immediate _
  | store =>
    have hwrite := run_write hm operand m.cpu.acc
    rw [perform,Machine.perform,run_bind_of_ok (EStateM.run_get m)]
    cases hw : m.write operand m.cpu.acc with
    | error f =>
      rw [hw] at hwrite
      exact run_bind_of_error hwrite
    | ok k =>
      rw [hw] at hwrite
      exact run_bind_of_ok hwrite
  | div =>
    rw [perform,Machine.perform]
    refine run_bind_of_resultOf (run_divisor hm operand immediate) fun d hd => ?_
    rw [run_bind_of_ok (EStateM.run_get m),run_bind_of_ok (run_quotient (divisor_ne_zero hd) _),
      run_bind_of_ok (run_accumulate _)]
    rfl
  | mod =>
    rw [perform,Machine.perform]
    refine run_bind_of_resultOf (run_divisor hm operand immediate) fun d hd => ?_
    rw [run_bind_of_ok (EStateM.run_get m)]
    dsimp only
    rw [run_bind_of_ok (run_quotient (divisor_ne_zero hd) _),run_bind_of_ok (run_accumulate _),
      ← Int.tmod_def]
    rfl
  | cmp =>
    rw [perform,Machine.perform,run_bind_of_ok (EStateM.run_get m)]
    refine run_bind_of_resultOf (run_value hm operand immediate) fun v _ => ?_
    rfl
  | input =>
    rw [perform,Machine.perform,run_bind_of_ok run_takeInput,run_bind_of_ok (EStateM.run_get _)]
    cases hinput : m.input with
    | nil =>
      -- at its end the input is read too, but there is nothing to take from it
      have hsame : { m with input := [] } = m := by rw [← hinput]
      rw [List.head?_nil,List.tail_nil,hsame]
      rfl
    | cons c rest => rfl
  | output =>
    rw [perform,Machine.perform,run_bind_of_ok (EStateM.run_get m),
      run_bind_of_ok (run_character (by omega))]
    rfl

theorem run_execute : (execute m.cpu.ir).run m = resultOf m (m.execute.map parts) := by
  rw [execute,Machine.execute]
  dsimp only
  rw [run_bind_of_ok (EStateM.run_get m)]
  cases hd : m.isa.byOpcode? (Word.decode m.cpu.ir).1 with
  | none => rfl
  | some d =>
    cases hrole : d.role with
    | none =>
      simp only [Option.bind_some,hrole,Option.map_none]
      rfl
    | some role =>
      simp only [Option.bind_some,hrole,Option.map_some]
      exact run_perform hm _ _ role

/-! ### Steps -/

theorem run_disassemble (w : Int) : (disassemble w).run m = .ok (m.disassemble w) m := by
  rw [disassemble,Machine.disassemble]
  dsimp only
  rw [run_bind_of_ok (EStateM.run_get m)]
  cases m.isa.byOpcode? (Word.decode w).1 with
  | none => rfl
  | some d =>
    dsimp only
    by_cases hoperand : !d.hasOperand
    · rw [if_pos hoperand,if_pos hoperand]
      rfl
    rw [if_neg hoperand,if_neg hoperand]
    cases hnamed : d.isImmediate || d.role.any Role.isJump with
    | true => rfl
    | false =>
      cases hcell : m.cpu.memory[(Word.decode w).2]? with
      | none =>
        have hout : m.cpu.inBounds (Word.decode w).2 = false := by
          have hle := Array.getElem?_eq_none_iff.mp hcell
          rw [Bool.eq_false_iff,Ne,inBounds_iff]
          omega
        rw [hout]
        rfl
      | some v =>
        obtain ⟨hin,hrun⟩ := run_cell_of_getElem? hm hcell
        rw [hin,if_neg (by simp),if_neg (by simp),run_bind_of_ok hrun]
        rfl

/-- A fetch that fails ends the cycle before anything is changed. -/
theorem run_cycle_of_fetch {f : Fault} (hf : m.fetch = .error f) :
    cycle.run m = .error (.fault f) m := by
  have hfetch := run_fetch hm
  rw [hf] at hfetch
  exact run_bind_of_error hfetch

/-- Behind the fetch a cycle shows the fetched word and does what it says. -/
theorem run_cycle_of_execute (hf : m.fetch = .ok m.fetched) :
    cycle.run m = resultOf m.fetched
      (m.fetched.execute.map fun e => ((m.fetched.traceLine,(parts e).1),e.machine)) := by
  have hfetch := run_fetch hm
  rw [hf] at hfetch
  have hexecute := run_execute (m := m.fetched) hm
  rw [cycle,run_bind_of_ok hfetch,run_bind_of_ok (run_disassemble (m := m.fetched) hm _),
    run_bind_of_ok (EStateM.run_get _)]
  cases he : m.fetched.execute with
  | error f =>
    rw [he] at hexecute
    exact run_bind_of_error hexecute
  | ok e =>
    rw [he] at hexecute
    exact run_bind_of_ok hexecute

/-- A step in place ends, with the outcome of a step, in the machine after it. -/
theorem run_step : step.run m = .ok m.step.1 m.step.2 := by
  rw [step,run_bind_of_ok (EStateM.run_get m)]
  obtain ⟨hh,hs⟩ | ⟨hh,f,hf,hs⟩ | ⟨hh,f,hf,he,hs⟩ | ⟨hh,e,hf,he,hs⟩ := m.step_cases
  · rw [hs,if_pos hh]
    rfl
  · rw [hs,if_neg (by simp [hh]),run_bind_of_ok (run_catchFault_of_fault (run_cycle_of_fetch hm hf))]
    rfl
  · -- the fault is caught with the fetched machine in place, not with the one before
    have hcycle := run_cycle_of_execute hm hf
    rw [he] at hcycle
    rw [hs,if_neg (by simp [hh]),run_bind_of_ok (run_catchFault_of_fault hcycle)]
    rfl
  · have hcycle := run_cycle_of_execute hm hf
    rw [he] at hcycle
    rw [hs,if_neg (by simp [hh]),run_bind_of_ok (run_catchFault_of_ok hcycle)]
    exact run_conclude m.fetched.traceLine e

end
end Procedure

end Micro86.Machine
