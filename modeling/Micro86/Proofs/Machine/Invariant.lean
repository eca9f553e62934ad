import Mathlib.Order.Basic
import Mathlib.Order.Lattice
import Micro86.Machine.Run
import Micro86.Proofs.Machine.Step
import Micro86.Proofs.Word

/-!
What holds of a machine between any two calls, whatever words it runs: registers and cells
hold signed words, the memory keeps its size, the two addresses stay in their ranges, and the
flags exclude each other. One step keeps all of it, also a step that fails; so does every
other call, and so does every sequence of calls.
-/
namespace Micro86.Machine

/-- The calls that a machine takes. -/
inductive Call
  | step
  | run (limit : Option Int)
  /-- A reset, at a time when there are so many cells to be had. -/
  | reset (capacity : Nat)
  | read (address : Int)
  | write (address value : Int)
  deriving DecidableEq, Repr

/-- The machine that a call leaves behind. A run without a limit leaves one if it ends, and a
call that fails, a step apart, leaves the machine as it was. -/
inductive Call.Leaves (m : Machine) : Call → Machine → Prop
  | step : Leaves m .step m.step.2
  | run {α : Type} (note : α → Outcome → α) (limit : Int) (a : α) :
      Leaves m (.run (some limit)) (m.run note limit a).2.1
  | runToEnd {α : Type} {note : α → Outcome → α} {n : Nat} {a b : α} {o : Outcome} {k : Machine}
      (h : m.runFor note n a = (some o,k,b)) : Leaves m (.run none) k
  | reset {capacity : Nat} {k : Machine} (h : m.reset capacity = .ok k) :
      Leaves m (.reset capacity) k
  | resetFails {capacity : Nat} {e : BootError} (h : m.reset capacity = .error e) :
      Leaves m (.reset capacity) m
  | read (address : Int) : Leaves m (.read address) m
  | write {address value : Int} {k : Machine} (h : m.write address value = .ok k) :
      Leaves m (.write address value) k
  | writeFails {address value : Int} {f : Fault} (h : m.write address value = .error f) :
      Leaves m (.write address value) m

/-- The machines that calls lead to, one after another. -/
inductive Reaches (m : Machine) : Machine → Prop
  | start : Reaches m m
  | call {k next : Machine} {c : Call} (h : Reaches m k) (hc : c.Leaves k next) : Reaches m next

/-- What a machine is built with, and no call changes. -/
def build (m : Machine) : InstructionSet × Array Int × Int × Bool :=
  (m.isa,m.program,m.memorySize,m.resize)

/-- What holds of a machine between two calls. -/
structure Sound (m : Machine) : Prop where
  words : ∀ v ∈ m.program, Word.InRange v
  size : grownSize m.memorySize m.program.size = m.cpu.memory.size
  fits : m.cpu.memory.size < 0x8000000000000000
  cells : ∀ v ∈ m.cpu.memory, Word.InRange v
  acc : Word.InRange m.cpu.acc
  ir : Word.InRange m.cpu.ir
  current : m.current < m.program.size
  ip_nonneg : 0 ≤ m.cpu.ip
  ip_le : m.cpu.ip ≤ max (m.program.size : Int) 0xFFFF
  flags : ¬(m.cpu.zero = true ∧ m.cpu.sign = true)

variable {m k : Machine}

/-! ### The parts of a step -/

theorem build_does {operand : Nat} {e : Effect} (h : m.Does operand e) :
    e.machine.build = m.build := by
  cases h with
  | store h => obtain ⟨-,rfl⟩ := write_eq_ok.mp h; rfl
  | _ => rfl

theorem getD_inRange {cells : Array Int} (h : ∀ v ∈ cells, Word.InRange v) (i : Nat) :
    Word.InRange (cells.getD i 0) := by
  rw [Array.getD_eq_getD_getElem?]
  cases hv : cells[i]? with
  | none => exact Word.zero_inRange
  | some v => exact h v (Array.mem_of_getElem? hv)

theorem mem_setIfInBounds_inRange {cells : Array Int} (h : ∀ v ∈ cells, Word.InRange v)
    (i : Nat) (w : Int) : ∀ v ∈ cells.setIfInBounds i (Word.signed w), Word.InRange v := by
  intro v hv
  obtain hv | rfl := Array.mem_or_eq_of_mem_setIfInBounds hv
  · exact h v hv
  · exact Word.signed_inRange w

/-- A fetch stays inside the program, so the next address is at most its end. -/
theorem Sound.fetched (h : m.Sound) (hip : m.cpu.ip < m.program.size) : m.fetched.Sound where
  __ := h
  ir := getD_inRange h.cells _
  current := by
    have hnonneg := h.ip_nonneg
    simp only [Machine.fetched]
    omega
  ip_nonneg := by
    have hnonneg := h.ip_nonneg
    simp only [Machine.fetched]
    omega
  ip_le := by
    simp only [Machine.fetched]
    omega

theorem Sound.write {address value : Int} (h : m.Sound) (hw : m.write address value = .ok k) :
    k.Sound := by
  obtain ⟨-,rfl⟩ := write_eq_ok.mp hw
  exact { h with
    size := by simpa using h.size
    fits := by simpa using h.fits
    cells := mem_setIfInBounds_inRange h.cells _ _ }

/-- Whatever an instruction does, it writes signed words only and sets one flag at most. -/
theorem Sound.does {operand : Nat} {e : Effect} (h : m.Sound) (he : m.Does operand e) :
    e.machine.Sound := by
  cases he with
  | halt | jump _ | output _ => exact h
  | accumulate n => exact { h with acc := Word.signed_inRange n }
  | input hinput n => exact { h with acc := Word.signed_inRange n }
  | store hw => exact h.write hw
  | compare n =>
    refine { h with flags := ?_ }
    simp only [Cpu.setFlags,decide_eq_true_eq]
    omega

theorem Does.target_le {operand : Nat} {e : Effect} {t : Nat} (he : m.Does operand e)
    (ht : e.target = some t) : t ≤ operand := by
  cases he with
  | jump taken => cases taken <;> simp_all [jumpIf]
  | _ => simp_all [Machine.accumulate]

theorem Sound.apply {e : Effect} (h : e.machine.Sound)
    (htarget : ∀ t, e.target = some t → t ≤ 0xFFFF) : (Machine.apply e).Sound := by
  have hip : 0 ≤ (Machine.apply e).cpu.ip ∧
      (Machine.apply e).cpu.ip ≤ max (e.machine.program.size : Int) 0xFFFF := by
    have hnonneg := h.ip_nonneg
    have hle := h.ip_le
    simp only [Machine.apply]
    split
    · exact ⟨hnonneg,hle⟩
    · cases ht : e.target with
      | none => exact ⟨hnonneg,hle⟩
      | some t =>
        have hbound := htarget t ht
        simp only [Option.map_some,Option.getD_some,Int.ofNat_eq_natCast]
        omega
  exact { h with ip_nonneg := hip.1, ip_le := hip.2 }

/-! ### Calls -/

/-- No step changes what the machine is built with, whatever its registers and cells hold. -/
theorem build_step (m : Machine) : m.step.2.build = m.build := by
  obtain ⟨-,hs⟩ | ⟨-,f,-,hs⟩ | ⟨-,f,-,-,hs⟩ | ⟨-,e,-,he,hs⟩ := m.step_cases
  · rw [hs]
  · rw [hs]
  · rw [hs]
    rfl
  · rw [hs]
    have hbuild := build_does (execute_does he)
    exact hbuild

theorem build_runFor {α : Type} (note : α → Outcome → α) (n : Nat) (m : Machine) (a : α) :
    (m.runFor note n a).2.1.build = m.build := by
  induction n generalizing m a with
  | zero => rfl
  | succ n ih =>
    simp only [Machine.runFor]
    split
    · exact m.build_step
    · exact (ih m.step.2 (note a m.step.1)).trans m.build_step

theorem Sound.step (h : m.Sound) : m.step.2.Sound ∧ m.step.2.build = m.build := by
  refine ⟨?_,m.build_step⟩
  obtain ⟨-,hs⟩ | ⟨-,f,-,hs⟩ | ⟨-,f,hf,-,hs⟩ | ⟨-,e,hf,he,hs⟩ := m.step_cases
  · rw [hs]
    exact h
  · rw [hs]
    exact h
  · rw [hs]
    exact h.fetched (fetch_eq_ok.mp hf).1.2.2
  · rw [hs]
    have hdoes := execute_does he
    have hsound := (h.fetched (fetch_eq_ok.mp hf).1.2.2).does hdoes
    refine hsound.apply ?_
    intro t ht
    exact (hdoes.target_le ht).trans (Word.decode_operand_le _)

theorem Sound.runFor {α : Type} (note : α → Outcome → α) (n : Nat) (a : α) (h : m.Sound) :
    (m.runFor note n a).2.1.Sound ∧ (m.runFor note n a).2.1.build = m.build := by
  refine ⟨?_,build_runFor note n m a⟩
  induction n generalizing m a with
  | zero => exact h
  | succ n ih =>
    simp only [Machine.runFor]
    split
    · exact h.step.1
    · exact ih (note a m.step.1) h.step.1

theorem run_machine {α : Type} (note : α → Outcome → α) (limit : Int) (a : α) :
    (m.run note limit a).2.1 = (m.runFor note (limit - m.steps).toNat a).2.1 := by
  unfold Machine.run
  split <;> simp_all

theorem le_grownSize (size needed : Int) : needed ≤ grownSize size needed := by
  unfold grownSize
  split <;> omega

theorem exists_natCast_grownSize (size : Int) (needed : Nat) :
    ∃ cells : Nat, grownSize size needed = cells := by
  have hle := le_grownSize size needed
  exact Int.eq_ofNat_of_zero_le (by omega)

theorem cellCount_natCast (capacity size : Nat) : Cpu.cellCount capacity size =
    if 0x8000000000000000 ≤ size then .error .tooWide
    else if capacity < size then .error .exhausted
    else .ok size := by
  have hfits : (!Cpu.fits size) = true ↔ 0x8000000000000000 ≤ size := by
    simp only [Cpu.fits,Bool.not_eq_true',Bool.and_eq_false_iff,decide_eq_false_iff_not]
    omega
  rw [Cpu.cellCount,Int.toNat_natCast]
  exact if_congr hfits rfl rfl

theorem cellCount_eq_ok {capacity size cells : Nat} :
    Cpu.cellCount capacity size = .ok cells ↔
      size = cells ∧ cells < 0x8000000000000000 ∧ cells ≤ capacity := by
  rw [cellCount_natCast]
  split
  · simp
    omega
  · split
    · simp
      omega
    · simp
      omega

theorem cellCount_eq_error {capacity size : Nat} {e : SizeError} :
    Cpu.cellCount capacity size = .error e ↔ (0x8000000000000000 ≤ size ∧ e = .tooWide) ∨
      (size < 0x8000000000000000 ∧ capacity < size ∧ e = .exhausted) := by
  rw [cellCount_natCast]
  split
  · next hwide => simp [hwide,Nat.not_lt.mpr hwide,eq_comm]
  · next hfits =>
    split
    · next hfew => simp [hfits,Nat.lt_of_not_le hfits,hfew,eq_comm]
    · next hhad => simp [hfits,hhad]

theorem Sound.program_le (h : m.Sound) : m.program.size ≤ m.cpu.memory.size := by
  have hsize := h.size
  have hgrown := le_grownSize m.memorySize m.program.size
  omega

/-- A machine that can be reset has a program, and room for it or leave to make room. It is cleared
then, with its program at the start of the memory. -/
theorem reset_eq_ok {capacity : Nat} : m.reset capacity = .ok k ↔
    0 < m.program.size ∧ (m.program.size ≤ m.memorySize ∨ m.resize = true) ∧
    ∃ cells : Nat, (grownSize m.memorySize m.program.size = cells ∧
      cells < 0x8000000000000000 ∧ cells ≤ capacity) ∧
      k = { m with
        cpu := { memory := m.program ++ Array.replicate (cells - m.program.size) 0 }
        current := 0
        steps := 0
        halted := false } := by
  have hempty : m.program.isEmpty ↔ ¬0 < m.program.size := by
    rw [Array.isEmpty_iff_size_eq_zero]
    omega
  have hroom : (m.memorySize < m.program.size ∧ !m.resize) ↔
      ¬(m.program.size ≤ m.memorySize ∨ m.resize = true) := by simp
  unfold reset
  split
  · next h => simp [hempty.mp h]
  · next h =>
    have hpos := not_not.mp (mt hempty.mpr h)
    split
    · next hsmall => simp [hroom.mp hsmall]
    · next hlarge =>
      have hfits := not_not.mp (mt hroom.mpr hlarge)
      obtain ⟨size,hsize⟩ := exists_natCast_grownSize m.memorySize m.program.size
      simp only [hpos,hfits,hsize,true_and,bind_eq_ok,mapError_eq_ok,pure_eq_ok,Except.ok.injEq,
        cellCount_eq_ok,Int.natCast_inj]
      exact exists_congr fun cells => and_congr_right fun _ => eq_comm

/-- A reset gives a memory of the size that was looked for, and no more cells than can be had. -/
theorem size_of_reset {capacity : Nat} (h : m.reset capacity = .ok k) :
    grownSize m.memorySize m.program.size = k.cpu.memory.size ∧
      k.cpu.memory.size < 0x8000000000000000 ∧ k.cpu.memory.size ≤ capacity := by
  obtain ⟨-,-,cells,⟨hcells,hfits,hhad⟩,rfl⟩ := reset_eq_ok.mp h
  have hgrown := le_grownSize m.memorySize m.program.size
  simp only [Array.size_append,Array.size_replicate]
  omega

theorem sound_of_reset {capacity : Nat} (hwords : ∀ v ∈ m.program, Word.InRange v)
    (h : m.reset capacity = .ok k) : k.Sound ∧ k.build = m.build := by
  obtain ⟨hsize,hfits,-⟩ := size_of_reset h
  obtain ⟨hpos,-,cells,-,rfl⟩ := reset_eq_ok.mp h
  refine ⟨?_,rfl⟩
  constructor
  case words => exact hwords
  case size => exact hsize
  case fits => exact hfits
  case cells =>
    intro v hv
    obtain hv | hv := Array.mem_append.mp hv
    · exact hwords v hv
    · rw [(Array.mem_replicate.mp hv).2]
      exact Word.zero_inRange
  case acc | ir => exact Word.zero_inRange
  case current => exact hpos
  case ip_nonneg => exact le_rfl
  case ip_le => simp
  case flags => simp

theorem sound_of_boot {capacity : Nat} {isa : InstructionSet} {words : List Int}
    {memorySize : Int} {resize : Bool} {input : List Char}
    (h : boot capacity isa words memorySize resize input = .ok m) :
    m.Sound ∧ m.build = (isa,(words.map Word.signed).toArray,memorySize,resize) := by
  apply sound_of_reset _ h
  simp only [List.mem_toArray,List.mem_map,forall_exists_index,and_imp,
    forall_apply_eq_imp_iff₂]
  intro w _
  exact Word.signed_inRange w

theorem program_size_of_boot {capacity : Nat} {isa : InstructionSet} {words : List Int}
    {memorySize : Int} {resize : Bool} {input : List Char}
    (h : boot capacity isa words memorySize resize input = .ok m) :
    m.program.size = words.length := by
  have hprogram : m.program = (words.map Word.signed).toArray :=
    congrArg (fun b => b.2.1) (sound_of_boot h).2
  simp [hprogram]

/-- Every call keeps what holds between calls, whether it fails or not. -/
theorem Sound.leaves {c : Call} (h : m.Sound) (hc : c.Leaves m k) :
    k.Sound ∧ k.build = m.build := by
  cases hc with
  | step => exact h.step
  | run note limit a =>
    rw [run_machine]
    exact h.runFor note _ a
  | @runToEnd α note n a b o k hrun =>
    have hk := h.runFor note n a
    rw [hrun] at hk
    exact hk
  | reset hreset => exact sound_of_reset h.words hreset
  | write hwrite =>
    refine ⟨h.write hwrite,?_⟩
    obtain ⟨-,rfl⟩ := write_eq_ok.mp hwrite
    rfl
  | resetFails | read | writeFails => exact ⟨h,rfl⟩

theorem Sound.reaches (h : m.Sound) (hr : m.Reaches k) : k.Sound ∧ k.build = m.build := by
  induction hr with
  | start => exact ⟨h,rfl⟩
  | call hr hc ih =>
    obtain ⟨hsound,hbuild⟩ := ih
    obtain ⟨hnext,hsame⟩ := hsound.leaves hc
    exact ⟨hnext,hsame.trans hbuild⟩

/-- The memory has the size that the machine was built with. -/
theorem size_eq_of_build (hm : m.Sound) (hk : k.Sound) (h : k.build = m.build) :
    k.cpu.memory.size = m.cpu.memory.size := by
  have hprogram : k.program = m.program := congrArg (fun b => b.2.1) h
  have hmemory : k.memorySize = m.memorySize := congrArg (fun b => b.2.2.1) h
  have hsize := hk.size
  rw [hprogram,hmemory,hm.size] at hsize
  omega

/-- Flags that exclude each other decide every comparison one way. -/
theorem Sound.jumps (h : m.Sound) :
    (m.jumps .je).toNat+(m.jumps .jl).toNat+(m.jumps .jg).toNat = 1 ∧
    m.jumps .jle = (m.jumps .je || m.jumps .jl) ∧
    m.jumps .jge = (m.jumps .je || m.jumps .jg) ∧
    m.jumps .jne = !m.jumps .je := by
  have hflags := h.flags
  cases hz : m.cpu.zero <;> cases hs : m.cpu.sign <;>
    simp_all [Machine.jumps,perform]

/-- Whatever words a machine boots with and whatever calls it takes, between two calls its
registers and cells are signed words, its memory has the size of the start and room for the
program, the addresses are in range, and exactly one of equal, less and greater holds. -/
theorem reachable_machine_bounds {capacity : Nat} {isa : InstructionSet} {words : List Int}
    {memorySize : Int} {resize : Bool} {input : List Char}
    (hboot : boot capacity isa words memorySize resize input = .ok m) (hr : m.Reaches k) :
    Word.InRange k.cpu.acc ∧ Word.InRange k.cpu.ir ∧ (∀ v ∈ k.cpu.memory, Word.InRange v) ∧
    k.cpu.memory.size = m.cpu.memory.size ∧ words.length ≤ k.cpu.memory.size ∧
    k.current < words.length ∧ 0 ≤ k.cpu.ip ∧ k.cpu.ip ≤ max (words.length : Int) 0xFFFF ∧
    ¬(k.cpu.zero = true ∧ k.cpu.sign = true) ∧
    (k.jumps .je).toNat+(k.jumps .jl).toNat+(k.jumps .jg).toNat = 1 ∧
    k.jumps .jle = (k.jumps .je || k.jumps .jl) ∧
    k.jumps .jge = (k.jumps .je || k.jumps .jg) ∧
    k.jumps .jne = !k.jumps .je := by
  obtain ⟨hm,hbuild⟩ := sound_of_boot hboot
  obtain ⟨hk,hsame⟩ := hm.reaches hr
  have hprogram : k.program.size = words.length := by
    have hwords : k.program = (words.map Word.signed).toArray :=
      congrArg (fun b => b.2.1) (hsame.trans hbuild)
    simp [hwords]
  have hle := hk.program_le
  have hcurrent := hk.current
  have hip := hk.ip_le
  rw [hprogram] at hle hcurrent hip
  exact ⟨hk.acc,hk.ir,hk.cells,size_eq_of_build hm hk hsame,hle,hcurrent,hk.ip_nonneg,hip,
    hk.flags,hk.jumps⟩

/-- A program of one word that stores into itself, stepped once and then past its end. -/
theorem reachable_machine_bounds_self_store :
    let isa : InstructionSet := ⟨"set",[⟨"STORE",0x302,true,false,some .store,1⟩]⟩
    let m : Machine := ⟨isa,#[0x3020000],1,false,{ memory := #[0x3020000] },0,0,false,[]⟩
    boot 20 isa [0x3020000] 1 false [] = .ok m ∧ m.Reaches m.step.2.step.2 ∧
      m.step.2.step.2.cpu.memory = #[0] ∧ m.step.2.step.2.current < 1 := by
  intro isa m
  have hboot : boot 20 isa [0x3020000] 1 false [] = .ok m := by decide
  have hr : m.Reaches m.step.2.step.2 := (Reaches.start.call .step).call .step
  obtain ⟨-,-,-,-,-,hcurrent,-⟩ := reachable_machine_bounds hboot hr
  exact ⟨hboot,hr,by decide,hcurrent⟩

end Micro86.Machine
