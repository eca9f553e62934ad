import Micro86.Proofs.Machine.Procedure

/-!
The other calls in place: runs, the reset, and the views of the memory. None of them looks at a cell
that it has not made sure of, except in the range of the program, which always has its cells. So no
call of a machine that has booted breaks off, whatever calls came before, but for a run that stops at
a limit of more digits than can be written.
-/
namespace Micro86.Machine
namespace Procedure

/-- Takes steps until one is final, or until the limit is reached, if there is one. There is no last
outcome if the loop is watched for `n` rounds only and goes on behind them. -/
def runLoop {α : Type} (note : α → Outcome → α) (limit : Option Int) :
    Nat → α → Procedure (Option Outcome × α)
  | 0,a => return (none,a)
  | n+1,a => do
    let m ← get
    match limit.filter fun (l : Int) => l ≤ m.steps with
    | some limit =>
      let o ← MonadExcept.ofExcept ((m.limitReached limit).mapError .unwritable)
      return (some o,a)
    | none =>
      let o ← step
      if o.isFinal then return (some o,note a o) else runLoop note limit n (note a o)

/-- Twenty cells more, and again, until there are enough. -/
def grow (size needed : Int) : Int :=
  if size < needed then grow (size+20) needed else size
termination_by (needed - size).toNat

/-- Writes words into the cells from an address on. -/
def load : List Int → Nat → Procedure Unit
  | [],_ => return
  | w :: rest,address => do
    setCell address w
    load rest (address+1)

def reset (capacity : Nat) : Procedure Unit := do
  let m ← get
  if m.program.isEmpty then throw (.fault ⟨.noProgram,0,0⟩)
  else if m.memorySize < m.program.size ∧ !m.resize then
    throw (.fault ⟨.memoryViolation,m.memorySize,0⟩)
  else
    let cpu ← MonadExcept.ofExcept
      ((Cpu.reset capacity (grow m.memorySize m.program.size)).mapError .size)
    modify fun m => { m with cpu := cpu }
    load m.program.toList 0
    modify fun m => { m with current := 0, steps := 0, halted := false }

def codeLine (address : Nat) : Procedure String := do
  return s!"{Cpu.hex8 address}:\t{← disassemble (← cell address)}"

def disassembly : Procedure String := do
  let ls ← (List.range (← get).program.size).mapM codeLine
  return Text.unlines (["", "=== DISASSEMBLED CODE ===", ""] ++ ls)

def postmortem : Procedure String := do return (← get).postmortem

variable {α β : Type} {m k : Machine}

/-! ### Runs -/

/-- The result of a loop that does what a run says. -/
def resultOfRun (r : Except Text.Unwritable Outcome × Machine × α) :
    EStateM.Result Break Machine (Option Outcome × α) :=
  match r.1 with
  | .ok o => .ok (some o,r.2.2) r.2.1
  | .error e => .error (.unwritable e) r.2.1

theorem run_runLoop_limit (note : α → Outcome → α) {limit : Int} (hm : m.Sound) {n : Nat}
    (hn : (limit - m.steps).toNat < n) (a : α) :
    (runLoop note (some limit) n a).run m = resultOfRun (m.run note limit a) := by
  induction n generalizing m a with
  | zero => omega
  | succ n ih =>
    rw [runLoop,run_bind_of_ok (EStateM.run_get m),run_eq]
    by_cases hle : limit ≤ m.steps
    · rw [if_pos hle,Option.filter_some,if_pos (by simpa using hle)]
      dsimp only
      cases m.limitReached limit <;> rfl
    · rw [if_neg hle,Option.filter_some,if_neg (by simpa using hle)]
      dsimp only
      rw [run_bind_of_ok (run_step hm.fits)]
      cases hfinal : m.step.1.isFinal with
      | true => rfl
      | false =>
        -- the step is counted, so one round fewer is enough for what is left
        have hsteps := m.steps_step
        rw [succeeds_of_not_final hfinal,Bool.toNat_true] at hsteps
        exact ih hm.step.1 (by omega) (note a m.step.1)

theorem run_runLoop (note : α → Outcome → α) (hm : m.Sound) (n : Nat) (a : α) :
    (runLoop note none n a).run m =
      .ok ((m.runFor note n a).1,(m.runFor note n a).2.2) (m.runFor note n a).2.1 := by
  induction n generalizing m a with
  | zero => rfl
  | succ n ih =>
    rw [runLoop,run_bind_of_ok (EStateM.run_get m),Option.filter_none]
    dsimp only
    have hround : m.runFor note (n+1) a = if m.step.1.isFinal then
        (some m.step.1,m.step.2,note a m.step.1)
      else m.step.2.runFor note n (note a m.step.1) := rfl
    rw [run_bind_of_ok (run_step hm.fits),hround]
    cases hfinal : m.step.1.isFinal with
    | true => rfl
    | false => exact ih hm.step.1 (note a m.step.1)

/-! ### The reset -/

theorem grow_eq_grownSize (size needed : Int) : grow size needed = grownSize size needed := by
  fun_induction grow size needed with
  | case1 size h ih =>
    rw [ih]
    unfold grownSize
    split <;> split <;> omega
  | case2 size h =>
    rw [grownSize,if_pos (by omega)]

/-- Words go into cells that are still clear, behind those that are loaded. -/
theorem run_load (loaded : List Int) {ws : List Int} {n : Nat} (hws : ∀ w ∈ ws, Word.InRange w)
    (hlarge : loaded.length+(ws.length+n) < 0x8000000000000000)
    (hmemory : m.cpu.memory = (loaded ++ List.replicate (ws.length+n) 0).toArray) :
    (load ws loaded.length).run m = .ok () { m with cpu := { m.cpu with
      memory := (loaded ++ ws ++ List.replicate n 0).toArray } } := by
  induction ws generalizing loaded m with
  | nil =>
    have hsame : m.cpu.memory = (loaded ++ [] ++ List.replicate n 0).toArray := by
      simpa using hmemory
    rw [← hsame]
    rfl
  | cons w ws ih =>
    -- the first clear cell takes the word, and is loaded from then on
    have hsize : m.cpu.memory.size = loaded.length+(ws.length+1+n) := by
      simp [hmemory]
    rw [List.length_cons] at hlarge hmemory
    have hin : 0 ≤ (loaded.length : Int) ∧ (loaded.length : Int) < m.cpu.memory.size := by omega
    have hset := run_setCell (m := m) (by omega) hin w
    have hwritten : m.cpu.memory.setIfInBounds loaded.length (Word.signed w) =
        (loaded ++ [w] ++ List.replicate (ws.length+n) 0).toArray := by
      have hreplicate : List.replicate (ws.length+1+n) (0 : Int) =
          0 :: List.replicate (ws.length+n) 0 := by
        rw [Nat.add_right_comm,List.replicate_succ]
      rw [hmemory,hreplicate,Word.signed_of_inRange (hws w List.mem_cons_self),
        List.setIfInBounds_toArray,List.set_append_right _ _ le_rfl]
      simp
    rw [load,run_bind_of_ok hset]
    have hnext := ih (loaded ++ [w])
      (m := { m with cpu := { m.cpu with
        memory := m.cpu.memory.setIfInBounds loaded.length (Word.signed w) } })
      (fun v hv => hws v (List.mem_cons_of_mem w hv)) (by simp; omega) hwritten
    simpa using hnext

theorem run_load_program (hwords : ∀ w ∈ m.program, Word.InRange w) {cells : Nat}
    (hcells : m.program.size ≤ cells) (hfits : cells < 0x8000000000000000) :
    (load m.program.toList 0).run { m with cpu := { memory := Array.replicate cells 0 } } =
      .ok () { m with cpu := {
        memory := m.program ++ Array.replicate (cells - m.program.size) 0 } } := by
  have hsum : m.program.toList.length+(cells - m.program.size) = cells := by
    rw [Array.length_toList]
    omega
  have hload := run_load (m := { m with cpu := { memory := Array.replicate cells 0 } }) []
    (n := cells - m.program.size) (fun w hw => hwords w (Array.mem_toList_iff.mp hw))
    (by rw [hsum]; simpa using hfits)
    (by rw [hsum]; simp)
  have hloaded : m.program ++ Array.replicate (cells - m.program.size) 0 =
      ([] ++ m.program.toList ++ List.replicate (cells - m.program.size) 0).toArray := by
    apply Array.ext'
    simp
  rw [hloaded]
  exact hload

theorem run_reset {capacity : Nat} (hwords : ∀ w ∈ m.program, Word.InRange w)
    (h : m.reset capacity = .ok k) : (reset capacity).run m = .ok () k := by
  obtain ⟨hpos,hlarge,cells,⟨hcells,hfits,hhad⟩,rfl⟩ := reset_eq_ok.mp h
  have hempty : ¬m.program.isEmpty := by
    rw [Array.isEmpty_iff_size_eq_zero]
    omega
  have hroom : ¬(m.memorySize < m.program.size ∧ !m.resize) := by
    rintro ⟨hlt,hoff⟩
    obtain hle | hon := hlarge
    · omega
    · simp [hon] at hoff
  have hholds : m.program.size ≤ cells := by
    have hgrown := le_grownSize m.memorySize m.program.size
    omega
  have hclear : Cpu.reset capacity (grow m.memorySize m.program.size) =
      .ok { memory := Array.replicate cells 0 } := by
    rw [grow_eq_grownSize,hcells,Cpu.reset,cellCount_eq_ok.mpr ⟨rfl,hfits,hhad⟩]
    rfl
  have hcpu : (MonadExcept.ofExcept ((Cpu.reset capacity (grow m.memorySize m.program.size)).mapError
      Break.size) : Procedure Cpu).run m = .ok { memory := Array.replicate cells 0 } m := by
    rw [hclear]
    rfl
  rw [reset,run_bind_of_ok (EStateM.run_get m),if_neg hempty,if_neg hroom,run_bind_of_ok hcpu,
    run_bind_of_ok (EStateM.run_modify _ _),
    run_bind_of_ok (run_load_program hwords hholds hfits)]
  rfl

/-! ### Views -/

/-- Looks at the machine, one for each element of a list. -/
theorem run_mapM {f : α → Procedure β} {g : α → Option β} {l : List α}
    (h : ∀ a ∈ l, ∃ b, g a = some b ∧ (f a).run m = .ok b m) :
    ∃ bs, l.mapM g = some bs ∧ (l.mapM f).run m = .ok bs m := by
  induction l with
  | nil => exact ⟨[],rfl,rfl⟩
  | cons a l ih =>
    obtain ⟨b,hg,hf⟩ := h a List.mem_cons_self
    obtain ⟨bs,hgs,hfs⟩ := ih fun c hc => h c (List.mem_cons_of_mem a hc)
    refine ⟨b :: bs,?_,?_⟩
    · rw [List.mapM_cons,hg,hgs]
      rfl
    · rw [List.mapM_cons,run_bind_of_ok hf,run_bind_of_ok hfs]
      rfl

theorem run_codeLine (hm : m.Sound) {address : Nat} (h : address < m.program.size) :
    ∃ w, m.cpu.memory[address]? = some w ∧
      (codeLine address).run m = .ok s!"{Cpu.hex8 address}:\t{m.disassemble w}" m := by
  have hlt : address < m.cpu.memory.size := h.trans_le hm.program_le
  have hw := Array.getElem?_eq_getElem hlt
  obtain ⟨-,hcell⟩ := run_cell_of_getElem? hm.fits hw
  refine ⟨m.cpu.memory[address],hw,?_⟩
  rw [codeLine,run_bind_of_ok hcell,run_bind_of_ok (run_disassemble hm.fits _)]
  rfl

/-- The cells of the program are there, so all of them can be shown. -/
theorem run_disassembly (hm : m.Sound) :
    ∃ text, m.disassembly? = some text ∧ disassembly.run m = .ok text m := by
  obtain ⟨ls,hview,hrun⟩ := run_mapM (m := m) (l := List.range m.program.size) (f := codeLine)
    (g := fun (address : Nat) => do
      return s!"{Cpu.hex8 address}:\t{m.disassemble (← m.cpu.memory[address]?)}") (by
    intro address haddress
    obtain ⟨w,hw,hline⟩ := run_codeLine hm (List.mem_range.mp haddress)
    refine ⟨_,?_,hline⟩
    rw [hw]
    rfl)
  refine ⟨Text.unlines (["","=== DISASSEMBLED CODE ===",""] ++ ls),?_,?_⟩
  · rw [disassembly?,hview]
    rfl
  · rw [disassembly,run_bind_of_ok (EStateM.run_get m),run_bind_of_ok hrun]
    rfl

end Procedure

variable {m k : Machine}

/-- A reset depends on what the machine is built with and on the input that is left. -/
theorem reset_congr {capacity : Nat} (hbuild : k.build = m.build) (hinput : k.input = m.input) :
    k.reset capacity = m.reset capacity := by
  obtain ⟨isa,program,memorySize,resize,cpu,current,steps,halted,input⟩ := k
  obtain ⟨rfl,rfl,rfl,rfl⟩ : isa = m.isa ∧ program = m.program ∧ memorySize = m.memorySize ∧
      resize = m.resize := by simpa [build] using hbuild
  obtain rfl : input = m.input := hinput
  rfl

/-- What has been reset once can be reset again, if as many cells can be had. -/
theorem reset_of_build {n : Machine} {capacity available : Nat} (hbuild : k.build = m.build)
    (h : m.reset capacity = .ok n) (havailable : n.cpu.memory.size ≤ available) :
    k.reset available = .ok { n with input := k.input } := by
  have hsame : k.reset available = { m with input := k.input }.reset available :=
    reset_congr hbuild rfl
  obtain ⟨hsize,-⟩ := size_of_reset h
  obtain ⟨hpos,hroom,cells,⟨hcells,hfits,-⟩,rfl⟩ := reset_eq_ok.mp h
  rw [hsame]
  exact reset_eq_ok.mpr ⟨hpos,hroom,cells,⟨hcells,hfits,by omega⟩,rfl⟩

end Micro86.Machine
