import Micro86.InstructionSet.Bundled
import Micro86.Proofs.Machine.Unbroken

/-!
Starting over. Beside the calls of the machine there is its processor, which can be driven from
outside: registers set to any number, the memory cut down or replaced. Nothing of what holds between
calls survives that, except what the machine is built with, and a reset asks for no more. So whatever
was done to a machine, a reset makes it the machine that would be booted now.
-/
namespace Micro86

/-- What can be done to a processor from outside. -/
inductive Cpu.Access
  | reset (capacity : Nat) (size : Int)
  | inBounds (address : Int)
  | read (address : Int)
  | write (address value : Int)
  | setAcc (value : Int)
  | setFlags (value : Int)
  | dump
  | dumpMemory
  /-- Registers, flags or the memory put in as they are. -/
  | change (f : Cpu → Cpu)

namespace Machine

/-- A call of the machine, or an access to its processor. -/
inductive Operation
  | call (c : Call)
  | cpu (access : Cpu.Access)

/-- What comes back from an operation. -/
inductive Reply
  | done
  | outcome (o : Outcome)
  /-- The last outcome of a run, if there is one, and all that was shown on the way. -/
  | ran (o : Except Text.Unwritable Outcome) (shown : Transcript)
  | value (v : Int)
  | holds (b : Bool)
  | text (s : String)
  | fault (f : Fault)
  | refused (e : BootError)
  | noCell (e : AddressError)
  deriving DecidableEq, Repr

/-- An access answers, and leaves a processor. One that fails leaves the processor as it was. -/
def answer (c : Cpu) : Cpu.Access → Reply × Cpu
  | .reset capacity size =>
    match Cpu.reset capacity size with
    | .ok next => (.done,next)
    | .error e => (.refused (.size e),c)
  | .inBounds address => (.holds (c.inBounds address),c)
  | .read address =>
    match c.read address with
    | .ok v => (.value v,c)
    | .error e => (.noCell e,c)
  | .write address value =>
    match c.write address value with
    | .ok next => (.done,next)
    | .error e => (.noCell e,c)
  | .setAcc value => (.done,c.setAcc value)
  | .setFlags value => (.done,c.setFlags value)
  | .dump => (.text c.dump,c)
  | .dumpMemory => (.text c.dumpMemory,c)
  | .change f => (.done,f c)

/-- What an operation answers, and the machine that it leaves. A run without a limit answers if it
ends. -/
inductive Answers (m : Machine) : Operation → Reply → Machine → Prop
  | step : Answers m (.call .step) (.outcome m.step.1) m.step.2
  | run (limit : Int) : Answers m (.call (.run (some limit)))
      (.ran (m.run Transcript.note limit {}).1 (m.run Transcript.note limit {}).2.2)
      (m.run Transcript.note limit {}).2.1
  | runToEnd {n : Nat} {o : Outcome} {k : Machine} {shown : Transcript}
      (h : m.runFor Transcript.note n {} = (some o,k,shown)) :
      Answers m (.call (.run none)) (.ran (.ok o) shown) k
  | reset {capacity : Nat} {k : Machine} (h : m.reset capacity = .ok k) :
      Answers m (.call (.reset capacity)) .done k
  | resetFails {capacity : Nat} {e : BootError} (h : m.reset capacity = .error e) :
      Answers m (.call (.reset capacity)) (.refused e) m
  | read {address v : Int} (h : m.read address = .ok v) :
      Answers m (.call (.read address)) (.value v) m
  | readFails {address : Int} {f : Fault} (h : m.read address = .error f) :
      Answers m (.call (.read address)) (.fault f) m
  | write {address value : Int} {k : Machine} (h : m.write address value = .ok k) :
      Answers m (.call (.write address value)) .done k
  | writeFails {address value : Int} {f : Fault} (h : m.write address value = .error f) :
      Answers m (.call (.write address value)) (.fault f) m
  | cpu (access : Cpu.Access) :
      Answers m (.cpu access) (answer m.cpu access).1 { m with cpu := (answer m.cpu access).2 }

/-- One operation after another. -/
inductive Performs : Machine → List Operation → List Reply → Machine → Prop
  | nil (m : Machine) : Performs m [] [] m
  | cons {m next last : Machine} {op : Operation} {reply : Reply} {ops : List Operation}
      {replies : List Reply} (h : m.Answers op reply next) (rest : Performs next ops replies last) :
      Performs m (op :: ops) (reply :: replies) last

/-- The first of `start`, `start+20`, `start+40` and so on that is not below `needed`. -/
def FirstSize (start needed size : Int) : Prop :=
  ∃ k : Nat, size = start+20*k ∧ needed ≤ size ∧ ∀ j < k, start+20*(j : Int) < needed

/-- A machine to which nothing has been done: the words as signed words, zeros behind them, and all
else clear. -/
def untouched (isa : InstructionSet) (words : List Int) (memorySize : Int) (resize : Bool)
    (cells : Nat) (input : List Char) : Machine where
  isa := isa
  program := (words.map Word.signed).toArray
  memorySize := memorySize
  resize := resize
  cpu := {
    memory := (words.map Word.signed ++ List.replicate (cells - words.length) 0).toArray
    acc := 0, ip := 0, ir := 0, zero := false, sign := false }
  current := 0
  steps := 0
  halted := false
  input := input

variable {m k : Machine}

/-! ### Operations have one answer -/

/-- Runs that end, end alike, however long they are watched. -/
theorem runFor_unique {α : Type} {note : α → Outcome → α} {n n' : Nat} {a b b' : α} {o o' : Outcome}
    {k' : Machine} (h : m.runFor note n a = (some o,k,b))
    (h' : m.runFor note n' a = (some o',k',b')) : o = o' ∧ k = k' ∧ b = b' := by
  induction n generalizing m n' a with
  | zero => simp [runFor] at h
  | succ n ih =>
    cases n' with
    | zero => simp [runFor] at h'
    | succ n' =>
      simp only [runFor] at h h'
      split at h
      · next hfinal =>
        rw [if_pos hfinal] at h'
        cases h
        cases h'
        exact ⟨rfl,rfl,rfl⟩
      · next hfinal =>
        rw [if_neg hfinal] at h'
        exact ih h h'

theorem Answers.unique {op : Operation} {r r' : Reply} {k' : Machine} (h : m.Answers op r k)
    (h' : m.Answers op r' k') : r = r' ∧ k = k' := by
  cases h with
  | runToEnd h =>
    cases h' with
    | runToEnd h' =>
      obtain ⟨rfl,rfl,rfl⟩ := runFor_unique h h'
      exact ⟨rfl,rfl⟩
  | step | run | cpu => cases h'; exact ⟨rfl,rfl⟩
  | reset h | resetFails h | read h | readFails h | write h | writeFails h =>
    cases h' <;> simp_all

theorem Performs.unique {ops : List Operation} {replies replies' : List Reply} {k' : Machine}
    (h : m.Performs ops replies k) (h' : m.Performs ops replies' k') :
    replies = replies' ∧ k = k' := by
  induction h generalizing replies' with
  | nil =>
    cases h'
    exact ⟨rfl,rfl⟩
  | cons h rest ih =>
    cases h' with
    | cons h' rest' =>
      obtain ⟨rfl,rfl⟩ := h.unique h'
      obtain ⟨rfl,rfl⟩ := ih rest'
      exact ⟨rfl,rfl⟩

/-! ### What the machine is built with -/

theorem Answers.build_eq {op : Operation} {r : Reply} (h : m.Answers op r k) :
    k.build = m.build := by
  cases h with
  | step => exact m.build_step
  | run limit =>
    rw [run_machine]
    exact build_runFor Transcript.note _ m {}
  | @runToEnd n o k shown h =>
    have hbuild := build_runFor Transcript.note n m {}
    rw [h] at hbuild
    exact hbuild
  | reset h =>
    obtain ⟨-,-,cells,-,rfl⟩ := reset_eq_ok.mp h
    rfl
  | write h =>
    obtain ⟨-,rfl⟩ := write_eq_ok.mp h
    rfl
  | resetFails | read | readFails | writeFails | cpu => rfl

theorem Performs.build_eq {ops : List Operation} {replies : List Reply}
    (h : m.Performs ops replies k) : k.build = m.build := by
  induction h with
  | nil => rfl
  | cons h _ ih => exact ih.trans h.build_eq

/-! ### Boots -/

theorem firstSize_iff {start needed size : Int} :
    FirstSize start needed size ↔ size = grownSize start needed := by
  unfold grownSize
  constructor
  · rintro ⟨k,rfl,hle,hfirst⟩
    cases k with
    | zero =>
      rw [if_pos (by omega)]
      omega
    | succ k =>
      -- the size before is too small, so the quotient is the number of steps
      have hbefore := hfirst k (by omega)
      rw [if_neg (by omega)]
      omega
  · rintro rfl
    split
    · next hfits => exact ⟨0,by omega,hfits,by omega⟩
    · refine ⟨((needed - start+19)/20).toNat,by omega,by omega,?_⟩
      intro j hj
      omega

variable {capacity : Nat} {isa : InstructionSet} {words : List Int} {memorySize : Int}
variable {resize : Bool} {input : List Char}

/-- Which machines boot, and what they are then. -/
theorem boot_eq_ok : boot capacity isa words memorySize resize input = .ok m ↔
    words ≠ [] ∧ (words.length ≤ memorySize ∨ resize = true) ∧
    ∃ cells : Nat, FirstSize memorySize words.length cells ∧
      (cells < 0x8000000000000000 ∧ cells ≤ capacity) ∧
      m = untouched isa words memorySize resize cells input := by
  have hmemory (cells : Nat) : (words.map Word.signed).toArray ++
      Array.replicate (cells - words.length) 0 =
      (words.map Word.signed ++ List.replicate (cells - words.length) 0).toArray := by
    rw [← List.toArray_replicate,List.append_toArray]
  simp only [boot,reset_eq_ok,List.size_toArray,List.length_map,List.length_pos_iff,
    firstSize_iff,hmemory,and_assoc]
  refine and_congr_right fun _ => and_congr_right fun _ => exists_congr fun cells => ?_
  exact and_congr_left' eq_comm

/-- Which machines do not boot, and why. -/
theorem boot_eq_error {e : BootError} :
    boot capacity isa words memorySize resize input = .error e ↔
    (words = [] ∧ e = .fault ⟨.noProgram,0,0⟩) ∨
    (words ≠ [] ∧ memorySize < words.length ∧ resize = false ∧
      e = .fault ⟨.memoryViolation,memorySize,0⟩) ∨
    (words ≠ [] ∧ (words.length ≤ memorySize ∨ resize = true) ∧
      ∃ size, FirstSize memorySize words.length size ∧
        (0x8000000000000000 ≤ size ∧ e = .size .tooWide ∨
          size < 0x8000000000000000 ∧ capacity < size ∧ e = .size .exhausted)) := by
  obtain ⟨size,hsize⟩ := exists_natCast_grownSize memorySize words.length
  have hempty : (words.map Word.signed).toArray.isEmpty ↔ words = [] := by simp
  have hroom : (memorySize < words.length ∧ !resize) ↔
      ¬(words.length ≤ memorySize ∨ resize = true) := by simp
  simp only [boot,reset,hempty,hroom,List.size_toArray,List.length_map,firstSize_iff,hsize,
    exists_eq_left]
  split
  · next hnone => simp [hnone,eq_comm]
  · next hne =>
    split
    · next hsmall =>
      obtain ⟨hlt,hoff⟩ := hroom.mpr hsmall
      simp only [Bool.not_eq_true'] at hoff
      simp [hne,hlt,hoff,Int.not_le.mpr hlt,eq_comm]
    · next hlarge =>
      have hfits := not_not.mp hlarge
      simp only [bind_eq_error,mapError_eq_error,cellCount_eq_error]
      constructor
      · rintro (⟨e,⟨hwide,rfl⟩ | ⟨hlt,hfew,rfl⟩,rfl⟩ | ⟨cells,-,h⟩)
        · exact .inr (.inr ⟨hne,hfits,.inl ⟨by omega,rfl⟩⟩)
        · exact .inr (.inr ⟨hne,hfits,.inr ⟨by omega,by omega,rfl⟩⟩)
        · cases h
      · rintro (⟨hnone,-⟩ | ⟨-,hlt,hoff,-⟩ | ⟨-,-,⟨hwide,rfl⟩ | ⟨hlt,hfew,rfl⟩⟩)
        · exact absurd hnone hne
        · exact absurd (hroom.mp ⟨hlt,by simp [hoff]⟩) hlarge
        · exact .inl ⟨_,.inl ⟨by omega,rfl⟩,rfl⟩
        · exact .inl ⟨_,.inr ⟨by omega,by omega,rfl⟩,rfl⟩

/-- A machine fails to boot only for want of words, for want of room that may not be made, or for a
memory of a size that there is not, or of more cells than can be had; and then it says which.
Otherwise it is clear, with its words at the start of a memory of the first size that has room. After
any operations a reset does what a boot with the input that is left would do, and with as many cells
as at first it makes the same machine. Whatever is done then has the same results with both. -/
theorem reset_restores_boot (capacity : Nat) (isa : InstructionSet) (words : List Int)
    (memorySize : Int) (resize : Bool) (input : List Char) :
    (∀ e, boot capacity isa words memorySize resize input = .error e ↔
      (words = [] ∧ e = .fault ⟨.noProgram,0,0⟩) ∨
      (words ≠ [] ∧ memorySize < words.length ∧ resize = false ∧
        e = .fault ⟨.memoryViolation,memorySize,0⟩) ∨
      (words ≠ [] ∧ (words.length ≤ memorySize ∨ resize = true) ∧
        ∃ size, FirstSize memorySize words.length size ∧
          (0x8000000000000000 ≤ size ∧ e = .size .tooWide ∨
            size < 0x8000000000000000 ∧ capacity < size ∧ e = .size .exhausted))) ∧
    ∀ m, boot capacity isa words memorySize resize input = .ok m →
      ∃ cells : Nat, FirstSize memorySize words.length cells ∧ cells ≤ capacity ∧
        m = untouched isa words memorySize resize cells input ∧
        ∀ ops replies k, m.Performs ops replies k → ∀ available,
          k.reset available = boot available isa words memorySize resize k.input ∧
          (cells ≤ available →
            k.reset available = .ok (untouched isa words memorySize resize cells k.input) ∧
            (Procedure.reset available).run k =
              .ok () (untouched isa words memorySize resize cells k.input)) ∧
          ∀ restarted fresh, k.reset available = .ok restarted →
            boot available isa words memorySize resize k.input = .ok fresh →
            ∀ again results last, restarted.Performs again results last →
              fresh.Performs again results last ∧
              ∀ results' last', fresh.Performs again results' last' →
                results' = results ∧ last' = last := by
  refine ⟨fun e => boot_eq_error,?_⟩
  intro m hboot
  obtain ⟨hne,hroom,cells,hcells,⟨hfits,hhad⟩,rfl⟩ := boot_eq_ok.mp hboot
  refine ⟨cells,hcells,hhad,rfl,?_⟩
  intro ops replies k hk available
  have hbuild := hk.build_eq
  have hagain : k.reset available = boot available isa words memorySize resize k.input :=
    reset_congr hbuild rfl
  refine ⟨hagain,?_,?_⟩
  · intro havailable
    have hreset : k.reset available = .ok (untouched isa words memorySize resize cells k.input) :=
      hagain.trans (boot_eq_ok.mpr ⟨hne,hroom,cells,hcells,⟨hfits,havailable⟩,rfl⟩)
    have hprogram : k.program = (words.map Word.signed).toArray := congrArg (fun b => b.2.1) hbuild
    have hwords : ∀ w ∈ k.program, Word.InRange w := hprogram ▸ (sound_of_boot hboot).1.words
    exact ⟨hreset,Procedure.run_reset hwords hreset⟩
  · intro restarted fresh hrestarted hfresh again results last hlast
    obtain rfl : restarted = fresh :=
      Except.ok.inj (hrestarted.symm.trans (hagain.trans hfresh))
    refine ⟨hlast,?_⟩
    intro results' last' hlast'
    exact hlast'.unique hlast

/-- A memory of less than no cells grows to fifteen. The program overwrites itself, the registers are
set to what no instruction could leave, and the memory is taken away. -/
theorem reset_restores_boot_without_memory :
    let isa : InstructionSet := ⟨"set",[⟨"STORE",0x302,true,false,some .store,1⟩]⟩
    let m := untouched isa [0x3020000] (-25) true 15 ['x']
    let ops : List Operation := [.call .step,
      .cpu (.change fun c => { c with acc := 0x10000000000, ip := -7 }),.call (.run (some 9)),
      .cpu (.reset 20 0),.call (.write 0 5)]
    let k : Machine := { m with cpu := {}, steps := 1 }
    boot 20 isa [0x3020000] (-25) true ['x'] = .ok m ∧ m.step.2.cpu.memory[0]? = some 0 ∧
    (∃ replies, m.Performs ops replies k) ∧ k.reset 20 = .ok m ∧
    k.reset 10 = .error (.size .exhausted) := by
  intro isa m ops k
  have hboot : boot 20 isa [0x3020000] (-25) true ['x'] = .ok m := by decide
  obtain ⟨last,⟨replies,hops⟩,rfl⟩ : ∃ last, (∃ replies, m.Performs ops replies last) ∧ last = k :=
    ⟨_,⟨_,.cons .step (.cons (.cpu _) (.cons (.run 9) (.cons (.cpu _)
      (.cons (.writeFails (f := ⟨.memoryViolation,0,0⟩) (by decide)) (.nil _)))))⟩,by decide⟩
  obtain ⟨-,hboots⟩ := reset_restores_boot 20 isa [0x3020000] (-25) true ['x']
  obtain ⟨cells,-,hcells,hm,hafter⟩ := hboots m hboot
  have hreset := ((hafter ops replies k hops 20).2.1 hcells).1
  obtain ⟨hfew,-⟩ := hafter ops replies k hops 10
  have hrefused : boot 10 isa [0x3020000] (-25) true ['x'] = .error (.size .exhausted) := by decide
  exact ⟨hboot,by decide,⟨replies,hops⟩,hreset.trans (congrArg Except.ok hm.symm),
    hfew.trans hrefused⟩

/-- One word fits into a memory of 2^63 cells, but there is no memory of that size, however many
cells can be had. -/
theorem boot_refuses_wide_memory :
    (([0x1000000] : List Int).length : Int) ≤ 0x8000000000000000 ∧
    ∀ capacity, boot capacity InstructionSet.bundled [0x1000000] 0x8000000000000000 false [] =
      .error (.size .tooWide) := ⟨by decide,fun _ => rfl⟩

end Machine
end Micro86
