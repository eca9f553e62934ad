import Micro86.Proofs.InstructionSet.Bundled
import Micro86.Proofs.Machine.Simulation

/-!
Comparisons and the jumps behind them. A comparison keeps the sign of the difference, cut to a
signed word, and a jump asks that sign. Whether two numbers are equal is never lost that way. Which
of them is less is lost exactly if their difference leaves the signed words: then every jump that
asks for the order goes the wrong way.
-/
namespace Micro86

/-- The relations of two numbers that a jump can ask for. -/
inductive Relation
  | eq
  | ne
  | lt
  | le
  | gt
  | ge
  deriving DecidableEq, Repr

namespace Relation

/-- The jump that asks for a relation. -/
def role : Relation → Role
  | eq => .je
  | ne => .jne
  | lt => .jl
  | le => .jle
  | gt => .jg
  | ge => .jge

def holds : Relation → Int → Int → Bool
  | eq,a,v => a = v
  | ne,a,v => a ≠ v
  | lt,a,v => a < v
  | le,a,v => a ≤ v
  | gt,a,v => v < a
  | ge,a,v => v ≤ a

/-- Whether a relation is about which of two numbers is less. -/
def isOrder : Relation → Bool
  | eq | ne => false
  | lt | le | gt | ge => true

theorem role_isJump (relation : Relation) : relation.role.isJump = true := by
  cases relation <;> rfl

end Relation

/-! ### Differences of signed words -/

namespace Word
variable {a v : Int}

theorem signed_sub_eq_zero_iff (ha : InRange a) (hv : InRange v) :
    signed (a - v) = 0 ↔ a = v := by
  obtain ⟨ha,ha'⟩ := ha
  obtain ⟨hv,hv'⟩ := hv
  rw [signed_eq]
  split <;> omega

/-- A difference that leaves the signed words comes back with the other sign. -/
theorem signed_sub_neg_iff_of_not_inRange (ha : InRange a) (hv : InRange v)
    (h : ¬InRange (a - v)) : signed (a - v) < 0 ↔ v < a := by
  obtain ⟨ha,ha'⟩ := ha
  obtain ⟨hv,hv'⟩ := hv
  unfold InRange at h
  rw [signed_eq]
  split <;> omega

end Word

/-- The sign of the difference says what a relation asks, unless it asks for the order and the
difference leaves the signed words. -/
theorem Relation.holds_signed_sub_iff (relation : Relation) {a v : Int} (ha : Word.InRange a)
    (hv : Word.InRange v) :
    relation.holds (Word.signed (a - v)) 0 = relation.holds a v ↔
      relation.isOrder = false ∨ Word.InRange (a - v) := by
  have hzero := Word.signed_sub_eq_zero_iff ha hv
  by_cases hrange : Word.InRange (a - v)
  · -- the difference itself, and its sign is the order
    simp only [hrange,or_true,iff_true,Word.signed_of_inRange hrange]
    cases relation <;> simp only [holds,decide_eq_decide] <;> omega
  · have hneg := Word.signed_sub_neg_iff_of_not_inRange ha hv hrange
    -- equal numbers have a difference of zero, which is a signed word
    have hne : a ≠ v := by
      rintro rfl
      exact hrange (by simpa using Word.zero_inRange)
    simp only [hrange,or_false]
    cases relation <;> simp only [holds,isOrder,decide_eq_decide,reduceCtorEq,iff_false,iff_true]
    all_goals omega

namespace Machine

/-- The instruction that the next step fetches: its role, its operand half, and whether the operand
is immediate. -/
structure Upcoming (m : Machine) (role : Role) (operand : Nat) (immediate : Bool) : Prop where
  running : m.halted = false
  fetch : m.fetch = .ok m.fetched
  operand_eq : (Word.decode m.fetched.cpu.ir).2 = operand
  entry : ∃ e, m.isa.byOpcode? (Word.decode m.fetched.cpu.ir).1 = some e ∧ e.role = some role ∧
    e.isImmediate = immediate

variable {m k : Machine} {role : Role} {operand : Nat} {immediate : Bool} {v : Int}

/-- The step carries the instruction out. -/
theorem Upcoming.step_eq (h : m.Upcoming role operand immediate) {e : Effect}
    (he : m.fetched.perform operand immediate role = .ok e) :
    m.step = ({ halted := e.halts, output := e.output, trace := some m.fetched.traceLine },
      apply e) := by
  obtain ⟨d,hd,hrole,himmediate⟩ := h.entry
  have hexecute : m.fetched.execute = .ok e := by
    refine execute_eq_ok.mpr ⟨d,role,hd,hrole,?_⟩
    rw [h.operand_eq,himmediate,he]
  simp [step,h.running,h.fetch,hexecute]

theorem value_fetched (h : m.value operand immediate = .ok v) :
    m.fetched.value operand immediate = .ok v := by
  cases immediate with
  | true => exact h
  | false => exact read_eq_ok.mpr ((read_eq_ok (m := m)).mp h)

/-- What is compared is a signed word: half a word with its sign, or a cell. -/
theorem Sound.value_inRange (hs : m.Sound) (h : m.value operand immediate = .ok v) :
    Word.InRange v := by
  cases immediate with
  | true =>
    obtain rfl := Except.ok.inj h
    rw [Word.signExtend_eq]
    unfold Word.InRange
    split <;> omega
  | false =>
    obtain ⟨-,rfl⟩ := read_eq_ok.mp h
    exact getD_inRange hs.cells _

/-- A comparison changes the flags only, and goes on. -/
theorem Upcoming.step_compare (h : m.Upcoming .cmp operand immediate)
    (hv : m.value operand immediate = .ok v) :
    m.step.1.fault = none ∧
      m.step.2 = { m.fetched with
        steps := m.steps+1, cpu := m.fetched.cpu.setFlags (m.cpu.acc - v) } := by
  have hperform : m.fetched.perform operand immediate .cmp =
      .ok { machine := { m.fetched with cpu := m.fetched.cpu.setFlags (m.cpu.acc - v) } } := by
    simp only [perform,value_fetched hv,ok_bind]
    rfl
  rw [h.step_eq hperform]
  simp [apply,fetched]

/-- A jump goes to its operand or goes on. -/
theorem Upcoming.step_jump (h : m.Upcoming role operand immediate) (hjump : role.isJump) :
    m.step.1.fault = none ∧
      m.step.2.cpu.ip = if m.jumps role then (operand : Int) else m.cpu.ip+1 := by
  have hjumps : m.fetched.jumps role = m.jumps role := by
    cases role <;> simp [Role.isJump] at hjump <;> rfl
  rw [h.step_eq (perform_jump hjump operand immediate),hjumps]
  cases m.jumps role <;> simp [apply,jumpIf,fetched]

/-- The flags of a number tell how the number, cut to a signed word, relates to zero. -/
theorem jumps_of_flags {n : Int} (hzero : m.cpu.zero = decide (Word.signed n = 0))
    (hsign : m.cpu.sign = decide (Word.signed n < 0)) (relation : Relation) :
    m.jumps relation.role = relation.holds (Word.signed n) 0 := by
  rw [Bool.eq_iff_iff]
  cases relation <;> simp only [Machine.jumps,Relation.role,perform,jumpIf_target_isSome,
    Relation.holds,hzero,hsign,Bool.or_eq_true,Bool.and_eq_true,Bool.not_eq_true',
    decide_eq_true_eq,decide_eq_false_iff_not] <;> omega

/-- At any time, a comparison of the accumulator with a number, both of them signed words, lets a
jump behind it go to its operand or go on. For equal and not equal the jump does what the two
numbers say. For less, at most, greater and at least it does exactly if the difference of the
numbers is a signed word too. -/
theorem jump_follows_comparison_iff {capacity : Nat} {isa : InstructionSet} {words : List Int}
    {memorySize : Int} {resize : Bool} {input : List Char}
    (hboot : boot capacity isa words memorySize resize input = .ok m) (hr : m.Reaches k)
    (hcompare : k.Upcoming .cmp operand immediate)
    (hv : k.value operand immediate = .ok v) :
    Word.InRange k.cpu.acc ∧ Word.InRange v ∧ k.step.1.fault = none ∧
    ∀ (relation : Relation) (target : Nat) (mark : Bool),
      k.step.2.Upcoming relation.role target mark →
        k.step.2.step.1.fault = none ∧
        k.step.2.step.2.cpu.ip =
          (if k.step.2.jumps relation.role then (target : Int) else k.cpu.ip+2) ∧
        (k.step.2.jumps relation.role = relation.holds k.cpu.acc v ↔
          relation.isOrder = false ∨ Word.InRange (k.cpu.acc - v)) := by
  have hs := ((sound_of_boot hboot).1.reaches hr).1
  have hvalue := hs.value_inRange hv
  obtain ⟨hfault,hstep⟩ := hcompare.step_compare hv
  refine ⟨hs.acc,hvalue,hfault,?_⟩
  intro relation target mark hjump
  obtain ⟨hgoes,hip⟩ := hjump.step_jump relation.role_isJump
  have hflags : k.step.2.jumps relation.role =
      relation.holds (Word.signed (k.cpu.acc - v)) 0 := by
    rw [hstep]
    exact jumps_of_flags rfl rfl relation
  refine ⟨hgoes,?_,?_⟩
  · have hnext : k.step.2.cpu.ip+1 = k.cpu.ip+2 := by
      rw [hstep]
      simp only [Cpu.setFlags,fetched]
      omega
    rw [hip,hnext]
  · rw [hflags]
    exact relation.holds_signed_sub_iff hs.acc hvalue

/-- The largest difference: zero is greater than a cell that holds `-2147483647`. -/
theorem jump_follows_comparison_of_largest_difference :
    let isa : InstructionSet := ⟨"set",[⟨"CMP",1,true,false,some .cmp,1⟩,
      ⟨"JG",2,true,true,some .jg,2⟩]⟩
    let m : Machine := ⟨isa,#[0x10002,0x20007,-0x7FFFFFFF],3,false,
      { memory := #[0x10002,0x20007,-0x7FFFFFFF] },0,0,false,[]⟩
    boot 20 isa [0x10002,0x20007,0x80000001] 3 false [] = .ok m ∧
      m.Upcoming .cmp 2 false ∧ m.value 2 false = .ok (-0x7FFFFFFF) ∧
      m.step.2.Upcoming .jg 7 true ∧ m.step.2.step.2.cpu.ip = 7 := by
  intro isa m
  have hboot : boot 20 isa [0x10002,0x20007,0x80000001] 3 false [] = .ok m := by decide
  have hcompare : m.Upcoming .cmp 2 false :=
    ⟨rfl,rfl,by decide,⟨⟨"CMP",1,true,false,some .cmp,1⟩,by decide,rfl,rfl⟩⟩
  have hv : m.value 2 false = .ok (-0x7FFFFFFF) := by decide
  have hjump : m.step.2.Upcoming .jg 7 true :=
    ⟨by decide,by decide,by decide,⟨⟨"JG",2,true,true,some .jg,2⟩,by decide,rfl,rfl⟩⟩
  obtain ⟨-,-,-,hfollows⟩ := jump_follows_comparison_iff hboot .start hcompare hv
  obtain ⟨-,hip,hiff⟩ := hfollows .gt 7 true hjump
  have htaken : m.step.2.jumps .jg = true := hiff.mpr (.inr (by decide))
  refine ⟨hboot,hcompare,hv,hjump,?_⟩
  rw [hip]
  simp only [Relation.role,htaken]
  rfl

/-- The larger of `-2147483648` and `1`, by a comparison and a jump: the difference is no signed
word, so the jump for at least is taken, and the smaller of the two is kept. -/
theorem maximum_keeps_smaller_number :
    let tokens : List Token := [⟨"VAR",1⟩,⟨"X",1⟩,⟨"-2147483648",1⟩,⟨"VAR",2⟩,⟨"Y",2⟩,⟨"1",2⟩,
      ⟨"VAR",3⟩,⟨"MAX",3⟩,⟨"0",3⟩,⟨"LOAD",4⟩,⟨"X",4⟩,⟨"CMP",5⟩,⟨"Y",5⟩,⟨"JGEI",6⟩,⟨"X_BIG",6⟩,
      ⟨"LOAD",7⟩,⟨"Y",7⟩,⟨"STORE",8⟩,⟨"MAX",8⟩,⟨"HALT",9⟩,⟨"X_BIG:",10⟩,⟨"STORE",10⟩,⟨"MAX",10⟩,
      ⟨"HALT",11⟩]
    let p : Program := ⟨[⟨0x0202,"LOAD",some "X",4⟩,⟨0x0902,"CMP",some "Y",5⟩,
      ⟨0x1001,"JGEI",some "X_BIG",6⟩,⟨0x0202,"LOAD",some "Y",7⟩,⟨0x0302,"STORE",some "MAX",8⟩,
      ⟨0x0100,"HALT",none,9⟩,⟨0x0302,"STORE",some "MAX",10⟩,⟨0x0100,"HALT",none,11⟩],
      [("X_BIG",6)],[("X",-0x80000000),("Y",1),("MAX",0)]⟩
    let image : Image := ⟨[0x02020008,0x09020009,0x10010006,0x02020009,0x0302000A,0x01000000,
      0x0302000A,0x01000000],[0x80000000,1,0]⟩
    Program.parse InstructionSet.bundled tokens = .ok p ∧
    Image.ofProgram InstructionSet.bundled p = .ok image ∧
    ∃ m k last, boot 20 InstructionSet.bundled (image.words.map Int.ofNat) 20 false [] = .ok m ∧
      m.after 1 = .ok (k,"") ∧ k.Upcoming .cmp 9 false ∧ k.value 9 false = .ok 1 ∧
      k.step.2.Upcoming .jge 6 true ∧ k.step.2.step.2.cpu.ip = 6 ∧ ¬k.cpu.acc ≥ 1 ∧
      m.after 5 = .ok (last,"") ∧ last.halted = true ∧
      last.cpu.memory[10]? = some (-0x80000000) ∧ max (-0x80000000 : Int) 1 = 1 := by
  intro tokens p image
  let m : Machine := ⟨InstructionSet.bundled,#[0x02020008,0x09020009,0x10010006,0x02020009,
    0x0302000A,0x01000000,0x0302000A,0x01000000,-0x80000000,1,0],20,false,
    { memory := #[0x02020008,0x09020009,0x10010006,0x02020009,0x0302000A,0x01000000,0x0302000A,
      0x01000000,-0x80000000,1,0] ++ Array.replicate 9 0 },0,0,false,[]⟩
  let k : Machine := { m with
    steps := 1, cpu := { m.cpu with acc := -0x80000000, ip := 1, ir := 0x02020008 } }
  let last : Machine := { m with
    steps := 5
    current := 7
    halted := true
    cpu := { m.cpu with
      memory := m.cpu.memory.setIfInBounds 10 (-0x80000000)
      acc := -0x80000000
      ip := 8
      ir := 0x01000000 } }
  have hparse : Program.parse InstructionSet.bundled tokens = .ok p := by
    rw [InstructionSet.bundled_eq]
    decide +kernel
  have himage : Image.ofProgram InstructionSet.bundled p = .ok image := by
    rw [InstructionSet.bundled_eq]
    decide +kernel
  have hboot : boot 20 InstructionSet.bundled (image.words.map Int.ofNat) 20 false [] = .ok m := rfl
  have hafter : m.after 1 = .ok (k,"") := by
    simp only [m,k,InstructionSet.bundled_eq]
    decide +kernel
  have hlast : m.after 5 = .ok (last,"") := by
    simp only [m,last,InstructionSet.bundled_eq]
    decide +kernel
  have hcompare : k.Upcoming .cmp 9 false := by
    simp only [m,k,InstructionSet.bundled_eq]
    exact ⟨rfl,by decide +kernel,by decide +kernel,
      ⟨⟨"CMP",0x0902,true,false,some .cmp,23⟩,by decide +kernel,rfl,rfl⟩⟩
  have hjump : k.step.2.Upcoming .jge 6 true := by
    simp only [m,k,InstructionSet.bundled_eq]
    exact ⟨by decide +kernel,by decide +kernel,by decide +kernel,
      ⟨⟨"JGEI",0x1001,true,true,some .jge,33⟩,by decide +kernel,rfl,rfl⟩⟩
  have hgoes : k.step.2.step.2.cpu.ip = 6 := by
    simp only [m,k,InstructionSet.bundled_eq]
    decide +kernel
  exact ⟨hparse,himage,m,k,last,hboot,hafter,hcompare,rfl,hjump,hgoes,by decide,hlast,rfl,
    by decide +kernel,by decide⟩

end Machine
end Micro86
