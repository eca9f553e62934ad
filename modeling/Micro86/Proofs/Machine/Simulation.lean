import Micro86.Proofs.Image
import Micro86.Proofs.Machine.Invariant
import Micro86.Proofs.Program.Semantics

/-!
A machine that boots with the image of a program runs the program. The machine and the source
level go step by step: code cells are never written, every variable's cell holds the variable's
value, and jumps stay inside the code or go to its end. A step that fails on one side fails on
the other for the same cause, at the same place.
-/
namespace Micro86

namespace Machine

/-- One more step, behind the text shown so far; it may not fail. -/
def proceed (session : Machine × String) : Except Fault (Machine × String) :=
  match session.1.step with
  | (o,next) =>
    match o.fault with
    | some f => .error f
    | none => .ok (next,session.2 ++ o.outputText.getD "")

/-- The machine after a number of steps, none of which may fail, and the text they show. -/
def after : Nat → Machine → Except Fault (Machine × String)
  | 0,m => .ok (m,"")
  | n+1,m => after n m >>= proceed

end Machine

open Machine

/-- A machine and the source level hold the same: registers, flags, input, and the value of
every variable at its address; the code cells hold the words of the image. -/
structure Agrees (p : Program) (image : Image) (s : SourceState) (m : Machine) : Prop where
  acc : m.cpu.acc = s.acc
  zero : m.cpu.zero = s.zero
  sign : m.cpu.sign = s.sign
  ip : m.cpu.ip = s.pc
  input : m.input = s.input
  halted : m.halted = s.halted
  vars : ∀ name a, p.address? name = some a → m.cpu.memory[a]? = some (s.store name)
  code : ∀ (i : Nat) (w : Nat), image.code[i]? = some w → m.cpu.memory[i]? = some (Word.signed w)

/-- Both levels go on and agree, or both fail for the same cause at the same place. -/
def Matches (p : Program) (image : Image) :
    Except SourceFault SourceState → Except Fault (Machine × String) → Prop
  | .ok s,.ok (m,shown) => Agrees p image s m ∧ shown = s.output
  | .error e,.error f => f.cause = e.cause ∧ f.address = e.position
  | _,_ => False

variable {isa : InstructionSet} {p : Program} {image : Image} {code : List ResolvedInstruction}
variable {s : SourceState} {m : Machine}

theorem Matches.of_ok {machine : Except Fault (Machine × String)}
    (h : Matches p image (.ok s) machine) :
    ∃ k, machine = .ok (k,s.output) ∧ Agrees p image s k := by
  cases machine with
  | error f => exact h.elim
  | ok session =>
    obtain ⟨k,text⟩ := session
    obtain ⟨hagrees,rfl⟩ := h
    exact ⟨k,rfl,hagrees⟩

theorem Matches.of_error {e : SourceFault} {machine : Except Fault (Machine × String)}
    (h : Matches p image (.error e) machine) :
    ∃ f, machine = .error f ∧ f.cause = e.cause ∧ f.address = e.position := by
  cases machine with
  | error f => exact ⟨f,rfl,h⟩
  | ok session => exact h.elim

/-! ### What instructions do on both levels -/

namespace Agrees

theorem accumulate (h : Agrees p image s m) (n : Int) :
    Agrees p image (s.accumulate n) (apply (m.fetched.accumulate n)) where
  __ := h
  acc := rfl
  ip := by simp [apply,Machine.accumulate,fetched,Cpu.setAcc,SourceState.accumulate,
    SourceState.advance,h.ip]
  halted := by simp [apply,Machine.accumulate,fetched,h.halted,SourceState.accumulate,
    SourceState.advance]

theorem input_cons (h : Agrees p image s m) {rest : List Char} (n : Int) :
    Agrees p image (SourceState.accumulate { s with input := rest } n)
      (apply (Machine.accumulate { m.fetched with input := rest } n)) where
  __ := h.accumulate n
  input := rfl

theorem compare (h : Agrees p image s m) (n : Int) :
    Agrees p image (s.compare n)
      (apply { machine := { m.fetched with cpu := m.fetched.cpu.setFlags n } }) where
  __ := h
  zero := rfl
  sign := rfl
  ip := by simp [apply,fetched,Cpu.setFlags,SourceState.compare,SourceState.advance,h.ip]
  halted := by simp [apply,fetched,h.halted,SourceState.compare,SourceState.advance]

theorem goto (h : Agrees p image s m) (position : Nat) (taken : Bool) :
    Agrees p image (s.goto position taken) (apply (m.fetched.jumpIf position taken)) := by
  cases taken with
  | false =>
    exact { h with
      ip := by simp [apply,jumpIf,fetched,SourceState.goto,SourceState.advance,h.ip]
      halted := by simp [apply,jumpIf,fetched,SourceState.goto,SourceState.advance,h.halted] }
  | true =>
    exact { h with
      ip := by simp [apply,jumpIf,SourceState.goto]
      halted := by simp [apply,jumpIf,fetched,SourceState.goto,h.halted] }

theorem halt (h : Agrees p image s m) :
    Agrees p image { s.advance with halted := true }
      (apply { machine := m.fetched, halts := true }) where
  __ := h
  ip := by simp [apply,fetched,SourceState.advance,h.ip]
  halted := by simp [apply]

theorem emit (h : Agrees p image s m) (c : Char) :
    Agrees p image s.emit (apply { machine := m.fetched, output := some c }) where
  __ := h
  ip := by simp [apply,fetched,SourceState.emit,SourceState.advance,h.ip]
  halted := by simp [apply,fetched,h.halted,SourceState.emit,SourceState.advance]

/-- A store changes the cell of its variable: no code cell, and no other variable's. -/
theorem assign (hl : Image.Linked isa p code image) (hs : m.Sound) (h : Agrees p image s m)
    {name : String} {a : Nat} (ha : p.address? name = some a) :
    ∃ k, m.fetched.write a m.fetched.cpu.acc = .ok k ∧
      Agrees p image (s.assign name) (apply { machine := k }) := by
  have hcell := h.vars name a ha
  have hbound : a < m.cpu.memory.size := (Array.getElem?_eq_some_iff.mp hcell).1
  have hacc : Word.signed m.cpu.acc = s.acc := by
    rw [Word.signed_of_inRange hs.acc,h.acc]
  refine ⟨_,write_eq_ok.mpr ⟨⟨by omega,by simpa [fetched] using hbound⟩,rfl⟩,?_⟩
  refine { h with ip := ?_, halted := ?_, vars := ?_, code := ?_ }
  · simp [apply,fetched,SourceState.assign,SourceState.advance,h.ip]
  · simp [apply,fetched,SourceState.assign,SourceState.advance,h.halted]
  · intro other b hb
    by_cases hsame : other = name
    · subst hsame
      obtain rfl : a = b := Option.some.inj (ha.symm.trans hb)
      simp [apply,fetched,SourceState.assign,hbound,hacc]
    · have hne : a ≠ b := by
        rintro rfl
        exact hsame (Program.address?_injective hl.program.vars_nodup hb ha)
      simp [apply,fetched,SourceState.assign,hsame,Array.getElem?_setIfInBounds_ne hne,
        h.vars other b hb]
  · intro i w hw
    obtain ⟨j,v,-,hj⟩ := (Program.address?_eq_some hl.program.vars_nodup).mp ha
    have hi : i < image.code.length := (List.getElem?_eq_some_iff.mp hw).1
    have hne : a ≠ i := by
      rw [hl.image_length] at hi
      omega
    simp [apply,fetched,Array.getElem?_setIfInBounds_ne hne,h.code i w hw]

end Agrees

/-! ### One instruction -/

/-- The operand half of the word of an instruction. -/
def operandHalf (r : ResolvedInstruction) : Nat :=
  (((r.operand.map Operand.value).getD 0) % 0x10000).toNat

theorem operandHalf_natCast {i : Instruction} {role : Option Role} {immediate : Bool}
    {kind : OperandKind} {text : String} {n : Nat} (h : (n : Int) ≤ 0xFFFF) :
    operandHalf ⟨i,role,immediate,some ⟨kind,text,n⟩⟩ = n := by
  simp only [operandHalf,Option.map_some,Option.getD_some]
  omega

/-- An operand that is read means the same number on both levels. -/
theorem value_agrees (h : Agrees p image s m) {r : ResolvedInstruction} {role : Role}
    (hb : r.Bound p role) (hv : role.takesValue)
    (hfits : ∀ o, r.operand = some o → o.value ≤ 0xFFFF) :
    ∃ v, s.value r = .ok v ∧ m.fetched.value (operandHalf r) r.isImmediate = .ok v := by
  cases hb with
  | plain htakes => simp [Role.takesValue,htakes] at hv
  | position hjump | label hjump => simp [Role.takesValue,hjump] at hv
  | @direct i role name a htakes hjump ha =>
    have hcell := h.vars name a ha
    obtain ⟨hbound,hget⟩ := Array.getElem?_eq_some_iff.mp hcell
    refine ⟨s.store name,rfl,?_⟩
    rw [operandHalf_natCast (hfits _ rfl)]
    refine read_eq_ok.mpr ⟨⟨by omega,by simpa [fetched] using hbound⟩,?_⟩
    simp [fetched,hcell]
  | @value i role o hrole hkind =>
    refine ⟨Word.signExtend o.value,rfl,?_⟩
    have hhalf : ((operandHalf ⟨i,some role,true,some o⟩ : Nat) : Int) = o.value % 0x10000 := by
      simp only [operandHalf,Option.map_some,Option.getD_some]
      omega
    simp only [Machine.value,if_true]
    rw [hhalf,Word.signExtend_emod]

/-- Both levels carry out an instruction and agree, or fail for the same cause. -/
def EffectMatches (p : Program) (image : Image) (s : SourceState) :
    Except FaultCause SourceState → Except Fault Effect → Prop
  | .ok t,.ok e => Agrees p image t (apply e) ∧
      t.output = s.output ++ (e.output.map fun c => String.ofList [c,'\n']).getD ""
  | .error c,.error f => f.cause = c ∧ f.address = s.pc
  | _,_ => False

theorem current_fetched (h : Agrees p image s m) : (m.fetched.current : Int) = s.pc := by
  simp [fetched,h.ip]

/-- A jump goes to the same position on both levels, or goes on on both. -/
theorem jump_agrees (h : Agrees p image s m) {r : ResolvedInstruction} {role : Role} {n : Nat}
    (hjump : role.isJump) (htarget : SourceState.target r = .ok n) (hhalf : operandHalf r = n)
    (immediate : Bool) :
    EffectMatches p image s (s.perform r role)
      (m.fetched.perform (operandHalf r) immediate role) := by
  have hzero : m.fetched.cpu.zero = s.zero := h.zero
  have hsign : m.fetched.cpu.sign = s.sign := h.sign
  have hsource : s.perform r role = .ok (s.goto n (m.fetched.jumps role)) := by
    cases role <;> simp [Role.isJump] at hjump <;>
      simp [SourceState.perform,htarget,Machine.jumps,Machine.perform,hzero,hsign]
  rw [hsource,perform_jump hjump,hhalf]
  refine ⟨h.goto n _,?_⟩
  cases m.fetched.jumps role <;> simp [SourceState.goto,SourceState.advance,jumpIf]

theorem perform_agrees (hl : Image.Linked isa p code image) (hs : m.Sound)
    (h : Agrees p image s m) {r : ResolvedInstruction} {role : Role} (hb : r.Bound p role)
    (hfits : ∀ o, r.operand = some o → o.value ≤ 0xFFFF) :
    EffectMatches p image s (s.perform r role)
      (m.fetched.perform (operandHalf r) r.isImmediate role) := by
  have hacc : m.fetched.cpu.acc = s.acc := h.acc
  cases hv : role.takesValue with
  | true =>
    obtain ⟨v,hsource,hmachine⟩ := value_agrees h hb hv hfits
    cases role <;> simp [Role.takesValue,Role.takesOperand,Role.isJump] at hv
    case load | add | sub | mul =>
      simp only [SourceState.perform,Machine.perform,hsource,hmachine,hacc,ok_bind]
      exact ⟨h.accumulate _,by simp [SourceState.accumulate,SourceState.advance,Machine.accumulate]⟩
    case cmp =>
      simp only [SourceState.perform,Machine.perform,hsource,hmachine,hacc,ok_bind]
      exact ⟨h.compare _,by simp [SourceState.compare,SourceState.advance]⟩
    case div | mod =>
      by_cases hzero : v = 0
      · simp only [SourceState.perform,Machine.perform,SourceState.divisor,Machine.divisor,
          hsource,hmachine,ok_bind,hzero,if_true]
        exact ⟨rfl,current_fetched h⟩
      · simp only [SourceState.perform,Machine.perform,SourceState.divisor,Machine.divisor,
          hsource,hmachine,hacc,ok_bind,hzero,if_false,pure_eq_ok]
        exact ⟨h.accumulate _,by
          simp [SourceState.accumulate,SourceState.advance,Machine.accumulate]⟩
  | false =>
    cases hb with
    | value hrole => simp [hrole] at hv
    | plain htakes =>
      cases role <;> simp [Role.takesOperand] at htakes
      case halt => exact ⟨h.halt,by simp [SourceState.advance]⟩
      case output =>
        simp only [SourceState.perform,Machine.perform,hacc]
        exact ⟨h.emit _,by simp [SourceState.emit,SourceState.advance]⟩
      case input =>
        have hinput : m.fetched.input = s.input := h.input
        cases hin : s.input with
        | nil =>
          simp only [SourceState.perform,Machine.perform,hinput,hin]
          exact ⟨rfl,current_fetched h⟩
        | cons c rest =>
          simp only [SourceState.perform,Machine.perform,hinput,hin]
          exact ⟨h.input_cons _,by
            simp [SourceState.accumulate,SourceState.advance,Machine.accumulate]⟩
    | @direct i role name a htakes hjump ha =>
      obtain rfl : role = .store := by
        simpa [Role.takesValue,htakes,hjump] using hv
      obtain ⟨k,hk,hagrees⟩ := Agrees.assign hl hs h ha
      rw [operandHalf_natCast (hfits _ rfl)]
      simp only [SourceState.perform,Machine.perform,hk,SourceState.destination,ok_bind]
      exact ⟨hagrees,by simp [SourceState.assign,SourceState.advance]⟩
    | position hjump hle =>
      exact jump_agrees h hjump rfl (operandHalf_natCast (hfits _ rfl)) _
    | label hjump hle hn =>
      exact jump_agrees h hjump rfl (operandHalf_natCast (hfits _ rfl)) _

/-- From inside the code an instruction leads into the code or to its end. -/
theorem pc_le_of_perform {t : SourceState} {r : ResolvedInstruction} {role : Role}
    (hb : r.Bound p role) (hpc : s.pc < p.instructions.length)
    (h : s.perform r role = .ok t) : t.pc ≤ p.instructions.length := by
  have hnext : role.isJump = false → t.pc ≤ p.instructions.length := by
    intro hjump
    rw [SourceState.pc_of_perform hjump h]
    omega
  cases hb with
  | plain htakes =>
    apply hnext
    cases role <;> simp [Role.takesOperand,Role.isJump] at htakes ⊢
  | direct htakes hjump => exact hnext hjump
  | value hrole =>
    apply hnext
    cases role <;> simp [Role.takesValue,Role.takesOperand,Role.isJump] at hrole ⊢
  | @position i role text n hjump hle | @label i role name n hjump hle hn =>
    obtain ht | ht := SourceState.pc_of_perform_jump hjump rfl h
    · simpa [ht] using hle
    · omega

/-! ### Steps and runs -/

/-- The fetched word of an instruction in the code decodes to its role and its operand. -/
theorem execute_fetched (hl : Image.Linked isa p code image) (hisa : m.isa = isa)
    (h : Agrees p image s m) {r : ResolvedInstruction} (hr : code[s.pc]? = some r) :
    ∃ role, r.role = some role ∧ r.Bound p role ∧
      (∀ o, r.operand = some o → o.value ≤ 0xFFFF) ∧
      m.fetched.execute = m.fetched.perform (operandHalf r) r.isImmediate role := by
  obtain ⟨w,e,role,hw,hencode,he,herole,himm,hrole,hb⟩ := hl.word s.pc r hr
  have hir : m.fetched.cpu.ir = Word.signed w := by
    simp only [fetched]
    rw [Array.getD_eq_getD_getElem?,h.ip,Int.toNat_natCast,h.code s.pc w hw,Option.getD_some]
  have hdecode : Word.decode m.fetched.cpu.ir = (r.instruction.opcode,operandHalf r) := by
    rw [hir,Word.decode_signed,Word.decode_encode hencode,operandHalf,Int.toNat_natCast]
  refine ⟨role,hrole,hb,?_,?_⟩
  · intro o ho
    rw [ho] at hencode
    exact (Word.operand_of_encode hencode).2
  · have hset : m.fetched.isa = isa := hisa
    simp only [execute,hdecode,hset,he,herole,himm]

theorem step_agrees (hl : Image.Linked isa p code image) (hs : m.Sound) (hisa : m.isa = isa)
    (hsize : p.instructions.length ≤ m.program.size) (h : Agrees p image s m)
    (hpc : s.halted = false → s.pc < p.instructions.length) :
    Matches p image (s.step code) (proceed (m,s.output)) := by
  cases hh : s.halted with
  | true =>
    have hm : m.halted = true := h.halted.trans hh
    simp only [SourceState.step,hh,if_true,proceed,Machine.step,hm]
    exact ⟨h,by simp [Outcome.outputText]⟩
  | false =>
    have hm : m.halted = false := h.halted.trans hh
    have hlt := hpc hh
    obtain ⟨r,hr⟩ : ∃ r, code[s.pc]? = some r :=
      ⟨_,List.getElem?_eq_getElem (hl.code_length.symm ▸ hlt)⟩
    obtain ⟨role,hrole,hb,hfits,hexecute⟩ := execute_fetched hl hisa h hr
    have hfetch : m.fetch = .ok m.fetched := by
      have hmemory := hs.program_le
      have hip := h.ip
      exact fetch_eq_ok.mpr ⟨⟨by omega,by omega,by omega⟩,rfl⟩
    have heffect := perform_agrees hl hs h hb hfits
    rw [← hexecute] at heffect
    simp only [SourceState.step,hh,hr,hrole,proceed,Machine.step,hm,hfetch,Bool.false_eq_true,
      if_false]
    generalize s.perform r role = source at heffect ⊢
    generalize m.fetched.execute = machine at heffect ⊢
    cases source <;> cases machine <;> simp only [EffectMatches] at heffect
    · exact heffect
    · exact ⟨heffect.1,by rw [heffect.2]; rfl⟩

theorem reaches_of_after {n : Nat} {k : Machine} {shown : String}
    (h : m.after n = .ok (k,shown)) : m.Reaches k := by
  induction n generalizing k shown with
  | zero =>
    cases h
    exact .start
  | succ n ih =>
    obtain ⟨⟨l,text⟩,hl,h⟩ := bind_eq_ok.mp h
    simp only [proceed] at h
    split at h
    · simp at h
    · cases h
      exact (ih hl).call .step

/-- Machine and source level, from states that agree on, go on in step. -/
theorem after_agrees (hl : Image.Linked isa p code image) (hs : m.Sound) (hisa : m.isa = isa)
    (hsize : p.instructions.length ≤ m.program.size) (h : Agrees p image s m)
    (hstart : s.output = "") (n : Nat)
    (hpc : ∀ i < n, ∀ t, s.after code i = .ok t → t.halted = false →
      t.pc < p.instructions.length) :
    Matches p image (s.after code n) (m.after n) := by
  induction n with
  | zero => exact ⟨h,hstart.symm⟩
  | succ n ih =>
    have hn := ih fun i hi => hpc i (by omega)
    simp only [SourceState.after,Machine.after]
    cases hsource : s.after code n with
    | error e =>
      rw [hsource] at hn
      obtain ⟨f,hmachine,hfault⟩ := Matches.of_error hn
      rw [hmachine]
      exact hfault
    | ok t =>
      rw [hsource] at hn
      obtain ⟨k,hmachine,hagrees⟩ := Matches.of_ok hn
      obtain ⟨hsound,hbuild⟩ := hs.reaches (reaches_of_after hmachine)
      have hset : k.isa = isa := (congrArg (fun b => b.1) hbuild).trans hisa
      have hprogram : k.program = m.program := congrArg (fun b => b.2.1) hbuild
      rw [hmachine]
      exact step_agrees hl hsound hset (hprogram ▸ hsize) hagrees (hpc n (by omega) t hsource)

/-- A machine boots with its words at the start of the memory. -/
theorem getElem?_of_boot {capacity : Nat} {words : List Int} {memorySize : Int} {resize : Bool}
    {input : List Char} (hboot : boot capacity isa words memorySize resize input = .ok m) {i : Nat}
    {w : Int} (hw : words[i]? = some w) : m.cpu.memory[i]? = some (Word.signed w) := by
  obtain ⟨-,-,cells,-,rfl⟩ := reset_eq_ok.mp hboot
  have hi : i < words.length := (List.getElem?_eq_some_iff.mp hw).1
  rw [Array.getElem?_append_left (by simpa using hi),List.getElem?_toArray,List.getElem?_map,hw]
  rfl

/-- A machine that boots with an image agrees with the start of the program. -/
theorem agrees_of_boot (hl : Image.Linked isa p code image) {capacity : Nat} {memorySize : Int}
    {resize : Bool} {input : List Char}
    (hboot : boot capacity isa (image.words.map Int.ofNat) memorySize resize input = .ok m) :
    Agrees p image (SourceState.start p input) m := by
  have hcell : ∀ (i : Nat) (w : Nat), image.words[i]? = some w →
      m.cpu.memory[i]? = some (Word.signed w) := by
    intro i w hw
    exact getElem?_of_boot hboot (by rw [List.getElem?_map,hw]; rfl)
  obtain ⟨-,-,cells,-,rfl⟩ := reset_eq_ok.mp hboot
  refine ⟨rfl,rfl,rfl,rfl,rfl,rfl,?_,?_⟩
  · intro name a ha
    obtain ⟨v,hv,hword⟩ := hl.words_of_address ha
    have hstore : p.vars.lookup name = some v :=
      (lookup_eq_some hl.program.vars_nodup).mpr hv
    refine (hcell a _ hword).trans ?_
    rw [Word.signed_unsigned,Word.signed_of_inRange (hl.program.value _ hv)]
    simp [SourceState.start,hstore]
  · intro i w hw
    exact hcell i w (Image.words_of_code hw)

/-- A machine that boots with the image of a program goes in step with the program. -/
theorem boot_agrees (hl : Image.Linked isa p code image) {capacity : Nat} {memorySize : Int}
    {resize : Bool} {input : List Char}
    (hboot : boot capacity isa (image.words.map Int.ofNat) memorySize resize input = .ok m) (n : Nat)
    (hpc : ∀ i < n, ∀ t, (SourceState.start p input).after code i = .ok t →
      t.halted = false → t.pc < p.instructions.length) :
    Matches p image ((SourceState.start p input).after code n) (m.after n) := by
  obtain ⟨hsound,hbuild⟩ := sound_of_boot hboot
  have hisa : m.isa = isa := congrArg (fun b => b.1) hbuild
  have hsize : p.instructions.length ≤ m.program.size := by
    rw [program_size_of_boot hboot,← hl.image_length]
    simp [Image.words]
  exact after_agrees hl hsound hisa hsize (agrees_of_boot hl hboot) rfl n hpc

/-- A run inside the code leads into the code or to its end. -/
theorem pc_le_of_after (hl : Image.Linked isa p code image)
    (hstart : s.pc ≤ p.instructions.length) (n : Nat)
    (hpc : ∀ i < n, ∀ t, s.after code i = .ok t → t.halted = false →
      t.pc < p.instructions.length) {t : SourceState} (h : s.after code n = .ok t) :
    t.pc ≤ p.instructions.length := by
  induction n generalizing t with
  | zero =>
    cases h
    exact hstart
  | succ n ih =>
    obtain ⟨u,hu,h⟩ := bind_eq_ok.mp h
    cases hh : u.halted with
    | true =>
      simp only [SourceState.step,hh,if_true] at h
      cases h
      exact ih (fun i hi => hpc i (by omega)) hu
    | false =>
      have hlt := hpc n (by omega) u hu hh
      obtain ⟨r,hr⟩ : ∃ r, code[u.pc]? = some r :=
        ⟨_,List.getElem?_eq_getElem (hl.code_length.symm ▸ hlt)⟩
      obtain ⟨role,hrole,hb⟩ := hl.bound (List.mem_of_getElem? hr)
      simp only [SourceState.step,hh,hr,hrole,Bool.false_eq_true,if_false,mapError_eq_ok] at h
      exact pc_le_of_perform hb hlt h

/-- Assembled and booted, a program runs as its source says: step for step the machine has the
registers, flags, input, output and variables of the source level, with the code unchanged,
and it fails where the source level fails. This holds as long as no step is taken from the
end of the code, and there is no way to get behind it. -/
theorem booted_image_runs_program {tokens : List Token} {capacity : Nat} {memorySize : Int}
    {resize : Bool} {input : List Char} (hparse : Program.parse InstructionSet.bundled tokens = .ok p)
    (himage : Image.ofProgram InstructionSet.bundled p = .ok image)
    (hboot : boot capacity InstructionSet.bundled (image.words.map Int.ofNat) memorySize resize
      input = .ok m) :
    ∃ code, p.resolve InstructionSet.bundled = .ok code ∧
      ∀ n, (∀ i < n, ∀ s, (SourceState.start p input).after code i = .ok s →
          s.halted = false → s.pc < p.instructions.length) →
        Matches p image ((SourceState.start p input).after code n) (m.after n) ∧
        ∀ s, (SourceState.start p input).after code n = .ok s → s.pc ≤ p.instructions.length := by
  have hp := Program.wellFormed_of_parse InstructionSet.bundled_regular.keyword hparse
  obtain ⟨code,hcode,hl⟩ := Image.linked_of_ofProgram InstructionSet.bundled_regular hp himage
  refine ⟨code,hcode,?_⟩
  intro n hpc
  constructor
  · exact boot_agrees hl hboot n hpc
  · intro s hs
    exact pc_le_of_after hl (Nat.zero_le _) n hpc hs

/-- A letter is stored, shown and the program halts: the cell behind the code holds it. -/
theorem booted_image_shows_letter :
    let tokens : List Token := [⟨"LOADI",1⟩,⟨"65",1⟩,⟨"STORE",2⟩,⟨"x",2⟩,⟨"OUT",3⟩,⟨"HALT",4⟩,
      ⟨"VAR",5⟩,⟨"x",5⟩,⟨"0",5⟩]
    let p : Program := ⟨[⟨0x0201,"LOADI",some "65",1⟩,⟨0x0302,"STORE",some "x",2⟩,
      ⟨0x1200,"OUT",none,3⟩,⟨0x0100,"HALT",none,4⟩],[],[("x",0)]⟩
    let image : Image := ⟨[0x02010041,0x03020004,0x12000000,0x01000000],[0]⟩
    Program.parse InstructionSet.bundled tokens = .ok p ∧
    Image.ofProgram InstructionSet.bundled p = .ok image ∧
    ∃ m k, boot 20 InstructionSet.bundled (image.words.map Int.ofNat) 8 false [] = .ok m ∧
      m.after 4 = .ok (k,"A\n") ∧ k.cpu.memory[4]? = some 65 ∧ k.halted = true := by
  intro tokens p image
  have hparse : Program.parse InstructionSet.bundled tokens = .ok p := by
    rw [InstructionSet.bundled_eq]
    decide +kernel
  have himage : Image.ofProgram InstructionSet.bundled p = .ok image := by
    rw [InstructionSet.bundled_eq]
    decide +kernel
  obtain ⟨m,hboot⟩ : ∃ m, boot 20 InstructionSet.bundled (image.words.map Int.ofNat) 8 false [] =
      .ok m := ⟨_,rfl⟩
  refine ⟨hparse,himage,m,?_⟩
  obtain ⟨code,hcode,hruns⟩ := booted_image_runs_program hparse himage hboot
  obtain rfl : code = [⟨⟨0x0201,"LOADI",some "65",1⟩,some .load,true,some ⟨.literal,"65",65⟩⟩,
      ⟨⟨0x0302,"STORE",some "x",2⟩,some .store,false,some ⟨.storage,"x",4⟩⟩,
      ⟨⟨0x1200,"OUT",none,3⟩,some .output,false,none⟩,
      ⟨⟨0x0100,"HALT",none,4⟩,some .halt,false,none⟩] := by
    refine Except.ok.inj (hcode.symm.trans ?_)
    rw [InstructionSet.bundled_eq]
    decide +kernel
  obtain ⟨hmatches,-⟩ := hruns 4 (by
    intro i hi s hs _
    obtain rfl | rfl | rfl | rfl : i = 0 ∨ i = 1 ∨ i = 2 ∨ i = 3 := by omega
    all_goals
      cases hs
      decide)
  obtain ⟨k,hafter,hagrees⟩ := Matches.of_ok hmatches
  exact ⟨k,hboot,hafter,hagrees.vars "x" 4 rfl,hagrees.halted⟩

end Micro86
