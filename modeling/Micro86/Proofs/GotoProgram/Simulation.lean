import Micro86.Proofs.GotoProgram.Labels
import Micro86.Proofs.Program.Resolve
import Micro86.Proofs.Program.Semantics

/-!
A compiled program against its source. As long as a run of the compiled program has a meaning
and does not fall into the exit behind the code, the source level goes in step with it: the
same variables, input and output, the last comparison as the two flags.
-/
namespace Micro86.GotoProgram

/-- Characters as a machine shows them, each on a line of its own. -/
def shown (output : List Char) : String := String.ofList (output.flatMap fun c => [c,'\n'])

/-- The source level at the same point of a run. -/
structure Follows (s : State) (t : SourceState) : Prop where
  acc : t.acc = s.acc
  acc_inRange : Word.InRange s.acc
  store : t.store = s.store
  store_inRange : ∀ name, Word.InRange (s.store name)
  place : s.exited = none → t.pc = s.place
  zero : t.zero = s.comparison.any (· = 0)
  sign : t.sign = s.comparison.any (· < 0)
  input : t.input = s.input
  ascii : ∀ c ∈ s.input, c.toNat < 0x80
  output : t.output = shown s.output
  halted : t.halted = true ↔ s.exited = some 0
  exited : s.exited = none ∨ s.exited = some 0

/-- What has a meaning is followed, and nothing is left undefined for want of a label. -/
def Kept (x : Except Undefined State) (y : Except FaultCause SourceState) : Prop :=
  match x with
  | .ok s => ∃ t, y = .ok t ∧ Follows s t
  | .error e => e ≠ .noLabel

/-- The numbers that are read without a memory cell fit into 16 bits, with a sign. -/
def ValuesFit (code : List ResolvedInstruction) : Prop :=
  ∀ r ∈ code, r.isImmediate = true → r.role.any Role.isJump = false →
    ∀ o ∈ r.operand, -0x8000 ≤ o.value ∧ o.value ≤ 0x7FFF

instance (code : List ResolvedInstruction) : Decidable (ValuesFit code) :=
  inferInstanceAs (Decidable (∀ r ∈ code, _))

variable {p : Program} {code : List ResolvedInstruction} {numeric : List Int} {g : GotoProgram}
variable {s : State} {t : SourceState} {r : ResolvedInstruction} {role : Role}

theorem integer_eq_ok {n k : Int} : integer n = .ok k ↔ Word.InRange n ∧ k = n := by
  unfold integer
  split <;> simp_all [eq_comm]

theorem integer_of_inRange {n : Int} (h : Word.InRange n) : integer n = .ok n :=
  integer_eq_ok.mpr ⟨h,rfl⟩

theorem integer_eq_error {n : Int} {e : Undefined} (h : integer n = .error e) :
    e = .overflow := by
  unfold integer at h
  split at h <;> simp_all

/-! ### Operands -/

/-- An operand that is read has one value, and it is an integer. -/
theorem valueOperand_eval (h : Follows s t) (hb : r.Bound p role) (hv : role.takesValue)
    (hfit : ∀ o, r.operand = some o → r.isImmediate = true →
      -0x8000 ≤ o.value ∧ o.value ≤ 0x7FFF) :
    ∃ e v, valueOperand r role = .ok e ∧ e.eval s = .ok v ∧ t.value r = .ok v ∧
      Word.InRange v := by
  cases hb with
  | plain htakes => simp [Role.takesValue,htakes] at hv
  | position hjump | label hjump => simp [Role.takesValue,hjump] at hv
  | @direct i role name a htakes hjump ha =>
    refine ⟨.cell name,s.store name,rfl,rfl,?_,h.store_inRange name⟩
    simp [SourceState.value,h.store]
  | @value i role o hrole hkind =>
    have hsmall := hfit o rfl rfl
    have hrange : Word.InRange o.value := ⟨by omega,by omega⟩
    refine ⟨.number o.value,o.value,?_,integer_of_inRange hrange,?_,hrange⟩
    · obtain ⟨kind,text,value⟩ := o
      cases kind
      · rfl
      · rfl
      · exact absurd rfl hkind
    · simp [SourceState.value,Word.signExtend_of_range hsmall.1 hsmall.2]

/-- A jump names its position. -/
theorem targetOperand_nameOf (hc : Compiled p code numeric g) (hr : r ∈ code)
    (hb : r.Bound p role) (hjump : role.isJump) :
    ∃ label n, targetOperand r role = .ok label ∧ SourceState.target r = .ok n ∧
      NameOf p numeric label n ∧ n ≤ p.instructions.length := by
  cases hb with
  | plain htakes => cases role <;> simp [Role.takesOperand,Role.isJump] at htakes hjump
  | direct htakes hnot => simp [hjump] at hnot
  | value hrole => simp [Role.takesValue,hjump] at hrole
  | @position i role text n _ hle =>
    have hnumeric : (n : Int) ∈ numeric :=
      (hc.numeric n).mpr ⟨_,hr,role,rfl,by simp [numericTarget?,hjump]⟩
    exact ⟨positionLabel n,n,rfl,rfl,.inr ⟨rfl,hnumeric⟩,hle⟩
  | @label i role name n _ hle hn => exact ⟨name,n,rfl,rfl,.inl hn,hle⟩

/-! ### What statements do on both levels -/

namespace Follows

theorem accumulate (h : Follows s t) (hexit : s.exited = none) {n k : Int}
    (hn : Word.InRange n) (hk : Word.signed k = n) :
    Follows { s with acc := n, place := s.place+1 } (t.accumulate k) where
  __ := h
  acc := hk
  acc_inRange := hn
  place _ := by simp [SourceState.accumulate,SourceState.advance,h.place hexit]

theorem read (h : Follows s t) {c : Char} {rest : List Char} (hinput : s.input = c :: rest)
    (byte : Option Int) :
    Follows { s with byte := byte, input := rest } { t with input := rest } where
  __ := h
  input := rfl
  ascii d hd := h.ascii d (hinput ▸ List.mem_cons_of_mem c hd)

theorem compare (h : Follows s t) (hexit : s.exited = none) {n : Int} (hn : Word.InRange n) :
    Follows { s with comparison := some n, place := s.place+1 } (t.compare n) where
  __ := h
  zero := by simp [SourceState.compare,Word.signed_of_inRange hn]
  sign := by simp [SourceState.compare,Word.signed_of_inRange hn]
  place _ := by simp [SourceState.compare,SourceState.advance,h.place hexit]

theorem assign (h : Follows s t) (hexit : s.exited = none) (name : String) :
    Follows { s with
        store := fun other => if other = name then s.acc else s.store other
        place := s.place+1 } (t.assign name) where
  __ := h
  store := by
    funext other
    simp [SourceState.assign,h.acc,h.store]
  store_inRange other := by
    by_cases hsame : other = name
    · simp [hsame,h.acc_inRange]
    · simp [hsame,h.store_inRange other]
  place _ := by simp [SourceState.assign,SourceState.advance,h.place hexit]

theorem advance (h : Follows s t) (hexit : s.exited = none) :
    Follows { s with place := s.place+1 } t.advance where
  __ := h
  place _ := by simp [SourceState.advance,h.place hexit]

theorem goto (h : Follows s t) (n : Nat) :
    Follows { s with place := n } { t with pc := n } where
  __ := h
  place _ := rfl

theorem emit (h : Follows s t) (hexit : s.exited = none) :
    Follows { s with
        output := s.output ++ [Char.ofNat (s.acc % 0x100).toNat]
        place := s.place+1 } t.emit where
  __ := h
  place _ := by simp [SourceState.emit,SourceState.advance,h.place hexit]
  output := by
    simp only [SourceState.emit,h.output,h.acc,shown]
    rw [← String.ofList_append]
    simp

theorem halt (h : Follows s t) :
    Follows { s with exited := some 0 } { t.advance with halted := true } where
  __ := h
  place hexit := by simp at hexit
  halted := by simp
  exited := .inr rfl

end Follows

theorem apply_ne_noLabel (op : Operator) (a b : Int) : op.apply a b ≠ .error .noLabel := by
  intro h
  cases op with
  | add | sub | mul => cases integer_eq_error h
  | div =>
    simp only [Operator.apply] at h
    split at h
    · simp at h
    · cases integer_eq_error h
  | mod =>
    simp only [Operator.apply] at h
    split at h
    · simp at h
    · cases hq : integer (a.tdiv b) with
      | error e =>
        rw [hq] at h
        cases integer_eq_error hq
        simp at h
      | ok q =>
        rw [hq] at h
        simp at h

/-- An operation on the accumulator is kept if the source level has its result. -/
theorem compute_kept (h : Follows s t) (hexit : s.exited = none) {op : Operator} {e : Expr}
    {v : Int} (hv : e.eval s = .ok v) {y : Except FaultCause SourceState}
    (hy : ∀ n, op.apply s.acc v = .ok n →
      Word.InRange n ∧ ∃ k, Word.signed k = n ∧ y = .ok (t.accumulate k)) :
    Kept (g.operate s [.compute op e]) y := by
  simp only [operate,execAll,Statement.exec,hv,ok_bind]
  cases hn : op.apply s.acc v with
  | error u =>
    intro hu
    exact apply_ne_noLabel op s.acc v (hu ▸ hn)
  | ok n =>
    obtain ⟨hrange,k,hk,rfl⟩ := hy n hn
    exact ⟨_,rfl,h.accumulate hexit hrange hk⟩

/-- A branch is taken if the comparison passes the test. -/
theorem branch_kept (h : Follows s t) (hexit : s.exited = none) {test : Test} {label : String}
    {n : Nat} (hfind : g.find? label = some n) {taken : Bool}
    (htaken : ∀ d, s.comparison = some d → taken = test.holds d) :
    Kept (g.operate s [.branch test label]) (.ok (t.goto n taken)) := by
  simp only [operate,execAll,Statement.exec]
  cases hd : s.comparison with
  | none => exact Undefined.noConfusion
  | some d =>
    obtain rfl := htaken d hd
    cases htest : test.holds d with
    | false =>
      simp only [assigned,ok_bind,pure_eq_ok,htest]
      exact ⟨_,rfl,h.advance hexit⟩
    | true =>
      simp only [assigned,ok_bind,pure_eq_ok,htest,if_true,move,hfind]
      exact ⟨_,rfl,h.goto n⟩

/-- A statement that reads a value is kept. -/
theorem value_kept (h : Follows s t) (hexit : s.exited = none) (hb : r.Bound p role)
    (hv : role.takesValue)
    (hfit : ∀ o, r.operand = some o → r.isImmediate = true →
      -0x8000 ≤ o.value ∧ o.value ≤ 0x7FFF)
    {block : List Statement} (hblock : statements r role = .ok block) :
    Kept (g.operate s block) (t.perform r role) := by
  obtain ⟨e,v,he,hev,htv,hrange⟩ := valueOperand_eval h hb hv hfit
  cases role <;> simp [Role.takesValue,Role.takesOperand,Role.isJump] at hv
  all_goals
    simp only [statements,he,ok_bind,pure_eq_ok] at hblock
    cases hblock
  case load =>
    simp only [operate,execAll,Statement.exec,hev,SourceState.perform,htv,ok_bind]
    exact ⟨_,rfl,h.accumulate hexit hrange (Word.signed_of_inRange hrange)⟩
  case cmp =>
    simp only [operate,execAll,Statement.exec,hev,SourceState.perform,htv,h.acc,ok_bind]
    cases hd : integer (s.acc - v) with
    | error u =>
      cases integer_eq_error hd
      exact Undefined.noConfusion
    | ok d =>
      obtain ⟨hin,rfl⟩ := integer_eq_ok.mp hd
      exact ⟨_,rfl,h.compare hexit hin⟩
  case add | sub | mul =>
    refine compute_kept h hexit hev ?_
    intro n hn
    obtain ⟨hin,rfl⟩ := integer_eq_ok.mp hn
    refine ⟨hin,_,Word.signed_of_inRange hin,?_⟩
    simp only [SourceState.perform,htv,h.acc,ok_bind,pure_eq_ok]
  case div =>
    refine compute_kept h hexit hev ?_
    intro n hn
    by_cases hzero : v = 0
    · simp [Operator.apply,hzero] at hn
    · simp only [Operator.apply,hzero,if_false] at hn
      obtain ⟨hin,rfl⟩ := integer_eq_ok.mp hn
      refine ⟨hin,_,Word.signed_of_inRange hin,?_⟩
      simp [SourceState.perform,SourceState.divisor,htv,h.acc,hzero]
  case mod =>
    refine compute_kept h hexit hev ?_
    intro n hn
    by_cases hzero : v = 0
    · simp [Operator.apply,hzero] at hn
    · simp only [Operator.apply,hzero,if_false] at hn
      obtain ⟨q,-,hn⟩ := bind_eq_ok.mp hn
      cases hn
      have hin : Word.InRange (s.acc.tmod v) := Word.tmod_inRange h.acc_inRange
      refine ⟨hin,_,Word.signed_of_inRange hin,?_⟩
      simp [SourceState.perform,SourceState.divisor,htv,h.acc,hzero]

/-- A jump is kept: its label stands at the position that the source level goes to. -/
theorem jump_kept (h : Follows s t) (hexit : s.exited = none) (hjump : role.isJump)
    {label : String} {n : Nat} (hlabel : targetOperand r role = .ok label)
    (htarget : SourceState.target r = .ok n) (hfind : g.find? label = some n)
    {block : List Statement} (hblock : statements r role = .ok block) :
    Kept (g.operate s block) (t.perform r role) := by
  cases role <;> simp [Role.isJump] at hjump
  all_goals
    simp only [statements,hlabel,ok_bind,pure_eq_ok] at hblock
    cases hblock
    simp only [SourceState.perform,htarget,ok_bind,pure_eq_ok]
  case jmp =>
    simp only [operate,execAll,Statement.exec,move,hfind,ok_bind,pure_eq_ok]
    exact ⟨_,rfl,h.goto n⟩
  all_goals
    refine branch_kept h hexit hfind ?_
    intro d hd
    have hzero : t.zero = decide (d = 0) := by simp [h.zero,hd]
    have hsign : t.sign = decide (d < 0) := by simp [h.sign,hd]
    grind [Test.holds]

/-- A byte that is read and taken is the character: below `0x80` a byte has no sign. -/
theorem input_kept (h : Follows s t) (hexit : s.exited = none) (r : ResolvedInstruction) :
    Kept (g.operate s [.readByte,.takeByte]) (t.perform r .input) := by
  cases hin : s.input with
  | nil =>
    simp only [operate,execAll,Statement.exec,hin,error_bind]
    exact Undefined.noConfusion
  | cons c rest =>
    have hascii := h.ascii c (by simp [hin])
    have hbyte : (c.toNat : Int).bmod 0x100 = c.toNat := by
      rw [Int.bmod_def]
      split <;> omega
    have hrange : Word.InRange c.toNat := ⟨by omega,by omega⟩
    have hsame : Word.signed (c.toNat % 0x100) = c.toNat := by
      rw [Int.emod_eq_of_lt (by omega) (by omega),Word.signed_of_inRange hrange]
    simp only [operate,execAll,Statement.exec,hin,assigned,hbyte,ok_bind,pure_eq_ok,
      SourceState.perform,h.input]
    exact ⟨_,rfl,(h.read hin _).accumulate hexit hrange hsame⟩

/-! ### Steps and runs -/

theorem step_of_exited (h : s.exited.isSome) : g.step s = .ok s := by
  simp [step,h]

section
variable (hc : Compiled p code numeric g) (hn : (p.labels.map Prod.fst).Nodup)
variable (hbound : ∀ r ∈ code, ∃ role, r.role = some role ∧ r.Bound p role)
variable (hfit : ValuesFit code)
include hc hn hbound hfit

theorem block_kept (h : Follows s t) (hexit : s.exited = none) (hr : r ∈ code)
    (hrole : r.role = some role) {block : List Statement} (hblock : statements r role = .ok block) :
    Kept (g.operate s block) (t.perform r role) := by
  obtain ⟨role',hrole',hb⟩ := hbound r hr
  obtain rfl : role = role' := Option.some.inj (hrole.symm.trans hrole')
  cases hv : role.takesValue with
  | true =>
    have hnot : role.isJump = false := by
      cases hj : role.isJump <;> simp [Role.takesValue,hj] at hv ⊢
    refine value_kept h hexit hb hv ?_ hblock
    intro o ho himm
    exact hfit r hr himm (by simp [hrole,hnot]) o ho
  | false =>
    cases hj : role.isJump with
    | true =>
      obtain ⟨label,n,hlabel,htarget,hname,hle⟩ := targetOperand_nameOf hc hr hb hj
      exact jump_kept h hexit hj hlabel htarget (hc.find?_of_nameOf hn hname hle) hblock
    | false =>
      cases hb with
      | value htakes => simp [htakes] at hv
      | position hjump | label hjump => simp [hjump] at hj
      | @direct i role name a htakes hjump ha =>
        obtain rfl : role = .store := by simpa [Role.takesValue,htakes,hj] using hv
        cases hblock
        exact ⟨_,rfl,h.assign hexit name⟩
      | plain htakes =>
        cases role <;> simp [Role.takesOperand] at htakes
        case halt =>
          cases hblock
          exact ⟨_,rfl,h.halt⟩
        case output =>
          cases hblock
          exact ⟨_,rfl,h.emit hexit⟩
        case input =>
          cases hblock
          exact input_kept h hexit _

theorem step_kept (h : Follows s t) :
    g.step s ≠ .error .noLabel ∧ ∀ s', g.step s = .ok s' → s'.exited ≠ some 1 →
      (t.halted = false → t.pc < p.instructions.length) ∧
      ∃ t', t.step code = .ok t' ∧ Follows s' t' := by
  obtain hexit | hexit := h.exited
  · have hrunning : t.halted = false := by
      rw [Bool.eq_false_iff,ne_eq,h.halted,hexit]
      simp
    have hpc := h.place hexit
    cases hop : g.operations[s.place]? with
    | none =>
      have hstep : g.step s = .ok { s with exited := some 1 } := by simp [step,hexit,hop]
      rw [hstep]
      refine ⟨nofun,?_⟩
      rintro s' hs' hleft
      cases hs'
      exact absurd rfl hleft
    | some o =>
      obtain ⟨r,role,block,hr,hrole,hblock,rfl⟩ := hc.instruction_of_operation hop
      have hmem := List.mem_of_getElem? hr
      have hkept := block_kept hc hn hbound hfit h hexit hmem hrole hblock
      have hstep : g.step s = g.operate s block := by simp [step,hexit,hop]
      rw [hstep]
      cases hend : g.operate s block with
      | error e =>
        rw [hend] at hkept
        exact ⟨fun he => hkept (Except.error.inj he),nofun⟩
      | ok s₁ =>
        rw [hend] at hkept
        obtain ⟨t',hperform,hfollows⟩ := hkept
        refine ⟨nofun,?_⟩
        rintro s' hs' -
        cases hs'
        have hlt := (List.getElem?_eq_some_iff.mp hr).1
        refine ⟨fun _ => by rw [hpc,← hc.code_length]; exact hlt,t',?_,hfollows⟩
        simp only [SourceState.step,hrunning,hpc,hr,hrole,Bool.false_eq_true,if_false]
        exact mapError_eq_ok.mpr hperform
  · have hhalted : t.halted = true := h.halted.mpr hexit
    have hstep : g.step s = .ok s := step_of_exited (by simp [hexit])
    rw [hstep]
    refine ⟨nofun,?_⟩
    rintro s' hs' -
    cases hs'
    exact ⟨by simp [hhalted],t,by simp [SourceState.step,hhalted],h⟩

/-- A run with a meaning that stays in front of the last exit is followed by the source level,
which takes every step from inside the code. -/
theorem after_kept (h : Follows s t) (n : Nat) :
    g.after n s ≠ .error .noLabel ∧ ∀ s', g.after n s = .ok s' → s'.exited ≠ some 1 →
      (∀ i < n, ∀ u, t.after code i = .ok u → u.halted = false →
        u.pc < p.instructions.length) ∧
      ∃ t', t.after code n = .ok t' ∧ Follows s' t' := by
  induction n with
  | zero =>
    refine ⟨by simp [after],?_⟩
    intro s' hs' _
    cases hs'
    exact ⟨by omega,t,rfl,h⟩
  | succ n ih =>
    obtain ⟨hlabel,hih⟩ := ih
    cases hmid : g.after n s with
    | error e =>
      simp only [after,hmid,error_bind]
      exact ⟨hmid ▸ hlabel,nofun⟩
    | ok s₁ =>
      simp only [after,hmid,ok_bind]
      by_cases hlast : s₁.exited = some 1
      · rw [step_of_exited (by simp [hlast])]
        refine ⟨nofun,?_⟩
        rintro s' hs' hne
        cases hs'
        exact absurd hlast hne
      · obtain ⟨hbefore,t₁,ht₁,hfollows⟩ := hih s₁ hmid hlast
        obtain ⟨hlabel',hstep⟩ := step_kept hc hn hbound hfit hfollows
        refine ⟨hlabel',?_⟩
        intro s' hs' hne
        obtain ⟨hpc,t',ht',hend⟩ := hstep s' hs' hne
        refine ⟨?_,t',by simp only [SourceState.after,ht₁,ok_bind,ht'],hend⟩
        intro i hi u hu hrunning
        by_cases hin : i < n
        · exact hbefore i hin u hu hrunning
        · obtain rfl : i = n := by omega
          obtain rfl : t₁ = u := Except.ok.inj (ht₁.symm.trans hu)
          exact hpc hrunning

end

/-- Both levels start with the declared variables. -/
theorem follows_start (hdeclared : g.declarations = p.vars)
    (hvalues : ∀ v ∈ p.vars, Word.InRange v.2) (hn : (p.vars.map Prod.fst).Nodup)
    {input : List Char} (hinput : ∀ c ∈ input, c.toNat < 0x80) :
    Follows (g.start input) (SourceState.start p input) where
  acc := rfl
  acc_inRange := Word.zero_inRange
  store := by simp [SourceState.start,start,hdeclared]
  store_inRange name := by
    simp only [start,hdeclared]
    cases hv : p.vars.lookup name with
    | none => exact Word.zero_inRange
    | some v => exact hvalues _ ((lookup_eq_some hn).mp hv)
  place _ := rfl
  zero := rfl
  sign := rfl
  input := rfl
  ascii := hinput
  output := rfl
  halted := by simp [SourceState.start,start]
  exited := .inl rfl

end Micro86.GotoProgram
