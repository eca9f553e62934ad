import Micro86.Proofs.Machine.Comparison

/-!
Arithmetic of the machine. It computes with integers of any size and cuts the result to a signed
word; that is the arithmetic of two's complement. The one quotient that leaves the signed words, of
the smallest number by `-1`, comes back as the smallest number.
-/
namespace Micro86

/-- What an arithmetic instruction does with two words. -/
def Role.onWords? : Role → Option (BitVec 32 → BitVec 32 → BitVec 32)
  | add => some fun x y => x+y
  | sub => some fun x y => x - y
  | mul => some fun x y => x*y
  | div => some BitVec.sdiv
  | mod => some BitVec.srem
  | _ => none

/-- The roles that need a divisor. -/
def Role.divides (role : Role) : Bool := role = .div || role = .mod

namespace Word
variable {a b : Int}

theorem toInt_ofInt (h : InRange a) : (BitVec.ofInt 32 a).toInt = a := by
  rw [BitVec.toInt_ofInt]
  exact signed_of_inRange h

/-- Only the smallest number has a quotient that is no signed word, and only by `-1`. -/
theorem tdiv_inRange (ha : InRange a) (h : ¬(a = -0x80000000 ∧ b = -1)) : InRange (a.tdiv b) := by
  have hsize := Int.natAbs_tdiv_le_natAbs a b
  obtain ⟨hlo,hhi⟩ := ha
  unfold InRange
  by_cases hsmallest : a = -0x80000000
  · have hb : b ≠ -1 := fun hb => h ⟨hsmallest,hb⟩
    by_cases hzero : b = 0
    · simp [hzero]
    by_cases hone : b = 1
    · rw [hone,Int.tdiv_one]
      exact ⟨hlo,hhi⟩
    · -- any other divisor halves the size at least
      have hhalf : (a.tdiv b).natAbs ≤ a.natAbs/2 := by
        rw [Int.natAbs_tdiv]
        exact Nat.div_le_div_left (by omega) (by decide)
      omega
  · omega

theorem quotient_of_inRange (ha : InRange a) (h : ¬(a = -0x80000000 ∧ b = -1)) :
    signed (a.tdiv b) = a.tdiv b := signed_of_inRange (tdiv_inRange ha h)

/-- A quotient that is cut to a word still has the size of the quotient. -/
theorem natAbs_signed_tdiv (ha : InRange a) : (signed (a.tdiv b)).natAbs = a.natAbs/b.natAbs := by
  have hsize : (a.tdiv b).natAbs = a.natAbs/b.natAbs := Int.natAbs_tdiv a b
  by_cases h : a = -0x80000000 ∧ b = -1
  · obtain ⟨rfl,rfl⟩ := h
    decide
  · rw [quotient_of_inRange ha h,hsize]

/-- Quotient and remainder make up the dividend, up to multiples of `2^32`. -/
theorem signed_tdiv_mul_add_tmod (a b : Int) :
    (signed (a.tdiv b)*b+a.tmod b) % 0x100000000 = a % 0x100000000 := by
  have hmod : signed (a.tdiv b) % 0x100000000 = a.tdiv b % 0x100000000 := Int.bmod_emod
  rw [Int.add_emod,Int.mul_emod,hmod,← Int.mul_emod,← Int.add_emod,Int.tdiv_mul_add_tmod]

theorem tmod_eq_zero_or_sign (a b : Int) : a.tmod b = 0 ∨ (a.tmod b).sign = a.sign := by
  have hsign := Int.sign_tmod a b
  split at hsign
  · exact .inl (Int.sign_eq_zero_iff_zero.mp hsign)
  · exact .inr hsign

theorem natAbs_tmod_lt (a : Int) (h : b ≠ 0) : (a.tmod b).natAbs < b.natAbs := by
  rw [Int.natAbs_tmod]
  exact Nat.mod_lt _ (by omega)

end Word

namespace Machine
variable {m n : Machine} {role : Role} {operand : Nat} {immediate : Bool} {a b : Int}

/-- The next instruction is one of a role, and has the accumulator and a value to work on. -/
def Combines (m : Machine) (role : Role) (a b : Int) : Prop :=
  m.cpu.acc = a ∧ ∃ operand immediate, m.Upcoming role operand immediate ∧
    m.value operand immediate = .ok b

theorem divisor_of_value (hv : m.value operand immediate = .ok b) (hb : b ≠ 0) :
    m.divisor operand immediate = .ok b := by
  rw [divisor,hv,ok_bind,if_neg hb]
  rfl

/-- The accumulator takes the result on words. -/
theorem perform_arithmetic {f : BitVec 32 → BitVec 32 → BitVec 32} (hf : role.onWords? = some f)
    (ha : Word.InRange m.cpu.acc) (hb : Word.InRange b)
    (hv : m.value operand immediate = .ok b) (hdivisor : role.divides → b ≠ 0) :
    ∃ result, m.perform operand immediate role = .ok (m.accumulate result) ∧
      Word.signed result = (f (.ofInt 32 m.cpu.acc) (.ofInt 32 b)).toInt := by
  have hacc := Word.toInt_ofInt ha
  have hvalue := Word.toInt_ofInt hb
  cases role <;> simp only [Role.onWords?,Option.some.injEq,reduceCtorEq] at hf <;> subst hf
  case add =>
    refine ⟨m.cpu.acc+b,by simp [perform,hv],?_⟩
    rw [BitVec.toInt_add,hacc,hvalue]
    rfl
  case sub =>
    refine ⟨m.cpu.acc - b,by simp [perform,hv],?_⟩
    rw [BitVec.toInt_sub,hacc,hvalue]
    rfl
  case mul =>
    refine ⟨m.cpu.acc*b,by simp [perform,hv],?_⟩
    rw [BitVec.toInt_mul,hacc,hvalue]
    rfl
  case div =>
    have hd := divisor_of_value hv (hdivisor rfl)
    refine ⟨m.cpu.acc.tdiv b,by simp [perform,hd],?_⟩
    rw [BitVec.toInt_sdiv,hacc,hvalue]
    rfl
  case mod =>
    have hd := divisor_of_value hv (hdivisor rfl)
    refine ⟨m.cpu.acc.tmod b,by simp [perform,hd],?_⟩
    rw [BitVec.toInt_srem,hacc,hvalue]
    exact Word.signed_of_inRange (Word.tmod_inRange ha)

/-- An arithmetic instruction changes the accumulator only, and goes on. -/
theorem Combines.step_eq {f : BitVec 32 → BitVec 32 → BitVec 32} (h : m.Combines role a b)
    (hf : role.onWords? = some f) (ha : Word.InRange a) (hb : Word.InRange b)
    (hdivisor : role.divides → b ≠ 0) :
    m.step.1.fault = none ∧ m.step.2 = { m.fetched with
      steps := m.steps+1
      cpu := { m.fetched.cpu with acc := (f (.ofInt 32 a) (.ofInt 32 b)).toInt } } := by
  obtain ⟨rfl,operand,immediate,hnext,hv⟩ := h
  have hacc : m.fetched.cpu.acc = m.cpu.acc := rfl
  obtain ⟨result,hperform,hresult⟩ :=
    perform_arithmetic (m := m.fetched) hf ha hb (value_fetched hv) hdivisor
  rw [hnext.step_eq hperform,← hacc,← hresult]
  simp [apply,accumulate,Cpu.setAcc,fetched]

/-- What is carried out behind the fetch. -/
theorem Upcoming.execute_eq (h : m.Upcoming role operand immediate) :
    m.fetched.execute = m.fetched.perform operand immediate role := by
  obtain ⟨d,hd,hrole,himmediate⟩ := h.entry
  have hentry : m.fetched.isa.byOpcode? (Word.decode m.fetched.cpu.ir).1 = some d := hd
  simp only [execute,hentry,hrole,h.operand_eq,himmediate]

theorem perform_by_zero (hrole : role.divides = true) (hv : m.value operand immediate = .ok 0) :
    m.perform operand immediate role = .error ⟨.divisionByZero,m.current,m.cpu.ir⟩ := by
  have hd : m.divisor operand immediate = .error ⟨.divisionByZero,m.current,m.cpu.ir⟩ := by
    rw [divisor,hv]
    rfl
  cases role <;> simp [Role.divides] at hrole <;> simp [perform,hd]

/-- A division by zero has fetched and no more. -/
theorem Combines.step_by_zero (h : m.Combines role a 0) (hrole : role.divides = true) :
    m.step = ({ fault := some ⟨.divisionByZero,m.fetched.current,m.fetched.cpu.ir⟩ },m.fetched) := by
  obtain ⟨-,operand,immediate,hnext,hv⟩ := h
  have hexecute := hnext.execute_eq
  rw [perform_by_zero hrole (value_fetched hv)] at hexecute
  simp [step,hnext.running,hnext.fetch,hexecute]

/-- Arithmetic on signed words is that of two's complement. Whatever the machine, an instruction that
adds, subtracts, multiplies, divides or takes the remainder leaves the result on words of 32 bits in
the accumulator and changes nothing else; a quotient or a remainder by zero fails. The quotient of
two numbers is cut toward zero, and that of the smallest number by `-1` is the smallest number; with
the remainder it makes up the dividend, up to multiples of `2^32`. The remainder is zero or has the
sign of the dividend, and it is smaller than the divisor. -/
theorem arithmetic_is_twos_complement (ha : Word.InRange a) (hb : Word.InRange b) :
    (∀ (m : Machine) role f, role.onWords? = some f → m.Combines role a b →
      (role.divides → b ≠ 0) → m.step.1.fault = none ∧ m.step.2 = { m.fetched with
        steps := m.steps+1
        cpu := { m.fetched.cpu with acc := (f (.ofInt 32 a) (.ofInt 32 b)).toInt } }) ∧
    (∀ (m : Machine) role, role.divides → m.Combines role a b → b = 0 →
      m.step.2 = m.fetched ∧ ∃ fault, m.step.1.fault = some fault ∧
        fault.cause.message = "division by zero") ∧
    ∀ m n : Machine, m.Combines .div a b → n.Combines .mod a b → b ≠ 0 →
      let quotient := m.step.2.cpu.acc
      let remainder := n.step.2.cpu.acc
      quotient.natAbs = a.natAbs/b.natAbs ∧
      (¬(a = -0x80000000 ∧ b = -1) → quotient = a.tdiv b) ∧
      (a = -0x80000000 ∧ b = -1 → quotient = -0x80000000) ∧
      (quotient*b+remainder) % 0x100000000 = a % 0x100000000 ∧
      (remainder = 0 ∨ remainder.sign = a.sign) ∧ remainder.natAbs < b.natAbs := by
  refine ⟨?_,?_,?_⟩
  · intro m role f hf h hdivisor
    exact h.step_eq hf ha hb hdivisor
  · rintro m role hrole h rfl
    rw [h.step_by_zero hrole]
    exact ⟨rfl,_,rfl,rfl⟩
  · intro m n hm hn hne quotient remainder
    have hquotient : quotient = Word.signed (a.tdiv b) := by
      have hstep := (hm.step_eq rfl ha hb fun _ => hne).2
      simp only [quotient,hstep]
      rw [BitVec.toInt_sdiv,Word.toInt_ofInt ha,Word.toInt_ofInt hb]
      rfl
    have hremainder : remainder = a.tmod b := by
      have hstep := (hn.step_eq rfl ha hb fun _ => hne).2
      simp only [remainder,hstep]
      rw [BitVec.toInt_srem,Word.toInt_ofInt ha,Word.toInt_ofInt hb]
    rw [hquotient,hremainder]
    refine ⟨Word.natAbs_signed_tdiv ha,Word.quotient_of_inRange ha,?_,
      Word.signed_tdiv_mul_add_tmod a b,Word.tmod_eq_zero_or_sign a b,Word.natAbs_tmod_lt a hne⟩
    rintro ⟨rfl,rfl⟩
    decide

/-- The smallest number by `-1`: the quotient leaves the signed words, the remainder is zero. -/
theorem arithmetic_is_twos_complement_smallest_number :
    let isa : InstructionSet := ⟨"set",[⟨"DIV",1,true,true,some .div,1⟩,
      ⟨"MOD",2,true,true,some .mod,2⟩]⟩
    let m : Machine := ⟨isa,#[0x1FFFF],1,false,{ memory := #[0x1FFFF], acc := -0x80000000 },
      0,0,false,[]⟩
    let n : Machine := ⟨isa,#[0x2FFFF],1,false,{ memory := #[0x2FFFF], acc := -0x80000000 },
      0,0,false,[]⟩
    Word.InRange (-0x80000000) ∧ Word.InRange (-1) ∧ m.Combines .div (-0x80000000) (-1) ∧
      n.Combines .mod (-0x80000000) (-1) ∧ m.step.1.fault = none ∧
      m.step.2.cpu.acc = -0x80000000 ∧ n.step.2.cpu.acc.natAbs < 1 := by
  intro isa m n
  have ha : Word.InRange (-0x80000000) := by decide
  have hb : Word.InRange (-1) := by decide
  have hm : m.Combines .div (-0x80000000) (-1) :=
    ⟨rfl,0xFFFF,true,⟨rfl,rfl,by decide,⟨⟨"DIV",1,true,true,some .div,1⟩,by decide,rfl,rfl⟩⟩,
      by decide⟩
  have hn : n.Combines .mod (-0x80000000) (-1) :=
    ⟨rfl,0xFFFF,true,⟨rfl,rfl,by decide,⟨⟨"MOD",2,true,true,some .mod,2⟩,by decide,rfl,rfl⟩⟩,
      by decide⟩
  obtain ⟨hcompute,-,hdivide⟩ := arithmetic_is_twos_complement ha hb
  obtain ⟨hfault,-⟩ := hcompute m .div _ rfl hm (by decide)
  obtain ⟨-,-,hquotient,-,-,hremainder⟩ := hdivide m n hm hn (by decide)
  exact ⟨ha,hb,hm,hn,hfault,hquotient ⟨rfl,rfl⟩,hremainder⟩

end Machine
end Micro86
