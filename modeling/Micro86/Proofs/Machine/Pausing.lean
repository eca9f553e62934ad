import Micro86.Proofs.Machine.Invariant
import Micro86.Proofs.Text.Numeral

/-!
Runs that are cut short by a limit and taken up again. The limit is compared with the number of
steps since the last reset before every step, and only a step that is carried out adds to that
number. So a run with a limit comes to its end, and one that has stopped at a limit goes on, under a
larger one, as if it had never stopped. A limit that cannot be written makes no difference to that.
-/
namespace Micro86.Machine

variable {m last : Machine} {α : Type} {note : α → Outcome → α} {limit : Int} {a b : α}
  {o : Except Text.Unwritable Outcome}

/-- Whether the next step carries an instruction out. -/
def succeeds (m : Machine) : Bool := !m.halted && m.step.1.fault.isNone

/-- A run with a limit, with the number of the steps that are carried out: it stops as soon as the
limit is reached, or at the first final step. -/
inductive Loop (note : α → Outcome → α) (limit : Int) :
    Machine → α → Nat → Except Text.Unwritable Outcome → Machine → α → Prop
  | stop {m : Machine} {a : α} (h : limit ≤ m.steps) :
      Loop note limit m a 0 (m.limitReached limit) m a
  | final {m : Machine} {a : α} (h : m.steps < limit) (hfinal : m.step.1.isFinal = true) :
      Loop note limit m a m.succeeds.toNat (.ok m.step.1) m.step.2 (note a m.step.1)
  | next {m last : Machine} {a b : α} {n : Nat} {o : Except Text.Unwritable Outcome}
      (h : m.steps < limit) (hfinal : m.step.1.isFinal = false)
      (rest : Loop note limit m.step.2 (note a m.step.1) n o last b) :
      Loop note limit m a (n+1) o last b

/-! ### Steps -/

/-- Only a step that carries an instruction out is counted. -/
theorem steps_step (m : Machine) : m.step.2.steps = m.steps+m.succeeds.toNat := by
  obtain ⟨hh,hstep⟩ | ⟨hh,f,-,hstep⟩ | ⟨hh,f,-,-,hstep⟩ | ⟨hh,e,-,he,hstep⟩ := m.step_cases
  · simp [succeeds,hh,hstep]
  · simp [succeeds,hh,hstep]
  · simp [succeeds,hh,hstep,fetched]
  · have hkept : e.machine.steps = m.steps := by
      have hdoes := execute_does he
      cases hdoes with
      | store h => obtain ⟨-,rfl⟩ := write_eq_ok.mp h; rfl
      | _ => rfl
    simp [succeeds,hh,hstep,apply,hkept]

theorem succeeds_of_not_final (h : m.step.1.isFinal = false) : m.succeeds = true := by
  obtain ⟨hhalted,hfault⟩ := (Bool.or_eq_false_iff).mp h
  obtain ⟨-,hstep⟩ | ⟨hh,-⟩ | ⟨hh,-⟩ | ⟨hh,-⟩ := m.step_cases
  · simp [hstep] at hhalted
  all_goals simpa [succeeds,hh] using hfault

/-- No step fails because of a limit. -/
theorem step_cause_ne (m : Machine) (limit : Text.Writable) :
    m.step.1.fault.map Fault.cause ≠ some (.stepLimit limit) := by
  obtain ⟨-,hstep⟩ | ⟨-,f,hf,hstep⟩ | ⟨-,f,-,he,hstep⟩ | ⟨-,e,-,-,hstep⟩ := m.step_cases
  · simp [hstep]
  · obtain ⟨-,hcause | hcause⟩ := fetch_eq_error hf <;> simp [hstep,hcause]
  · obtain hcause | ⟨immediate,role,hperform⟩ := execute_eq_error he
    · simp [hstep,hcause]
    · obtain hcause | hcause | ⟨hcause,-⟩ := perform_eq_error hperform <;> simp [hstep,hcause]
  · simp [hstep]

theorem limitReached_eq_ok {o : Outcome} : m.limitReached limit = .ok o ↔
    ∃ w : Text.Writable, w.value = limit ∧ o = { fault := some ⟨.stepLimit w,m.cpu.ip,0⟩ } := by
  simp only [limitReached,bind_eq_ok,Text.writable_eq_ok,pure_eq_ok,Except.ok.injEq]
  exact exists_congr fun w => and_congr_right fun _ => eq_comm

theorem limitReached_eq_error {e : Text.Unwritable} : m.limitReached limit = .error e ↔
    Text.maxDecimalDigits < Text.decimalLength limit ∧ e = ⟨limit⟩ := by
  simp [limitReached,bind_eq_error,Text.writable_eq_error]

/-- The outcome of a step is never that of a limit. -/
theorem ok_step_ne_limitReached (m last : Machine) (limit : Int) :
    .ok m.step.1 ≠ last.limitReached limit := by
  intro h
  obtain ⟨w,-,ho⟩ := limitReached_eq_ok.mp h.symm
  exact m.step_cause_ne w (by rw [ho]; rfl)

/-! ### The loop -/

namespace Loop
variable {n : Nat}

theorem steps_eq (h : Loop note limit m a n o last b) :
    last.steps = m.steps+n ∧ (n : Int) ≤ max 0 (limit - m.steps) := by
  induction h with
  | stop h => simp
  | @final m a h hfinal =>
    refine ⟨m.steps_step,?_⟩
    have hone := m.succeeds.toNat_le
    omega
  | @next m last a b n o h hfinal rest ih =>
    obtain ⟨hsteps,hle⟩ := ih
    rw [m.steps_step,succeeds_of_not_final hfinal,Bool.toNat_true] at hsteps hle
    omega

/-- A loop has one course only. -/
theorem unique {n' : Nat} {o' : Except Text.Unwritable Outcome} {last' : Machine} {b' : α}
    (h : Loop note limit m a n o last b) (h' : Loop note limit m a n' o' last' b') :
    n = n' ∧ o = o' ∧ last = last' ∧ b = b' := by
  induction h generalizing n' with
  | stop h =>
    cases h' with
    | stop => exact ⟨rfl,rfl,rfl,rfl⟩
    | final hlt | next hlt => omega
  | final h hfinal =>
    cases h' with
    | stop hle => omega
    | final => exact ⟨rfl,rfl,rfl,rfl⟩
    | next _ hgoes => simp [hfinal] at hgoes
  | next h hfinal rest ih =>
    cases h' with
    | stop hle => omega
    | final _ hends => simp [hfinal] at hends
    | next _ _ rest' =>
      obtain ⟨rfl,hsame⟩ := ih rest'
      exact ⟨rfl,hsame⟩

/-- A loop that has stopped at its limit goes on under a larger one. -/
theorem resume {larger : Int} (hle : limit ≤ larger) {n' : Nat}
    {o' : Except Text.Unwritable Outcome} {last' : Machine} {b' : α}
    (h : Loop note limit m a n o last b) (hstopped : o = last.limitReached limit)
    (h' : Loop note larger last b n' o' last' b') :
    Loop note larger m a (n+n') o' last' b' := by
  induction h with
  | stop h => simpa using h'
  | @final m a h hfinal => exact absurd hstopped (m.ok_step_ne_limitReached m.step.2 limit)
  | @next m last a b n o h hfinal rest ih =>
    rw [Nat.add_right_comm]
    exact .next (by omega) hfinal (ih hstopped h')

/-- A loop without an outcome has stopped at a limit that cannot be written. -/
theorem of_error {e : Text.Unwritable} (h : Loop note limit m a n o last b) (ho : o = .error e) :
    limit ≤ last.steps ∧ Text.maxDecimalDigits < Text.decimalLength limit ∧ e = ⟨limit⟩ := by
  induction h with
  | stop h => exact ⟨h,limitReached_eq_error.mp ho⟩
  | final => cases ho
  | next _ _ _ ih => exact ih ho

end Loop

/-! ### The run as a loop -/

/-- A run looks at its limit, takes a step, and goes on from there unless the step is final. -/
theorem run_eq (note : α → Outcome → α) (limit : Int) (m : Machine) (a : α) :
    m.run note limit a =
      if limit ≤ m.steps then (m.limitReached limit,m,a)
      else if m.step.1.isFinal then (.ok m.step.1,m.step.2,note a m.step.1)
      else m.step.2.run note limit (note a m.step.1) := by
  by_cases hle : limit ≤ m.steps
  · have hzero : (limit - m.steps).toNat = 0 := by omega
    rw [if_pos hle]
    simp only [run,hzero,runFor]
  · have hsucc : (limit - m.steps).toNat = (limit - (m.steps+1 : Nat)).toNat+1 := by omega
    rw [if_neg hle]
    cases hfinal : m.step.1.isFinal with
    | true => simp [run,hsucc,runFor,hfinal]
    | false =>
      have hsteps := m.steps_step
      rw [succeeds_of_not_final hfinal,Bool.toNat_true] at hsteps
      simp [run,hsucc,runFor,hfinal,hsteps]

/-- A run with a limit comes to its end. -/
theorem loop_run (note : α → Outcome → α) (limit : Int) (m : Machine) (a : α) :
    ∃ n, Loop note limit m a n (m.run note limit a).1 (m.run note limit a).2.1
      (m.run note limit a).2.2 := by
  -- the steps that are left to the limit, which every step that is not final takes one of
  induction hleft : (limit - m.steps).toNat generalizing m a with
  | zero =>
    rw [run_eq,if_pos (by omega)]
    exact ⟨0,.stop (by omega)⟩
  | succ left ih =>
    have hlt : m.steps < limit := by omega
    rw [run_eq,if_neg (by omega)]
    cases hfinal : m.step.1.isFinal with
    | true => exact ⟨_,.final hlt hfinal⟩
    | false =>
      have hsteps := m.steps_step
      rw [succeeds_of_not_final hfinal,Bool.toNat_true] at hsteps
      obtain ⟨n,hn⟩ := ih m.step.2 (note a m.step.1) (by omega)
      exact ⟨n+1,.next hlt hfinal hn⟩

/-- A run that has stopped at its limit goes on, from where it stopped, to the end of the run with
the larger limit. -/
theorem run_resume {larger : Int} (hle : limit ≤ larger)
    (hstopped : (m.run note limit a).1 = (m.run note limit a).2.1.limitReached limit) :
    (m.run note limit a).2.1.run note larger (m.run note limit a).2.2 = m.run note larger a := by
  obtain ⟨n,hn⟩ := loop_run note limit m a
  obtain ⟨n',hn'⟩ := loop_run note larger (m.run note limit a).2.1 (m.run note limit a).2.2
  obtain ⟨whole,hwhole⟩ := loop_run note larger m a
  obtain ⟨-,ho,hlast,hb⟩ := (hn.resume hle hstopped hn').unique hwhole
  exact Prod.ext ho (Prod.ext hlast hb)

/-! ### What a run shows -/

namespace Transcript

instance : Append Transcript where
  append t u := ⟨t.output ++ u.output,t.trace ++ u.trace⟩

theorem append_empty (t : Transcript) : t ++ ({} : Transcript) = t := by
  obtain ⟨output,trace⟩ := t
  change Transcript.mk (output ++ "") (trace ++ "") = _
  simp only [String.append_empty]

theorem note_append (t u : Transcript) (o : Outcome) : (t ++ u).note o = t ++ u.note o := by
  change Transcript.mk (t.output ++ u.output ++ _) (t.trace ++ u.trace ++ _) =
    Transcript.mk (t.output ++ (u.output ++ _)) (t.trace ++ (u.trace ++ _))
  simp only [String.append_assoc]

end Transcript

/-- What was shown before a run stays in front of what the run shows. -/
theorem Loop.behind {n : Nat} {u v : Transcript} (h : Loop Transcript.note limit m u n o last v)
    (t : Transcript) : Loop Transcript.note limit m (t ++ u) n o last (t ++ v) := by
  induction h with
  | stop h => exact .stop h
  | @final m u h hfinal =>
    rw [← Transcript.note_append]
    exact .final h hfinal
  | @next m last u v n o h hfinal rest ih =>
    rw [← Transcript.note_append] at ih
    exact .next h hfinal ih

theorem run_behind (limit : Int) (m : Machine) (t : Transcript) :
    m.run Transcript.note limit t =
      ((m.run Transcript.note limit {}).1,(m.run Transcript.note limit {}).2.1,
        t ++ (m.run Transcript.note limit {}).2.2) := by
  obtain ⟨n,hn⟩ := loop_run Transcript.note limit m {}
  have hbehind := hn.behind t
  rw [Transcript.append_empty] at hbehind
  obtain ⟨n',hn'⟩ := loop_run Transcript.note limit m t
  obtain ⟨-,ho,hlast,ht⟩ := hn'.unique hbehind
  exact Prod.ext ho (Prod.ext hlast ht)

/-- A run with a limit comes to its end after as many steps as the limit leaves, and has one course
only. If it stops at its limit, a second run with a larger limit ends as the one run with that limit
does: with the same outcome, in the same machine, and with the rest of what that run shows. -/
theorem pausing_is_invisible (m : Machine) {limit larger : Int} (hle : limit ≤ larger) :
    (∀ {α : Type} (note : α → Outcome → α) (a : α),
      ∃ n, Loop note larger m a n (m.run note larger a).1 (m.run note larger a).2.1
          (m.run note larger a).2.2 ∧
        (m.run note larger a).2.1.steps = m.steps+n ∧ (n : Int) ≤ max 0 (larger - m.steps) ∧
        ∀ n' o last b, Loop note larger m a n' o last b →
          n' = n ∧ (o,last,b) = m.run note larger a) ∧
    ((m.run Transcript.note limit {}).1 =
        (m.run Transcript.note limit {}).2.1.limitReached limit →
      let paused := m.run Transcript.note limit {}
      let resumed := paused.2.1.run Transcript.note larger {}
      let whole := m.run Transcript.note larger {}
      resumed.2.1 = whole.2.1 ∧ resumed.1 = whole.1 ∧
      paused.2.2.output ++ resumed.2.2.output = whole.2.2.output ∧
      paused.2.2.trace ++ resumed.2.2.trace = whole.2.2.trace) := by
  refine ⟨?_,?_⟩
  · intro α note a
    obtain ⟨n,hn⟩ := loop_run note larger m a
    refine ⟨n,hn,hn.steps_eq.1,hn.steps_eq.2,?_⟩
    intro n' o last b h
    obtain ⟨rfl,rfl,rfl,rfl⟩ := h.unique hn
    exact ⟨rfl,rfl⟩
  · intro hstopped paused resumed whole
    have hwhole : paused.2.1.run Transcript.note larger paused.2.2 = whole :=
      run_resume hle hstopped
    have hresumed : (resumed.1,resumed.2.1,paused.2.2 ++ resumed.2.2) = whole :=
      (run_behind larger paused.2.1 paused.2.2).symm.trans hwhole
    rw [← hresumed]
    exact ⟨rfl,rfl,rfl,rfl⟩

/-- A pause after the first of two characters; the second run halts just at its limit. -/
theorem pausing_is_invisible_before_halt :
    let isa : InstructionSet :=
      ⟨"set",[⟨"OUT",1,false,false,some .output,1⟩,⟨"END",2,false,false,some .halt,2⟩]⟩
    let m : Machine := ⟨isa,#[0x10000,0x10000,0x20000],3,false,
      { memory := #[0x10000,0x10000,0x20000] },0,0,false,[]⟩
    let paused := m.run Transcript.note 1 {}
    let resumed := paused.2.1.run Transcript.note 3 {}
    let whole := m.run Transcript.note 3 {}
    boot 20 isa [0x10000,0x10000,0x20000] 3 false [] = .ok m ∧
    paused.1 = .ok { fault := some ⟨.stepLimit ⟨1,by decide⟩,1,0⟩ } ∧
    resumed.1.map Outcome.halted = .ok true ∧ resumed.1 = whole.1 ∧ resumed.2.1 = whole.2.1 ∧
    paused.2.2.output ++ resumed.2.2.output = whole.2.2.output ∧
    paused.2.2.trace ++ resumed.2.2.trace = whole.2.2.trace := by
  intro isa m paused resumed whole
  have hpaused : paused.1 = .ok { fault := some ⟨.stepLimit ⟨1,by decide⟩,1,0⟩ } := by
    decide +kernel
  have hstopped : paused.1 = paused.2.1.limitReached 1 := by decide +kernel
  obtain ⟨hlast,ho,houtput,htrace⟩ := (pausing_is_invisible m (by decide : (1 : Int) ≤ 3)).2 hstopped
  exact ⟨by decide,hpaused,by decide +kernel,ho,hlast,houtput,htrace⟩

end Micro86.Machine
