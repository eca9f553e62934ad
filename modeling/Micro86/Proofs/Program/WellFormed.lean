import Micro86.Proofs.Program.Acceptance
import Micro86.Proofs.Word

/-!
What holds of every program that was read: its instructions have entries that agree on the
operand, no label lies behind the end of the code, names are declared once, and the variables
start with signed words.
-/
namespace Micro86
open Grammar

structure Program.WellFormed (isa : InstructionSet) (p : Program) : Prop where
  entry : ∀ i ∈ p.instructions, ∃ name e, isa.byMnemonic? name = some e ∧
    i.opcode = e.opcode ∧ i.operand.isSome = e.hasOperand
  labels_nodup : (p.labels.map Prod.fst).Nodup
  label_le : ∀ l ∈ p.labels, l.2 ≤ p.instructions.length
  vars_nodup : (p.vars.map Prod.fst).Nodup
  value : ∀ v ∈ p.vars, Word.InRange v.2

theorem Program.wellFormed_of_parse {isa : InstructionSet} {tokens : List Token} {p : Program}
    (hk : isa.byMnemonic? InstructionSet.keyword = none)
    (h : Program.parse isa tokens = .ok p) : p.WellFormed isa := by
  obtain ⟨ss,⟨hvalid,-⟩,⟨hlabels,hvars⟩,rfl⟩ := (parse_eq_ok hk).mp h
  constructor
  case entry =>
    intro i hi
    obtain ⟨s,hs,hbody⟩ := List.mem_filterMap.mp hi
    have hb := (hvalid s hs).1
    cases hc : s.body with
    | instruction head e operand =>
      rw [hc] at hb hbody
      obtain rfl := Option.some.inj hbody
      exact ⟨head.value,e,hb.1,rfl,by simpa using hb.2⟩
    | declaration head name literal value =>
      rw [hc] at hbody
      simp [Body.instruction?] at hbody
  case labels_nodup =>
    rw [labels_program_names]
    exact hlabels
  case label_le =>
    intro l hl
    obtain ⟨i,hi⟩ := mem_labels_program.mp hl
    obtain ⟨s,-,hi⟩ := Option.bind_eq_some_iff.mp hi
    obtain ⟨name,-,hi⟩ := Option.bind_eq_some_iff.mp hi
    obtain rfl := Option.some.inj hi
    exact ((List.take_sublist i ss).filterMap _).length_le
  case vars_nodup => exact hvars
  case value =>
    intro v hv
    obtain ⟨s,hs,hbody⟩ := List.mem_filterMap.mp hv
    have hb := (hvalid s hs).1
    cases hc : s.body with
    | instruction head e operand =>
      rw [hc] at hbody
      simp [Body.var?] at hbody
    | declaration head name literal value =>
      rw [hc] at hb hbody
      obtain rfl := Option.some.inj hbody
      exact hb.2.2.2

end Micro86
