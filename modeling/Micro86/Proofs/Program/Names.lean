import Micro86.Proofs.Program.Acceptance
import Micro86.Proofs.Text.Numeral

/-!
Names in a program. Those that come from a text have letters, digits and underscores only: a
name may end in a line feed, but no word of a text does.
-/
namespace Micro86

def isNameChar (c : Char) : Bool := c.isAlphanum || c = '_'

/-- Letters, digits and underscores, no digit first. -/
structure Plain (name : String) : Prop where
  first : ∃ c rest, name.toList = c :: rest ∧ (c.isAlpha || c = '_') = true
  chars : ∀ c ∈ name.toList, isNameChar c = true

theorem toNat_of_isAlpha {c : Char} (h : c.isAlpha = true) :
    65 ≤ c.toNat ∧ c.toNat ≤ 90 ∨ 97 ≤ c.toNat ∧ c.toNat ≤ 122 := by
  obtain h | h : c.isUpper = true ∨ c.isLower = true := (Bool.or_eq_true _ _).mp h
  · exact .inl (of_decide_eq_true h)
  · obtain ⟨hlo,hhi⟩ := (Bool.and_eq_true _ _).mp h
    exact .inr ⟨of_decide_eq_true hlo,of_decide_eq_true hhi⟩

theorem toNat_of_isNameChar {c : Char} (h : isNameChar c = true) :
    48 ≤ c.toNat ∧ c.toNat ≤ 57 ∨ 65 ≤ c.toNat ∧ c.toNat ≤ 90 ∨ c.toNat = 95 ∨
      97 ≤ c.toNat ∧ c.toNat ≤ 122 := by
  simp only [isNameChar,Char.isAlphanum,Bool.or_eq_true,decide_eq_true_eq] at h
  obtain (h | h) | rfl := h
  · have hrange := toNat_of_isAlpha h
    omega
  · simp only [Char.isDigit,Bool.and_eq_true,decide_eq_true_eq,ge_iff_le,
      UInt32.le_iff_toNat_le] at h
    exact .inl h
  · decide

theorem isNameChar_of_mem_toDigits {n : Nat} {c : Char} (h : c ∈ Nat.toDigits 10 n) :
    isNameChar c = true := by
  have hdigit : c.isDigit = true :=
    Nat.isDigit_of_mem_toDigits (b := 10) (by decide) (by decide) h
  simp [isNameChar,Char.isAlphanum,hdigit]

theorem isBlank_of_isNameChar {c : Char} (h : isNameChar c = true) : Text.isBlank c = false := by
  have hrange := toNat_of_isNameChar h
  exact Text.isBlank_of_ascii (by omega) (by omega)

namespace Plain
variable {name : String}

theorem isWord (h : Plain name) : Text.IsWord name.toList := by
  obtain ⟨c,rest,hname,-⟩ := h.first
  exact ⟨by simp [hname],fun c hc => isBlank_of_isNameChar (h.chars c hc)⟩

theorem ne_of_mem (h : Plain name) {word : String} {c : Char} (hc : c ∈ word.toList)
    (hchar : isNameChar c = false) : name ≠ word := by
  rintro rfl
  have hname := h.chars c hc
  simp [hchar] at hname

end Plain

theorem plain_of_isIdentifier {name : String} (h : isIdentifier name = true)
    (hblank : ∀ c ∈ name.toList, Text.isBlank c = false) : Plain name := by
  have hlast : name.toList.getLast? ≠ some '\n' := by
    intro hlast
    have hbreak := hblank '\n' (List.mem_of_getLast? hlast)
    exact absurd hbreak (by decide)
  rw [isIdentifier,Text.dropFinalBreak,if_neg hlast] at h
  cases hname : name.toList with
  | nil => simp [hname] at h
  | cons c rest =>
    rw [hname] at h
    obtain ⟨hfirst,hrest⟩ := (Bool.and_eq_true _ _).mp h
    refine ⟨⟨c,rest,hname,hfirst⟩,?_⟩
    rw [hname,List.forall_mem_cons]
    constructor
    · simp only [isNameChar,Char.isAlphanum,Bool.or_eq_true] at hfirst ⊢
      exact hfirst.imp_left .inl
    · exact List.all_eq_true.mp hrest

/-- A name starts as no number does; a line feed may end it. -/
theorem chars_of_isIdentifier {name : String} (h : isIdentifier name = true) :
    (∃ c ∈ name.toList, (c.isAlpha || c = '_') = true) ∧
      ∀ c ∈ name.toList, isNameChar c = true ∨ c = '\n' := by
  unfold isIdentifier at h
  split at h
  · simp at h
  · next c rest hname =>
    obtain ⟨hfirst,hrest⟩ := (Bool.and_eq_true _ _).mp h
    constructor
    · have hmem : c ∈ Text.dropFinalBreak name.toList := by simp [hname]
      exact ⟨c,(Text.dropFinalBreak_sublist _).subset hmem,hfirst⟩
    · intro d hd
      obtain hd | hd := Text.mem_dropFinalBreak hd
      · rw [hname] at hd
        obtain rfl | hd := List.mem_cons.mp hd
        · simp only [isNameChar,Char.isAlphanum,Bool.or_eq_true] at hfirst ⊢
          exact .inl (hfirst.imp_left .inl)
        · exact .inl (List.all_eq_true.mp hrest d hd)
      · exact .inr hd

theorem isWord_of_mem_tokens {marker text : List Char} {t : Token}
    (h : t ∈ Source.tokens marker text) : Text.IsWord t.value.toList := by
  obtain ⟨line,-,ht⟩ := List.mem_flatMap.mp h
  obtain ⟨word,hword,rfl⟩ := List.mem_map.mp ht
  rw [String.toList_ofList]
  exact Text.isWord_of_mem_words hword

open Grammar in
/-- The names and the operands of a program stand among its tokens. -/
theorem mem_tokens_of_parse {isa : InstructionSet} {tokens : List Token} {p : Program}
    (hk : isa.byMnemonic? InstructionSet.keyword = none) (h : Program.parse isa tokens = .ok p) :
    (∀ l ∈ p.labels, isa.isName l.1 = true ∧ ∃ t ∈ tokens, t.value = l.1 ++ ":") ∧
    (∀ v ∈ p.vars, isa.isName v.1 = true ∧ ∃ t ∈ tokens, t.value = v.1) ∧
    ∀ i ∈ p.instructions, ∀ text, i.operand = some text → ∃ t ∈ tokens, t.value = text := by
  obtain ⟨ss,⟨hvalid,rfl⟩,-,rfl⟩ := (parse_eq_ok hk).mp h
  refine ⟨?_,?_,?_⟩
  · intro l hl
    have hmem : l.1 ∈ labelNames ss := labels_program_names ss ▸ List.mem_map_of_mem hl
    obtain ⟨s,hs,hlabel⟩ := List.mem_filterMap.mp hmem
    obtain ⟨label,hs',hl'⟩ := Option.map_eq_some_iff.mp hlabel
    have hisname := (hvalid s hs).2
    rw [hs'] at hisname
    rw [← hl']
    refine ⟨hisname,labelToken label,List.mem_flatMap.mpr ⟨s,hs,?_⟩,rfl⟩
    simp [Statement.tokens,hs']
  · intro v hv
    obtain ⟨s,hs,hbody⟩ := List.mem_filterMap.mp hv
    have hb := (hvalid s hs).1
    cases hc : s.body with
    | instruction head e operand =>
      rw [hc] at hbody
      simp [Body.var?] at hbody
    | declaration head name literal value =>
      rw [hc] at hb hbody
      obtain rfl := Option.some.inj hbody
      refine ⟨hb.2.1,name,List.mem_flatMap.mpr ⟨s,hs,?_⟩,rfl⟩
      simp [Statement.tokens,hc,Body.tokens,Body.tail]
  · intro i hi text htext
    obtain ⟨s,hs,hbody⟩ := List.mem_filterMap.mp hi
    cases hc : s.body with
    | instruction head e operand =>
      rw [hc] at hbody
      obtain rfl := Option.some.inj hbody
      obtain ⟨t,rfl,rfl⟩ := Option.map_eq_some_iff.mp htext
      refine ⟨t,List.mem_flatMap.mpr ⟨s,hs,?_⟩,rfl⟩
      simp [Statement.tokens,hc,Body.tokens,Body.tail]
    | declaration head name literal value =>
      rw [hc] at hbody
      simp [Body.instruction?] at hbody

/-- The names of a program that was read from a text are plain. -/
theorem plain_of_parse {isa : InstructionSet} {marker text : List Char} {p : Program}
    (hk : isa.byMnemonic? InstructionSet.keyword = none)
    (h : Program.parse isa (Source.tokens marker text) = .ok p) :
    (∀ l ∈ p.labels, Plain l.1) ∧ ∀ v ∈ p.vars, Plain v.1 := by
  obtain ⟨hlabels,hvars,-⟩ := mem_tokens_of_parse hk h
  have hname : ∀ {name : String}, isa.isName name = true → ∀ {t}, t ∈ Source.tokens marker text →
      (∀ c ∈ name.toList, c ∈ t.value.toList) → Plain name := by
    intro name hname t ht hchars
    have hidentifier : isIdentifier name = true := ((Bool.and_eq_true _ _).mp hname).1
    exact plain_of_isIdentifier hidentifier fun c hc => (isWord_of_mem_tokens ht).2 c (hchars c hc)
  constructor
  · intro l hl
    obtain ⟨hisname,t,ht,hvalue⟩ := hlabels l hl
    exact hname hisname ht fun c hc => by simp [hvalue,hc]
  · intro v hv
    obtain ⟨hisname,t,ht,hvalue⟩ := hvars v hv
    exact hname hisname ht fun c hc => hvalue ▸ hc

end Micro86
