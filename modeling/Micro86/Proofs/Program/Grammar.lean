import Mathlib.Data.List.Basic
import Mathlib.Data.List.Induction
import Micro86.Program.Parse

/-!
The grammar of programs, apart from any way to read them. A statement is an instruction with
its operand, or a declaration; one label may stand in front. A sequence of statements denotes
a program by plain counting: the instructions in order, every label with the number of the
instructions before it, and the variables in order. A token stream has at most one split into
statements.
-/
namespace Micro86.Grammar

/-- A statement behind its label: an instruction with the entry of its mnemonic, or a
declaration with the number of its literal. -/
inductive Body
  | instruction (head : Token) (entry : Entry) (operand : Option Token)
  | declaration (head name literal : Token) (value : Int)
  deriving DecidableEq, Repr

structure Statement where
  /-- The name of the label and the line that it stands on. -/
  label : Option (String × Int)
  body : Body
  deriving DecidableEq, Repr

def labelToken (l : String × Int) : Token := ⟨l.1 ++ ":",l.2⟩

namespace Body

def head : Body → Token
  | instruction head _ _ => head
  | declaration head _ _ _ => head

/-- The tokens behind the first. -/
def tail : Body → List Token
  | instruction _ _ operand => operand.toList
  | declaration _ name literal _ => [name,literal]

def tokens (b : Body) : List Token := b.head :: b.tail

/-- What the instruction set and the limits of a variable allow. An operand may be any token. -/
def Valid (isa : InstructionSet) : Body → Prop
  | instruction head entry operand =>
    isa.byMnemonic? head.value = some entry ∧ operand.isSome = entry.hasOperand
  | declaration head name literal value =>
    head.value = InstructionSet.keyword ∧ isa.isName name.value ∧
      Text.readLiteral literal.value.toList = .ok (some value) ∧
      -0x80000000 ≤ value ∧ value ≤ 0x7FFFFFFF

def instruction? : Body → Option Instruction
  | instruction head entry operand =>
    some ⟨entry.opcode,entry.mnemonic,operand.map Token.value,head.line⟩
  | declaration _ _ _ _ => none

def var? : Body → Option (String × Int)
  | instruction _ _ _ => none
  | declaration _ name _ value => some (name.value,value)

end Body

namespace Statement

def tokens (s : Statement) : List Token := (s.label.map labelToken).toList ++ s.body.tokens

def Valid (isa : InstructionSet) (s : Statement) : Prop :=
  s.body.Valid isa ∧
    match s.label with
    | some l => isa.isName l.1
    | none => ∀ name, s.body.head.value ≠ name ++ ":"

end Statement

/-- The statements are valid and their tokens, one after another, are the given ones. -/
def Derives (isa : InstructionSet) (ss : List Statement) (tokens : List Token) : Prop :=
  (∀ s ∈ ss, s.Valid isa) ∧ ss.flatMap Statement.tokens = tokens

def labelNames (ss : List Statement) : List String := ss.filterMap fun s => s.label.map Prod.fst

def vars (ss : List Statement) : List (String × Int) :=
  ss.filterMap fun s => s.body.var?

def varNames (ss : List Statement) : List String := (vars ss).map Prod.fst

/-- No label is declared twice, and no variable. -/
def Distinct (ss : List Statement) : Prop := (labelNames ss).Nodup ∧ (varNames ss).Nodup

def instructions (ss : List Statement) : List Instruction :=
  ss.filterMap fun s => s.body.instruction?

/-- The label of the statement at an index, with the number of instructions before it. -/
def labelAt? (ss : List Statement) (i : Nat) : Option (String × Nat) := do
  let l ← (← ss[i]?).label
  return (l.1,(instructions (ss.take i)).length)

/-- The program that statements denote. -/
def program (ss : List Statement) : Program where
  instructions := instructions ss
  labels := (List.range ss.length).flatMap fun i => (labelAt? ss i).toList
  vars := vars ss

section
variable {isa : InstructionSet}

/-- A token is a label just when a colon ends it. -/
theorem label?_eq_some_iff {t : Token} {name : String} :
    t.label? = some name ↔ t.value = name ++ ":" := by
  have hsplit : t.label? = some name ↔ t.value.toList = name.toList ++ [':'] := by
    unfold Token.label?
    constructor
    · intro h
      split at h
      · next hl =>
        obtain ⟨cs,hcs⟩ := List.getLast?_eq_some_iff.mp hl
        rw [hcs,List.dropLast_concat] at h
        rw [hcs,← Option.some.inj h,String.toList_ofList]
      · simp at h
    · intro h
      simp [h]
  rw [hsplit,← String.toList_inj]
  simp

theorem label?_eq_none_iff {t : Token} : t.label? = none ↔ ∀ name, t.value ≠ name ++ ":" := by
  simp only [Option.eq_none_iff_forall_ne_some,ne_eq,label?_eq_some_iff]

theorem label?_labelToken (l : String × Int) : (labelToken l).label? = some l.1 :=
  label?_eq_some_iff.mpr rfl

theorem labelToken_injective {l k : String × Int} (h : labelToken l = labelToken k) : l = k := by
  have hname : some l.1 = some k.1 := by
    rw [← label?_labelToken,← label?_labelToken,h]
  exact Prod.ext (Option.some.inj hname) (congrArg Token.line h)

/-- No valid body is a proper beginning of another: the mnemonic says whether an operand
follows, and the keyword is no mnemonic. -/
theorem Body.Valid.prefix_free (hk : isa.byMnemonic? InstructionSet.keyword = none)
    {b c : Body} {rest more : List Token} (hb : b.Valid isa) (hc : c.Valid isa)
    (h : b.tokens ++ rest = c.tokens ++ more) : b = c ∧ rest = more := by
  obtain ⟨hhead,htail⟩ := List.cons.inj h
  cases b with
  | instruction head entry operand =>
    obtain ⟨he,ho⟩ := hb
    cases c with
    | instruction head' entry' operand' =>
      obtain ⟨he',ho'⟩ := hc
      obtain rfl : head = head' := hhead
      obtain rfl : entry = entry' := Option.some.inj (he.symm.trans he')
      cases operand <;> cases operand' <;> simp_all [tail]
    | declaration head' name literal value =>
      obtain rfl : head = head' := hhead
      rw [hc.1,hk] at he
      simp at he
  | declaration head name literal value =>
    obtain ⟨hkey,-,hv,-⟩ := hb
    cases c with
    | instruction head' entry operand =>
      obtain rfl : head = head' := hhead
      have he := hc.1
      rw [hkey,hk] at he
      simp at he
    | declaration head' name' literal' value' =>
      obtain ⟨-,-,hv',-⟩ := hc
      obtain rfl : head = head' := hhead
      obtain ⟨rfl,hlast⟩ := List.cons.inj htail
      obtain ⟨rfl,rfl⟩ := List.cons.inj hlast
      rw [hv] at hv'
      cases hv'
      exact ⟨rfl,rfl⟩

theorem Statement.Valid.prefix_free (hk : isa.byMnemonic? InstructionSet.keyword = none)
    {s t : Statement} {rest more : List Token} (hs : s.Valid isa) (ht : t.Valid isa)
    (h : s.tokens ++ rest = t.tokens ++ more) : s = t ∧ rest = more := by
  obtain ⟨label,b⟩ := s
  obtain ⟨label',c⟩ := t
  obtain ⟨hb,hl⟩ := hs
  obtain ⟨hc,hl'⟩ := ht
  cases label with
  | none =>
    cases label' with
    | none =>
      obtain ⟨rfl,rfl⟩ := hb.prefix_free hk hc h
      exact ⟨rfl,rfl⟩
    | some l' =>
      have hhead : b.head = labelToken l' := (List.cons.inj h).1
      exact absurd (congrArg Token.value hhead) (hl l'.1)
  | some l =>
    cases label' with
    | none =>
      have hhead : labelToken l = c.head := (List.cons.inj h).1
      exact absurd (congrArg Token.value hhead).symm (hl' l.1)
    | some l' =>
      obtain ⟨hhead,htail⟩ := List.cons.inj h
      obtain rfl := labelToken_injective hhead
      obtain ⟨rfl,rfl⟩ := hb.prefix_free hk hc htail
      exact ⟨rfl,rfl⟩

/-- Tokens have at most one split into statements, declared twice or not. -/
theorem Derives.unique (hk : isa.byMnemonic? InstructionSet.keyword = none)
    {ss ts : List Statement} {tokens : List Token} (hs : Derives isa ss tokens)
    (ht : Derives isa ts tokens) : ss = ts := by
  induction ss generalizing ts tokens with
  | nil =>
    obtain ⟨-,rfl⟩ := hs
    cases ts with
    | nil => rfl
    | cons t ts => simp [Derives,Statement.tokens,Body.tokens] at ht
  | cons s ss ih =>
    obtain ⟨hvs,rfl⟩ := hs
    obtain ⟨hvt,heq⟩ := ht
    cases ts with
    | nil => simp [Statement.tokens,Body.tokens] at heq
    | cons t ts =>
      rw [List.flatMap_cons,List.flatMap_cons] at heq
      obtain ⟨rfl,hrest⟩ := (hvt t (by simp)).prefix_free hk (hvs s (by simp)) heq
      have hts : ss = ts := ih ⟨fun u hu => hvs u (by simp [hu]),rfl⟩
        ⟨fun u hu => hvt u (by simp [hu]),hrest⟩
      rw [hts]

end

/-! ### One statement after others -/

/-- The program with the instruction or the variable of a body behind it. -/
def Body.addTo (p : Program) : Body → Program
  | instruction head entry operand =>
    p.addInstruction ⟨entry.opcode,entry.mnemonic,operand.map Token.value,head.line⟩
  | declaration _ name _ value => p.addVariable name.value value

def Statement.addTo (p : Program) (s : Statement) : Program :=
  match s.label with
  | some l => s.body.addTo (p.addLabel l.1)
  | none => s.body.addTo p

theorem labelAt?_concat_of_lt {ss : List Statement} {s : Statement} {i : Nat}
    (hi : i < ss.length) : labelAt? (ss ++ [s]) i = labelAt? ss i := by
  rw [labelAt?,labelAt?,List.getElem?_append_left hi,
    List.take_append_of_le_length (Nat.le_of_lt hi)]

theorem labelAt?_concat_length (ss : List Statement) (s : Statement) :
    labelAt? (ss ++ [s]) ss.length = s.label.map fun l => (l.1,(instructions ss).length) := by
  cases h : s.label <;> simp [labelAt?,h]

theorem program_concat (ss : List Statement) (s : Statement) :
    program (ss ++ [s]) = s.addTo (program ss) := by
  have hlabels : (program (ss ++ [s])).labels =
      (program ss).labels ++ (s.label.map fun l => (l.1,(instructions ss).length)).toList := by
    simp only [program,List.length_append,List.length_singleton,List.range_succ,
      List.flatMap_append,List.flatMap_singleton,labelAt?_concat_length]
    congr 1
    apply List.flatMap_congr
    intro i hi
    rw [labelAt?_concat_of_lt (List.mem_range.mp hi)]
  have hprogram : program (ss ++ [s]) = ⟨instructions (ss ++ [s]),(program ss).labels ++
      (s.label.map fun l => (l.1,(instructions ss).length)).toList,vars (ss ++ [s])⟩ := by
    rw [← hlabels]
    rfl
  rw [hprogram]
  obtain ⟨label,b⟩ := s
  cases label <;> cases b <;>
    simp [program,instructions,vars,Statement.addTo,Body.addTo,Body.instruction?,
      Body.var?,Program.addLabel,Program.addInstruction,Program.addVariable]

/-- Statements denote what they add to the empty program, one after another. -/
theorem program_eq_foldl (ss : List Statement) : program ss = ss.foldl Statement.addTo {} := by
  induction ss using List.reverseRecOn with
  | nil => rfl
  | append_singleton ss s ih => rw [program_concat,List.foldl_append,← ih]; rfl

end Micro86.Grammar
