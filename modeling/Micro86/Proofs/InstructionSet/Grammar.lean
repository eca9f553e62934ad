import Mathlib.Data.List.Forall2
import Mathlib.Tactic.SplitIfs
import Micro86.InstructionSet.Descriptor
import Micro86.Proofs.Fallible
import Micro86.Proofs.Text.Blank
import Micro86.Proofs.Text.Search

/-!
The grammar of descriptor texts. A line is empty up to its comment, or it has an opcode, an equals
sign and a mnemonic, then marks for the operand and a role. Main statement: a text is read exactly
if all its lines are good, and the first one that is not is the one that the error names.
-/
namespace Micro86

theorem Role.ofName?_eq_some {name : String} {role : Role} :
    ofName? name = some role ↔ role.name = name := by
  constructor
  · intro h
    simpa using List.find?_some h
  · rintro rfl
    cases role <;> rfl

namespace Entry

/-! ### Words of one line -/

/-- The digits of an opcode, as many as one likes, for a number of sixteen bits. -/
structure IsOpcode (digits : List Char) : Prop where
  ne_nil : digits ≠ []
  digit : ∀ c ∈ digits, Text.isHexDigit c = true
  le : Text.hexValue digits ≤ 0xFFFF

/-- The marks behind a mnemonic: whether there is an operand, and whether it is immediate. -/
inductive Marks : List (List Char) → Bool → Bool → Prop
  | none : Marks [] false false
  | operand : Marks [['o']] true false
  | immediate : Marks [['o'],['i']] true true

/-- Words with a role behind them, or with none. A last word that starts with an at sign is a role
in any case, so that words without a role end otherwise. -/
inductive Ends (stem : List (List Char)) : List (List Char) → Option Role → Prop
  | plain (h : ∀ name, stem.getLast? ≠ some ('@' :: name)) : Ends stem stem none
  | role (r : Role) : Ends stem (stem ++ ['@' :: r.name.toList]) (some r)

/-- The words of a good line, and an entry with what they say. The number of the line is not in
them. -/
inductive Spells : List (List Char) → Entry → Prop
  | entry {digits mnemonic : List Char} {marks words : List (List Char)}
      {hasOperand isImmediate : Bool} {role : Option Role} (hdigits : IsOpcode digits)
      (hmnemonic : String.ofList mnemonic ≠ InstructionSet.keyword)
      (hmarks : Marks marks hasOperand isImmediate)
      (hrole : Ends (digits :: ['='] :: mnemonic :: marks) words role) (line : Nat) :
      Spells words ⟨String.ofList mnemonic,Text.hexValue digits,hasOperand,isImmediate,
        role.or (Role.ofMnemonic? (String.ofList mnemonic)),line⟩

theorem Spells.atLine {words : List (List Char)} {e : Entry} (h : Spells words e) (line : Nat) :
    Spells words { e with line := line } := by
  cases h with
  | entry hdigits hmnemonic hmarks hrole _ => exact .entry hdigits hmnemonic hmarks hrole line

/-- Taking the role off finds where the words without it end. -/
theorem splitRole_eq_ok {words stem : List (List Char)} {role : Option Role} :
    splitRole words = .ok (role,stem) ↔ Ends stem words role := by
  constructor
  · intro h
    unfold splitRole at h
    split at h
    · next name hlast =>
      obtain ⟨front,rfl⟩ := List.getLast?_eq_some_iff.mp hlast
      split at h
      · next r hr =>
        cases h
        have hname : name = r.name.toList := by
          rw [Role.ofName?_eq_some.mp hr,String.toList_ofList]
        rw [List.dropLast_concat,hname]
        exact .role r
      · simp at h
    · next hlast =>
      cases h
      exact .plain hlast
  · rintro (hlast | r)
    · unfold splitRole
      split
      · next name h => exact absurd h (hlast name)
      · rfl
    · have hname : Role.ofName? r.name = some r := Role.ofName?_eq_some.mpr rfl
      simp [splitRole,hname]

theorem shape?_eq_some {words : List (List Char)} {digits mnemonic : List Char}
    {hasOperand isImmediate : Bool} :
    shape? words = some (digits,mnemonic,hasOperand,isImmediate) ↔
      ∃ marks, words = digits :: ['='] :: mnemonic :: marks ∧
        Marks marks hasOperand isImmediate := by
  constructor
  · intro h
    unfold shape? at h
    split at h
    · cases h
      exact ⟨[],rfl,.none⟩
    · cases h
      exact ⟨_,rfl,.operand⟩
    · cases h
      exact ⟨_,rfl,.immediate⟩
    · simp at h
  · rintro ⟨marks,rfl,hmarks⟩
    cases hmarks <;> rfl

theorem Ends.subset {stem words : List (List Char)} {role : Option Role} (h : Ends stem words role) :
    stem ⊆ words := by
  cases h with
  | plain h => exact List.Subset.refl stem
  | role r => exact List.subset_append_left stem _

/-- Words are read exactly if they spell an entry. -/
theorem ofWords_eq_ok_iff {line : Nat} {words : List (List Char)} {e : Entry}
    (hwords : ∀ w ∈ words, w ≠ []) :
    ofWords line words = .ok e ↔ Spells words e ∧ e.line = line := by
  constructor
  · intro h
    obtain ⟨⟨role,stem⟩,hsplit,h⟩ := bind_eq_ok.mp h
    dsimp only at h
    split at h
    · simp at h
    · next digits mnemonic hasOperand isImmediate hshape =>
      split_ifs at h with hhex hwide hkey
      cases h
      obtain ⟨marks,rfl,hmarks⟩ := shape?_eq_some.mp hshape
      have hends := splitRole_eq_ok.mp hsplit
      refine ⟨.entry ⟨hwords _ (hends.subset List.mem_cons_self),?_,?_⟩ hkey hmarks hends line,rfl⟩
      · simpa using hhex
      · omega
  · rintro ⟨h,rfl⟩
    cases h with
    | @entry digits mnemonic marks _ hasOperand isImmediate role hdigits hmnemonic hmarks hends =>
      have hall : digits.all Text.isHexDigit = true := List.all_eq_true.mpr hdigits.digit
      have hnarrow : ¬0xFFFF < Text.hexValue digits := Nat.not_lt.mpr hdigits.le
      rw [ofWords,splitRole_eq_ok.mpr hends,ok_bind]
      simp [shape?_eq_some.mpr ⟨marks,rfl,hmarks⟩,hall,hnarrow,hmnemonic]

end Entry

namespace InstructionSet

/-! ### Lines of a text -/

/-- The words of a line that are no comment. -/
def contentWords (raw : List Char) : List (List Char) := Text.words (raw.takeWhile (· ≠ '#'))

/-- A line with nothing on it, or with the words of an entry. -/
def Good (raw : List Char) : Prop :=
  contentWords raw = [] ∨ ∃ e, Entry.Spells (contentWords raw) e

theorem lineWords_eq (raw : List Char) : lineWords raw = contentWords raw := by
  rw [lineWords,Text.before_singleton,contentWords]

theorem ofWords_lineWords {raw : List Char} {words : List (List Char)}
    (hwords : lineWords raw = words) {line : Nat} {e : Entry} :
    Entry.ofWords line words = .ok e ↔ Entry.Spells words e ∧ e.line = line := by
  subst hwords
  exact Entry.ofWords_eq_ok_iff fun w hw => (Text.isWord_of_mem_words hw).1

/-- The entries of numbered lines, one for each line that is not empty, and in their order. -/
def Lists (ls : List (List Char × Nat)) (entries : List Entry) : Prop :=
  List.Forall₂ (fun l e => Entry.Spells (contentWords l.1) e ∧ e.line = l.2)
    (ls.filter fun l => contentWords l.1 ≠ []) entries

section
variable {raw : List Char} (source : String) (line : Nat)

/-- A good line adds its entry, if it has one. -/
theorem scan_cons_good (h : Good raw) :
    ∃ here : Option Entry,
      (∀ rest read, scan source ((raw,line) :: rest) read = scan source rest (here.toList ++ read)) ∧
      ∀ rest entries, Lists rest entries → Lists ((raw,line) :: rest) (here.toList ++ entries) := by
  by_cases hempty : contentWords raw = []
  · refine ⟨none,fun rest read => ?_,fun rest entries hrest => ?_⟩
    · rw [scan,lineWords_eq,hempty]
      rfl
    · rw [Lists,List.filter_cons_of_neg (by simpa using hempty)]
      exact hrest
  · obtain ⟨d,hd⟩ := h.resolve_left hempty
    have hspells := hd.atLine line
    have hread : Entry.ofWords line (contentWords raw) = .ok { d with line := line } :=
      (ofWords_lineWords (lineWords_eq raw)).mpr ⟨hspells,rfl⟩
    refine ⟨some { d with line := line },fun rest read => ?_,fun rest entries hrest => ?_⟩
    · rw [scan,lineWords_eq]
      split
      · next hnil => exact absurd hnil hempty
      · rw [hread]
        rfl
    · rw [Lists,List.filter_cons_of_pos (by simpa using hempty)]
      exact .cons ⟨hspells,rfl⟩ hrest

/-- A bad line ends the reading. -/
theorem scan_cons_bad (h : ¬Good raw) (rest : List (List Char × Nat)) (read : List Entry) :
    ∃ fault, scan source ((raw,line) :: rest) read = (read.reverse,some ⟨fault,line,raw,source⟩) := by
  rw [scan,lineWords_eq]
  split
  · next hnil => exact absurd (.inl hnil) h
  · cases hread : Entry.ofWords line (contentWords raw) with
    | error fault => exact ⟨fault,rfl⟩
    | ok e => exact absurd (.inr ⟨e,((ofWords_lineWords (lineWords_eq raw)).mp hread).1⟩) h

end

/-- Lines are read to their end, or up to the first bad one. -/
theorem scan_cases (source : String) (ls : List (List Char)) (first : Nat) (read : List Entry) :
    (∃ entries, scan source (ls.zipIdx first) read = (read.reverse ++ entries,none) ∧
      (∀ raw ∈ ls, Good raw) ∧ Lists (ls.zipIdx first) entries) ∨
    ∃ before raw behind entries fault, ls = before ++ raw :: behind ∧ (∀ l ∈ before, Good l) ∧
      ¬Good raw ∧ scan source (ls.zipIdx first) read =
        (entries,some ⟨fault,first+before.length,raw,source⟩) := by
  induction ls generalizing first read with
  | nil => exact .inl ⟨[],by simp [scan],by simp,.nil⟩
  | cons raw ls ih =>
    rw [List.zipIdx_cons]
    by_cases hgood : Good raw
    · obtain ⟨here,hscan,hlists⟩ := scan_cons_good source first hgood
      rw [hscan]
      obtain ⟨entries,hrest,hall,hentries⟩ | ⟨before,bad,behind,entries,fault,rfl,hall,hbad,hrest⟩ :=
        ih (first+1) (here.toList ++ read)
      · refine .inl ⟨here.toList ++ entries,?_,List.forall_mem_cons.mpr ⟨hgood,hall⟩,
          hlists _ _ hentries⟩
        rw [hrest]
        cases here <;> simp
      · refine .inr ⟨raw :: before,bad,behind,entries,fault,rfl,
          List.forall_mem_cons.mpr ⟨hgood,hall⟩,hbad,?_⟩
        rw [hrest,List.length_cons,Nat.add_assoc,Nat.add_comm 1]
    · obtain ⟨fault,hscan⟩ := scan_cons_bad source first hgood (ls.zipIdx (first+1)) read
      exact .inr ⟨[],raw,ls,_,fault,rfl,by simp,hgood,hscan⟩

/-- A text is read to the entries of its lines, or its first bad line is reported. -/
theorem parse_cases (source : String) (text : List Char) :
    (∃ entries, parse source text = .ok ⟨source,entries⟩ ∧ (∀ raw ∈ Text.lines text, Good raw) ∧
      Lists ((Text.lines text).zipIdx 1) entries) ∨
    ∃ before raw behind fault, Text.lines text = before ++ raw :: behind ∧
      (∀ l ∈ before, Good l) ∧ ¬Good raw ∧
      parse source text = .error ⟨fault,before.length+1,raw,source⟩ := by
  obtain ⟨entries,hscan,hall,hentries⟩ | ⟨before,raw,behind,entries,fault,hlines,hall,hbad,hscan⟩ :=
    scan_cases source (Text.lines text) 1 []
  · refine .inl ⟨entries,?_,hall,hentries⟩
    rw [parse,Text.numberedLines,hscan]
    rfl
  · refine .inr ⟨before,raw,behind,fault,hlines,hall,hbad,?_⟩
    rw [parse,Text.numberedLines,hscan,Nat.add_comm]

/-- Texts are read line by line. A text is accepted exactly if all its lines are good, and to the
entries of those that are not empty; otherwise the error has the number, counted from one, and the
whole text of the first line that is not good. -/
theorem parse_accepts_good_lines (source : String) (text : List Char) :
    ((∃ isa, parse source text = .ok isa) ↔ ∀ raw ∈ Text.lines text, Good raw) ∧
    (∀ isa, parse source text = .ok isa →
      isa.source = source ∧ Lists ((Text.lines text).zipIdx 1) isa.entries) ∧
    ∀ error, parse source text = .error error → ∃ before raw behind,
      Text.lines text = before ++ raw :: behind ∧ (∀ l ∈ before, Good l) ∧ ¬Good raw ∧
      error.line = before.length+1 ∧ error.text = raw ∧ error.source = source := by
  obtain ⟨entries,hparse,hall,hentries⟩ | ⟨before,raw,behind,fault,hlines,hall,hbad,hparse⟩ :=
    parse_cases source text
  · refine ⟨⟨fun _ => hall,fun _ => ⟨_,hparse⟩⟩,?_,?_⟩
    · intro isa hisa
      cases hparse.symm.trans hisa
      exact ⟨rfl,hentries⟩
    · intro error herror
      cases hparse.symm.trans herror
  · refine ⟨⟨?_,?_⟩,?_,?_⟩
    · rintro ⟨isa,hisa⟩
      cases hparse.symm.trans hisa
    · intro hgood
      exact absurd (hgood raw (by simp [hlines])) hbad
    · intro isa hisa
      cases hparse.symm.trans hisa
    · intro error herror
      cases hparse.symm.trans herror
      exact ⟨before,raw,behind,hlines,hall,hbad,rfl,rfl,rfl⟩

/-- The at sign makes a role of the last word, even where a mnemonic is missing then. -/
example : parse "set" "1 = A o @load # good\n\n2 = @halt".toList =
    .error ⟨.invalidSyntax,3,"2 = @halt".toList,"set"⟩ := by decide +kernel

end InstructionSet
end Micro86
