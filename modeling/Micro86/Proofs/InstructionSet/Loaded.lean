import Mathlib.Data.List.Nodup
import Micro86.Proofs.InstructionSet.Grammar
import Micro86.Proofs.InstructionSet.Tables

/-!
What holds of every instruction set that was read from a text: an opcode fits into half a
word, an immediate operand is an operand, and no mnemonic has a blank or is the word that declares
variables. If no two lines share an opcode, the opcode of an entry finds the entry. Main statement:
the tables and lists of the set fit together.
-/
namespace Micro86

namespace Entry.Spells
variable {words : List (List Char)} {e : Entry} (h : Entry.Spells words e)
include h

theorem opcode_le : e.opcode ≤ 0xFFFF := by
  cases h with
  | entry hdigits hmnemonic hmarks hrole line => exact hdigits.le

theorem mnemonic_ne_keyword : e.mnemonic ≠ InstructionSet.keyword := by
  cases h with
  | entry hdigits hmnemonic hmarks hrole line => exact hmnemonic

theorem hasOperand_of_isImmediate (himmediate : e.isImmediate = true) : e.hasOperand = true := by
  cases h with
  | entry hdigits hmnemonic hmarks hrole line =>
    cases hmarks with
    | none => simp at himmediate
    | operand => rfl
    | immediate => rfl

/-- The mnemonic is one of the words of its line. -/
theorem mnemonic_mem : e.mnemonic.toList ∈ words := by
  cases h with
  | entry hdigits hmnemonic hmarks hrole line =>
    rw [String.toList_ofList]
    exact hrole.subset (by simp)

end Entry.Spells

namespace InstructionSet

section
variable {source : String} {text : List Char} {isa : InstructionSet}

theorem Lists.spells {ls : List (List Char × Nat)} {entries : List Entry} (h : Lists ls entries) :
    ∀ e ∈ entries, ∃ raw, Entry.Spells (contentWords raw) e := by
  unfold Lists at h
  generalize ls.filter (fun l => contentWords l.1 ≠ []) = full at h
  induction h with
  | nil => simp
  | @cons l e full entries hl hrest ih => exact List.forall_mem_cons.mpr ⟨⟨l.1,hl.1⟩,ih⟩

theorem spells_of_parse (h : parse source text = .ok isa) :
    ∀ e ∈ isa.entries, ∃ raw, Entry.Spells (contentWords raw) e := by
  obtain ⟨entries,hparse,-,hentries⟩ | ⟨_,_,_,_,-,-,-,hparse⟩ := parse_cases source text
  · cases hparse.symm.trans h
    exact hentries.spells
  · cases hparse.symm.trans h

/-- The word that declares variables is no mnemonic. -/
theorem byMnemonic?_keyword (h : parse source text = .ok isa) :
    isa.byMnemonic? keyword = none := by
  cases he : isa.byMnemonic? keyword with
  | none => rfl
  | some e =>
    obtain ⟨hmem,hname⟩ := mem_of_byMnemonic? he
    obtain ⟨raw,hspells⟩ := spells_of_parse h e hmem
    exact absurd hname hspells.mnemonic_ne_keyword

theorem isWord_mnemonic (h : parse source text = .ok isa) :
    ∀ e ∈ isa.entries, Text.IsWord e.mnemonic.toList := by
  intro e he
  obtain ⟨raw,hspells⟩ := spells_of_parse h e he
  exact Text.isWord_of_mem_words hspells.mnemonic_mem

/-- Where no two entries share an opcode, neither takes the other's place. -/
theorem byOpcode?_of_mem (h : (isa.entries.map Entry.opcode).Nodup) {e : Entry}
    (he : e ∈ isa.entries) : isa.byOpcode? e.opcode = some e := by
  have hinjective := List.inj_on_of_nodup_map h
  obtain ⟨d,hd⟩ := exists_byOpcode?_of_mem (mem_opcodes.mpr ⟨e,he,rfl⟩)
  obtain ⟨hmem,hopcode⟩ := mem_of_byOpcode? hd
  rw [hd,hinjective hmem he (by omega)]

/-! ### How the tables fit together -/

/-- The tables and lists of an instruction set fit together. -/
structure Consistent (isa : InstructionSet) : Prop where
  /-- An opcode finds the last entry with it, whatever the mnemonics are. -/
  byOpcode : ∀ number e,
    isa.byOpcode? number = some e ↔ IsLast (fun d => (d.opcode : Int)) number e isa.entries
  /-- A mnemonic finds the last entry with it, whatever the opcodes are. -/
  byMnemonic : ∀ name e, isa.byMnemonic? name = some e ↔ IsLast Entry.mnemonic name e isa.entries
  /-- The table that the entries fill by opcode has the opcodes for keys and what they find. -/
  opcodeTable : (fillTable Entry.opcode isa.entries).map Prod.fst = isa.opcodes ∧
    ∀ o e, (o,e) ∈ fillTable Entry.opcode isa.entries ↔ isa.byOpcode? o = some e
  /-- The table that the entries fill by mnemonic has the mnemonics for keys and what they find. -/
  mnemonicTable : (fillTable Entry.mnemonic isa.entries).map Prod.fst = isa.mnemonics ∧
    ∀ name e, (name,e) ∈ fillTable Entry.mnemonic isa.entries ↔ isa.byMnemonic? name = some e
  opcodes : FirstAppearances isa.opcodes (isa.entries.map Entry.opcode)
  mnemonics : FirstAppearances isa.mnemonics (isa.entries.map Entry.mnemonic)
  isOpcode : ∀ number, isa.isOpcode number = true ↔ ∃ o ∈ isa.opcodes, (o : Int) = number
  isMnemonic : ∀ word, isa.isMnemonic word = true ↔ word ∈ isa.mnemonics
  opcodeOf : ∀ name, isa.isMnemonic name = true →
    ∃ o, isa.opcodeOf name = .ok o ∧ isa.isOpcode o = true ∧ o < 0x10000
  immediateOpcodes : ∀ o : Nat, o ∈ isa.immediateOpcodes ↔
    ∃ e, isa.byOpcode? o = some e ∧ e.isImmediate = true
  hasImmediate : ∀ number,
    isa.hasImmediate number = (isa.ofOpcode number).map Entry.isImmediate
  hasOperand : ∀ e ∈ isa.entries, e.isImmediate = true → e.hasOperand = true
  isReserved : ∀ word,
    isa.isReserved word = true ↔ isa.isMnemonic word = true ∨ word = keyword
  reservedWords : ∀ word, word ∈ isa.reservedWords ↔ isa.isReserved word = true
  keyword : isa.isMnemonic keyword = false
  /-- Opcodes lead back to their mnemonics unless a later entry takes one over. -/
  back : (∀ name, isa.isMnemonic name = true →
    (isa.opcodeOf name >>= fun o => isa.mnemonicOf o) = .ok name) ↔ isa.KeepsOpcodes

theorem exists_opcodeOf (h : parse source text = .ok isa) {name : String}
    (hname : isa.isMnemonic name = true) :
    ∃ o, isa.opcodeOf name = .ok o ∧ isa.isOpcode o = true ∧ o < 0x10000 := by
  obtain ⟨e,he⟩ := Option.isSome_iff_exists.mp hname
  obtain ⟨hmem,-⟩ := mem_of_byMnemonic? he
  obtain ⟨raw,hspells⟩ := spells_of_parse h e hmem
  have hopcode : isa.isOpcode e.opcode = true :=
    isOpcode_iff.mpr ⟨e.opcode,mem_opcodes.mpr ⟨e,hmem,rfl⟩,rfl⟩
  exact ⟨e.opcode,opcodeOf_eq_ok he,hopcode,Nat.lt_succ_of_le hspells.opcode_le⟩

/-- The tables of every instruction set that was read fit together. -/
theorem consistent_of_parse (h : parse source text = .ok isa) : isa.Consistent where
  byOpcode _ _ := byOpcode?_eq_some
  byMnemonic _ _ := byMnemonic?_eq_some
  opcodeTable := ⟨keys_fillTable _,fun _ _ => mem_fillTable.trans byOpcode?_natCast.symm⟩
  mnemonicTable := ⟨keys_fillTable _,fun _ _ => mem_fillTable.trans byMnemonic?_eq_some.symm⟩
  opcodes := firstAppearances_eraseDups _
  mnemonics := firstAppearances_eraseDups _
  isOpcode _ := isOpcode_iff
  isMnemonic _ := isMnemonic_iff
  opcodeOf _ hname := exists_opcodeOf h hname
  immediateOpcodes _ := mem_immediateOpcodes
  hasImmediate := hasImmediate_eq
  hasOperand e he := by
    obtain ⟨raw,hspells⟩ := spells_of_parse h e he
    exact hspells.hasOperand_of_isImmediate
  isReserved _ := isReserved_iff
  reservedWords _ := mem_reservedWords
  keyword := by rw [isMnemonic,byMnemonic?_keyword h,Option.isSome_none]
  back := mnemonicOf_opcodeOf_iff

/-- Four lines in which both opcodes and a mnemonic come twice. The opcode of the second line goes
to another mnemonic, so it does not lead back. -/
theorem consistent_of_parse_overriding :
    ∃ isa, parse "set" "1 = A o i\n2 = B\n1 = C @halt\n2 = A o".toList = .ok isa ∧
      isa.Consistent ∧ isa.opcodes = [1,2] ∧ isa.mnemonics = ["A","B","C"] ∧
      isa.immediateOpcodes = [] ∧ isa.opcodeOf "B" = .ok 2 ∧ isa.mnemonicOf 2 = .ok "A" ∧
      ¬ isa.KeepsOpcodes := by
  have hparse : parse "set" "1 = A o i\n2 = B\n1 = C @halt\n2 = A o".toList =
      .ok ⟨"set",[⟨"A",1,true,true,none,1⟩,⟨"B",2,false,false,none,2⟩,
        ⟨"C",1,false,false,some .halt,3⟩,⟨"A",2,true,false,none,4⟩]⟩ := by decide +kernel
  have hconsistent := consistent_of_parse hparse
  refine ⟨_,hparse,hconsistent,by decide,by decide,by decide,by decide,by decide,?_⟩
  rw [← hconsistent.back]
  intro hback
  exact absurd (hback "B" (by decide)) (by decide)

end
end InstructionSet
end Micro86
