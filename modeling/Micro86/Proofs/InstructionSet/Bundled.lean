import Micro86.InstructionSet.Bundled
import Micro86.Proofs.InstructionSet.Loaded
import Micro86.Proofs.Text.Line

/-!
The bundled instruction set, entry by entry, and what is regular about it: mnemonics and
opcodes find the same entries, and the marks of an entry fit its role.
-/
namespace Micro86

/-- Whether a role has something to do with an operand. -/
def Role.takesOperand : Role → Bool
  | halt | input | output => false
  | _ => true

/-- The marks of an entry fit its role: jumps name a position and stores a variable. -/
structure Entry.Regular (e : Entry) (role : Role) : Prop where
  role_eq : e.role = some role
  operand : e.hasOperand = role.takesOperand
  jump : role.isJump → e.isImmediate
  store : role = .store → e.isImmediate = false

namespace InstructionSet

structure Regular (isa : InstructionSet) : Prop where
  keyword : isa.byMnemonic? keyword = none
  opcode : ∀ name e, isa.byMnemonic? name = some e → isa.byOpcode? e.opcode = some e
  entry : ∀ opcode e, isa.byOpcode? opcode = some e → ∃ role, e.Regular role

theorem Regular.role_isSome {isa : InstructionSet} (h : isa.Regular) {opcode : Int} {e : Entry}
    (he : isa.byOpcode? opcode = some e) : e.role.isSome := by
  obtain ⟨role,hrole⟩ := h.entry opcode e he
  rw [hrole.role_eq,Option.isSome_some]

def bundledEntries : List Entry := [
  ⟨"HALT",0x0100,false,false,some .halt,9⟩,
  ⟨"LOAD",0x0202,true,false,some .load,10⟩,
  ⟨"LOADI",0x0201,true,true,some .load,11⟩,
  ⟨"STORE",0x0302,true,false,some .store,12⟩,
  ⟨"ADD",0x0402,true,false,some .add,13⟩,
  ⟨"ADDI",0x0401,true,true,some .add,14⟩,
  ⟨"SUB",0x0502,true,false,some .sub,15⟩,
  ⟨"SUBI",0x0501,true,true,some .sub,16⟩,
  ⟨"MUL",0x0602,true,false,some .mul,17⟩,
  ⟨"MULI",0x0601,true,true,some .mul,18⟩,
  ⟨"DIV",0x0702,true,false,some .div,19⟩,
  ⟨"DIVI",0x0701,true,true,some .div,20⟩,
  ⟨"MOD",0x0802,true,false,some .mod,21⟩,
  ⟨"MODI",0x0801,true,true,some .mod,22⟩,
  ⟨"CMP",0x0902,true,false,some .cmp,23⟩,
  ⟨"CMPI",0x0901,true,true,some .cmp,24⟩,
  ⟨"JMPI",0x0A01,true,true,some .jmp,27⟩,
  ⟨"JEI",0x0B01,true,true,some .je,28⟩,
  ⟨"JNEI",0x0C01,true,true,some .jne,29⟩,
  ⟨"JLI",0x0D01,true,true,some .jl,30⟩,
  ⟨"JLEI",0x0E01,true,true,some .jle,31⟩,
  ⟨"JGI",0x0F01,true,true,some .jg,32⟩,
  ⟨"JGEI",0x1001,true,true,some .jge,33⟩,
  ⟨"IN",0x1100,false,false,some .input,35⟩,
  ⟨"OUT",0x1200,false,false,some .output,36⟩]

theorem unbroken_of_mem_bundledLines : ∀ l ∈ bundledLines, Text.Unbroken l := by decide +kernel

theorem lines_bundledText : Text.lines bundledText = bundledLines.map String.toList :=
  Text.lines_unlines unbroken_of_mem_bundledLines

/-- Every line of the bundled text is read, and to these entries. -/
theorem scan_bundledText :
    scan bundledSource (Text.numberedLines bundledText) [] = (bundledEntries,none) := by
  rw [Text.numberedLines,lines_bundledText]
  simp only [bundledLines,List.map_cons,List.map_nil,String.reduceToList]
  decide +kernel

theorem bundled_eq : bundled = ⟨bundledSource,bundledEntries⟩ := by
  rw [bundled,scan_bundledText]

theorem parse_bundledText : parse bundledSource bundledText = .ok bundled := by
  rw [parse,scan_bundledText,bundled_eq]

theorem bundled_regular : bundled.Regular where
  keyword := byMnemonic?_keyword parse_bundledText
  opcode := by
    have hfinds : ∀ e ∈ bundledEntries,
        (⟨bundledSource,bundledEntries⟩ : InstructionSet).byOpcode? e.opcode = some e := by decide
    intro name e he
    obtain ⟨hmem,-⟩ := mem_of_byMnemonic? he
    rw [bundled_eq] at hmem ⊢
    exact hfinds e hmem
  entry := by
    have hmarks : ∀ e ∈ bundledEntries, ∃ role ∈ Role.all, e.role = some role ∧
        e.hasOperand = role.takesOperand ∧ (role.isJump → e.isImmediate) ∧
        (role = .store → e.isImmediate = false) := by decide
    intro opcode e he
    obtain ⟨hmem,-⟩ := mem_of_byOpcode? he
    rw [bundled_eq] at hmem
    obtain ⟨role,-,hrole,hoperand,hjump,hstore⟩ := hmarks e hmem
    exact ⟨role,hrole,hoperand,hjump,hstore⟩

end InstructionSet
end Micro86
