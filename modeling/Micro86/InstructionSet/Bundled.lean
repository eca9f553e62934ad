import Micro86.InstructionSet.Descriptor

/-! The instruction set that the tools use unless they are given another. -/
namespace Micro86.InstructionSet

/-- The name that messages give to the bundled text. -/
def bundledSource : String := "<default-isa>"

def bundledLines : List String := [
  "# Micro86 instruction set.",
  "#",
  "# Format: <hex opcode> = <mnemonic> [o [i]] [@role]",
  "#",
  "#   o      instruction takes an operand",
  "#   i      operand is immediate (a literal or a label)",
  "#   @role  what the instruction does (by default, what its mnemonic says)",
  "",
  "0100 = HALT",
  "0202 = LOAD o",
  "0201 = LOADI o i",
  "0302 = STORE o",
  "0402 = ADD o",
  "0401 = ADDI o i",
  "0502 = SUB o",
  "0501 = SUBI o i",
  "0602 = MUL o",
  "0601 = MULI o i",
  "0702 = DIV o",
  "0701 = DIVI o i",
  "0802 = MOD o",
  "0801 = MODI o i",
  "0902 = CMP o",
  "0901 = CMPI o i",
  "",
  "# Jumps take a label or an absolute instruction position.",
  "0A01 = JMPI o i",
  "0B01 = JEI o i",
  "0C01 = JNEI o i",
  "0D01 = JLI o i",
  "0E01 = JLEI o i",
  "0F01 = JGI o i",
  "1001 = JGEI o i",
  "",
  "1100 = IN",
  "1200 = OUT"]

def bundledText : List Char := (Text.unlines bundledLines).toList

/-- The bundled instruction set; its text has no bad line. -/
def bundled : InstructionSet :=
  ⟨bundledSource,(scan bundledSource (Text.numberedLines bundledText) []).1⟩

end Micro86.InstructionSet
