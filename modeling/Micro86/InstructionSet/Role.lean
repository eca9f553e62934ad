/-! What an instruction does, apart from its name and number. -/
namespace Micro86

inductive Role
  | halt
  | load
  | store
  | add
  | sub
  | mul
  | div
  | mod
  | cmp
  | jmp
  | je
  | jne
  | jl
  | jle
  | jg
  | jge
  | input
  | output
  deriving DecidableEq, Repr

namespace Role

def all : List Role :=
  [halt, load, store, add, sub, mul, div, mod, cmp, jmp, je, jne, jl, jle, jg, jge, input, output]

def name : Role → String
  | halt => "halt"
  | load => "load"
  | store => "store"
  | add => "add"
  | sub => "sub"
  | mul => "mul"
  | div => "div"
  | mod => "mod"
  | cmp => "cmp"
  | jmp => "jmp"
  | je => "je"
  | jne => "jne"
  | jl => "jl"
  | jle => "jle"
  | jg => "jg"
  | jge => "jge"
  | input => "in"
  | output => "out"

def ofName? (name : String) : Option Role := all.find? fun r => r.name = name

/-- The roles whose operand is a position in the code. -/
def isJump : Role → Bool
  | jmp | je | jne | jl | jle | jg | jge => true
  | _ => false

/-- The role of a mnemonic whose line gives none. -/
def ofMnemonic? (mnemonic : String) : Option Role :=
  [("HALT",halt), ("LOAD",load), ("LOADI",load), ("STORE",store), ("ADD",add), ("ADDI",add),
    ("SUB",sub), ("SUBI",sub), ("MUL",mul), ("MULI",mul), ("DIV",div), ("DIVI",div),
    ("MOD",mod), ("MODI",mod), ("CMP",cmp), ("CMPI",cmp), ("JMP",jmp), ("JMPI",jmp),
    ("JE",je), ("JEI",je), ("JNE",jne), ("JNEI",jne), ("JL",jl), ("JLI",jl), ("JLE",jle),
    ("JLEI",jle), ("JG",jg), ("JGI",jg), ("JGE",jge), ("JGEI",jge), ("IN",input),
    ("OUT",output)].lookup mnemonic

end Role
end Micro86
