import Micro86.Text.Quoted

/-!
Machine words: 32 bits, the opcode in the upper half and the operand in the lower one.
Integers of any size stand for words through their remainder modulo `2^32`.
-/
namespace Micro86.Word

/-- The word of an integer, read without a sign. -/
def unsigned (w : Int) : Nat := (w % 0x100000000).toNat

/-- The word of an integer, read in two's complement. -/
def signed (w : Int) : Int := w.bmod 0x100000000

/-- The lower half of a word, read in two's complement. -/
def signExtend (w : Int) : Int := w.bmod 0x10000

/-- A number that has no place in its half of a word. -/
inductive RangeError
  | opcode (value : Int)
  | operand (value : Int)
  deriving DecidableEq, Repr

namespace RangeError

def value : RangeError → Int
  | opcode v => v
  | operand v => v

/-- What is said of a number that has the given digits. -/
def describe (digits : String) : RangeError → String
  | opcode _ => s!"Opcode out of range: {digits}"
  | operand _ => s!"Operand does not fit in 16 bits: {digits}"

/-- The message, unless its number cannot be written. -/
def message (e : RangeError) : Except Text.Unwritable String := do
  return e.describe (← Text.writable e.value).text

end RangeError

/-- Joins the halves. An operand may be given with or without a sign. -/
def encode (opcode : Int) (operand : Option Int) : Except RangeError Nat :=
  if opcode < 0 ∨ 0xFFFF < opcode then .error (.opcode opcode)
  else
    match operand with
    | none => .ok (opcode.toNat*0x10000)
    | some x =>
      if x < -0x8000 ∨ 0xFFFF < x then .error (.operand x)
      else .ok (opcode.toNat*0x10000+(x % 0x10000).toNat)

/-- The opcode and the operand, both without a sign. -/
def decode (w : Int) : Nat × Nat := (unsigned w / 0x10000,unsigned w % 0x10000)

inductive Radix
  | hex
  | bin
  deriving DecidableEq, Repr

/-- A name that no radix has. -/
structure UnsupportedRadix where
  name : String
  deriving DecidableEq, Repr

def UnsupportedRadix.message (e : UnsupportedRadix) : String := s!"Unsupported radix: {e.name}"

namespace Radix

def name : Radix → String
  | hex => "hex"
  | bin => "bin"

def ofName (name : String) : Except UnsupportedRadix Radix :=
  if name = "hex" then .ok hex else if name = "bin" then .ok bin else .error ⟨name⟩

end Radix

/-- All digits of a word: eight hexadecimal or thirty-two binary ones. -/
def format (radix : Radix) (w : Int) : String :=
  String.ofList <|
    match radix with
    | .hex => Text.zeroPadded 8 (Text.hexDigits (unsigned w))
    | .bin => Text.zeroPadded 32 (Nat.toDigits 2 (unsigned w))

/-- A text that is no hexadecimal number. -/
structure NotHex where
  text : List Char
  deriving DecidableEq, Repr

/-- The text is shown quoted, cut after two hundred characters. -/
def NotHex.message (e : NotHex) : String :=
  "invalid literal for int() with base 16: " ++ String.ofList ((Text.quoted e.text).take 200)

/-- Reads a hexadecimal number, in the loose form and of any size. -/
def parse (text : List Char) : Except NotHex Int :=
  match Text.looseHex? (Text.trim text) with
  | some w => .ok w
  | none => .error ⟨Text.trim text⟩

end Micro86.Word
