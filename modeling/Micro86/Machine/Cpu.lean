import Micro86.Text.Line
import Micro86.Word

/-!
Registers, flags and memory. Registers and cells hold integers; what the machine itself
writes is a signed word. Addresses and sizes are numbers of 64 bits with a sign.
-/
namespace Micro86

/-- Why an address names no cell. -/
inductive AddressError
  | tooWide
  | noCell
  deriving DecidableEq, Repr

/-- Why there is no memory of a size. -/
inductive SizeError
  | tooWide
  | exhausted
  deriving DecidableEq, Repr

def SizeError.message : SizeError → String
  | tooWide => "memory size out of range"
  | exhausted => "not enough memory"

structure Cpu where
  memory : Array Int := #[]
  acc : Int := 0
  ip : Int := 0
  ir : Int := 0
  zero : Bool := false
  sign : Bool := false
  deriving DecidableEq, Repr

namespace Cpu

/-- Whether a number can be an address or a size at all. -/
def fits (n : Int) : Bool := -0x8000000000000000 ≤ n && n < 0x8000000000000000

/-- The number of cells in a memory of a size, where no more than `capacity` cells can be had;
a negative size gives none. -/
def cellCount (capacity : Nat) (size : Int) : Except SizeError Nat :=
  if !fits size then .error .tooWide
  else if capacity < size.toNat then .error .exhausted
  else .ok size.toNat

/-- All clear, with a memory of the given size. -/
def reset (capacity : Nat) (size : Int) : Except SizeError Cpu := do
  return { memory := Array.replicate (← cellCount capacity size) 0 }

def flags (c : Cpu) : Nat := (if c.zero then 1 else 0)+(if c.sign then 2 else 0)

def inBounds (c : Cpu) (address : Int) : Bool := 0 ≤ address && address < c.memory.size

/-- The index of a cell; negative numbers count from the end. -/
def index (c : Cpu) (address : Int) : Except AddressError Nat :=
  let i := if address < 0 then address+c.memory.size else address
  if !fits address then .error .tooWide
  else if c.inBounds i then .ok i.toNat
  else .error .noCell

def read (c : Cpu) (address : Int) : Except AddressError Int := do
  return c.memory.getD (← c.index address) 0

def write (c : Cpu) (address value : Int) : Except AddressError Cpu := do
  let i ← c.index address
  return { c with memory := c.memory.setIfInBounds i (Word.signed value) }

def setAcc (c : Cpu) (value : Int) : Cpu := { c with acc := Word.signed value }

/-- Sets the flags for the sign of a word. -/
def setFlags (c : Cpu) (value : Int) : Cpu :=
  { c with zero := Word.signed value = 0, sign := Word.signed value < 0 }

/-- A number as eight hexadecimal digits. -/
def hex8 (n : Int) : String := s!"0x{Text.hexPadded 8 n}"

def hexWord (w : Int) : String := hex8 (Word.unsigned w)

def dump (c : Cpu) : String :=
  s!"Registers: acc: {hexWord c.acc} ip: {hex8 c.ip} flags: {hex8 c.flags} (ir: {hexWord c.ir})"

def ellipsis : String := ". . . . ."

def cellLine (address : Nat) (value : Int) : String := s!"{hex8 address}:\t{hexWord value}"

/-- Lines of the cells from `address` on, behind a run of `zeros` zero cells. A run of zeros
shows its first cell, and an ellipsis for the others; the last cell is always shown. -/
def dumpFrom (address zeros : Nat) (shown : Array String) : List Int → Array String
  | [] => shown
  | v :: rest =>
    if v ≠ 0 then dumpFrom (address+1) 0 (shown.push (cellLine address v)) rest
    else if zeros = 0 ∨ rest = [] then
      dumpFrom (address+1) (zeros+1) (shown.push (cellLine address v)) rest
    else
      dumpFrom (address+1) (zeros+1) (if zeros = 1 then shown.push ellipsis else shown) rest

def dumpMemory (c : Cpu) : String := Text.unlines (dumpFrom 0 0 #[] c.memory.toList).toList

end Cpu
end Micro86
