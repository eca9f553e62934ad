import Micro86.Banner
import Micro86.Command.Arguments
import Micro86.Files
import Micro86.InstructionSet.Bundled
import Micro86.Machine.Cpu

/-!
What the commands have in common: their surroundings, their replies, how much they report,
and the instruction set that they start with.
-/
namespace Micro86.Command

/-- What a command finds around it. -/
structure Surroundings where
  files : Path → Except PathError Contents
  /-- The home directories of accounts; an empty name stands for the user's own. -/
  homes : String → Option String
  now : Moment
  /-- How long a piece of work takes, in milliseconds. -/
  elapsed : Text.Writable

/-- What a command leaves behind it. -/
structure Reply where
  exit : Nat
  stdout : String := ""
  stderr : String := ""
  deriving DecidableEq, Repr

/-- A value that a command cannot do without. -/
inductive Essential
  | instructionSet
  | radix
  | memory
  | maxSteps
  deriving DecidableEq, Repr

def Essential.switch : Essential → String
  | instructionSet => "--isa"
  | radix => "--radix"
  | memory => "--memory"
  | maxSteps => "--max-steps"

/-- Why a command breaks off and makes no reply. -/
inductive Abort
  | digits (e : Text.TooManyDigits)
  | number (e : Text.Unwritable)
  | path (e : PathError)
  | memory (e : SizeError)
  | omitted (v : Essential)
  deriving DecidableEq, Repr

def Abort.message : Abort → String
  | digits e => e.message
  | number e => e.message
  | path e => e.message
  | memory e => e.message
  | omitted v => s!"no value for {v.switch}"

inductive Verbosity
  | verbose
  | quiet
  deriving DecidableEq, Repr

namespace Verbosity

/-- The least serious records that are shown. -/
def level : Option Verbosity → Level
  | none => .info
  | some verbose => .debug
  | some quiet => .error

/-- One verbosity does not go with another. -/
def set (wanted : Verbosity) (old : Option Verbosity) : Except String (Option Verbosity) :=
  match wanted,old with
  | verbose,some quiet => .error "not allowed with argument -q/--quiet"
  | quiet,some verbose => .error "not allowed with argument -v/--verbose"
  | _,_ => .ok (some wanted)

end Verbosity

/-- The reply to arguments that stop a command. -/
def Stop.reply (program usage help : String) : Stop → Reply
  | .help => { exit := 0, stdout := usage ++ help }
  | .usage message => { exit := 1, stderr := s!"{usage}{program}: error: {message}\n" }

/-- Why a command cannot start. -/
inductive LoadError
  | unreadable (e : Unreadable)
  | badLine (line : Nat) (source : String)
  | abort (a : Abort)
  deriving DecidableEq, Repr

namespace LoadError

def message : LoadError → String
  | unreadable e => e.message
  | badLine line source => s!"Invalid syntax in line {line} in {source}!"
  | abort a => a.message

def ofRead : ReadError → LoadError
  | .path e => abort (.path e)
  | .unreadable e => unreadable e

end LoadError

/-- A piece of work, with what was reported on the way. -/
structure Reported (ε α : Type) where
  records : List Record
  result : Except ε α

def Reported.bind {ε α β : Type} (r : Reported ε α) (f : α → Reported ε β) : Reported ε β :=
  match r.result with
  | .error e => ⟨r.records,.error e⟩
  | .ok a => ⟨r.records ++ (f a).records,(f a).result⟩

/-- Reads a file whose path may start at a home directory. -/
def readNamed (s : Surroundings) (path : String) : Except LoadError (String × List Char) := do
  let place ← ((Path.parse path).expandHome s.homes).mapError fun e => .abort (.path e)
  let text ← (readText s.files place).mapError .ofRead
  return (place.render,text)

def loadText (s : Surroundings) (path : String) : Reported LoadError (String × List Char) :=
  ⟨[],readNamed s path⟩

def parseSet (named : String × List Char) : Reported LoadError InstructionSet where
  records := InstructionSet.records named.1 named.2
  result := (InstructionSet.parse named.1 named.2).mapError fun e => .badLine e.line e.source

/-- The instruction set of a file, or the bundled one. -/
def loadSet (s : Surroundings) : Option (Value String) → Reported LoadError InstructionSet
  | none => parseSet (InstructionSet.bundledSource,InstructionSet.bundledText)
  | some .omitted => ⟨[],.error (.abort (.omitted .instructionSet))⟩
  | some (.given path) => (loadText s path).bind parseSet

def errorRecord (message : String) : Record := ⟨.error,.command,message⟩

end Micro86.Command
