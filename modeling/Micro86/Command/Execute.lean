import Micro86.Command.Reply
import Micro86.Listing
import Micro86.Machine.Run

/-!
The machine as a command: loads a word listing and runs it. What a run shows goes to the
terminal at once, so the command stops before the run and is taken up behind it.
-/
namespace Micro86.Command.Execute

structure Settings where
  trace : Bool := false
  dump : Bool := false
  resize : Bool := false
  memory : Value Int := .given Machine.defaultMemorySize
  maxSteps : Option (Value Int) := none
  isa : Option (Value String) := none
  verbosity : Option Verbosity := none
  deriving DecidableEq, Repr

/-- A number from one on. -/
def positive (text : String) : Except String Int :=
  match Text.looseDecimal? text.toList with
  | none => .error s!"invalid _positive value: {Text.quote text}"
  | some n => if n < 1 then .error s!"must be at least 1: {text}" else .ok n

def switches : List (Switch Settings) := [
  ⟨["-h", "--help"],.help⟩,
  ⟨["-t", "--trace"],.flag fun s => .ok { s with trace := true }⟩,
  ⟨["-d", "--dump"],.flag fun s => .ok { s with dump := true }⟩,
  ⟨["-r", "--resize"],.flag fun s => .ok { s with resize := true }⟩,
  ⟨["--memory"],.value fun v s => do return { s with memory := ← v.read positive }⟩,
  ⟨["--max-steps"],.value fun v s => do return { s with maxSteps := some (← v.read positive) }⟩,
  ⟨["--isa"],.value fun v s => .ok { s with isa := some v }⟩,
  ⟨["-v", "--verbose"],.flag fun s => do
    return { s with verbosity := ← Verbosity.verbose.set s.verbosity }⟩,
  ⟨["-q", "--quiet"],.flag fun s => do
    return { s with verbosity := ← Verbosity.quiet.set s.verbosity }⟩]

def grammar : Grammar Settings := ⟨switches,"program",{}⟩

def usage : String := Text.unlines [
  "usage: m86run [-h] [-t] [-d] [-r] [--memory MEMORY] [--max-steps MAX_STEPS]",
  "              [--isa ISA] [-v | -q]",
  "              program"]

def help : String := Text.unlines [
  "",
  "Run a Micro86 word listing",
  "",
  "positional arguments:",
  "  program               Micro86 program file (one hex word per line)",
  "",
  "options:",
  "  -h, --help            show this help message and exit",
  "  -t, --trace           print every executed instruction",
  "  -d, --dump            print the disassembled program after the run",
  "  -r, --resize          grow memory to fit a large program",
  "  --memory MEMORY       memory size in words",
  "  --max-steps MAX_STEPS",
  "                        stop after this many instructions",
  "  --isa ISA             instruction set descriptor file",
  "  -v, --verbose         log debug details",
  "  -q, --quiet           log errors only"]

def bootBanner (program : String) : String :=
  s!"*** Micro86 Emulator V. 1.0 BOOTING ***\n\nProgram file: {program}\n"

def traceHeader : String := "\n=== EXECUTION TRACE ===\n\n"

def haltedBanner : String := "\n*** Micro86 Emulator V. 1.0 HALTED ***\n"

/-- A machine that is ready to run, and what the terminal shows before it does. -/
structure Session where
  settings : Settings
  /-- The greatest number of steps, if there is one. -/
  limit : Option Int
  records : List Record
  machine : Machine
  shown : String

inductive Start
  | reply (r : Reply)
  | run (session : Session)
  | abort (a : Abort)

def parseListing (named : String × List Char) : Reported LoadError (List Nat) :=
  match Listing.parse named.1 named.2 with
  | .error e => ⟨[],.error (.badLine e.line e.source)⟩
  | .ok words => ⟨Listing.records named.1 words,.ok words⟩

/-- The instruction set and the words of the program. -/
def loadInput (s : Surroundings) (settings : Settings) (program : String) :
    Reported LoadError (InstructionSet × List Nat) :=
  (loadSet s settings.isa).bind fun isa =>
    ((loadText s program).bind parseListing).bind fun words => ⟨[],.ok (isa,words)⟩

def faultRecord (f : Fault) : Record := errorRecord s!"Micro86 ERROR: {f.message}"

/-- Why there is no machine to run. -/
inductive Obstacle
  | fault (f : Fault)
  | abort (a : Abort)
  deriving DecidableEq, Repr

def Obstacle.ofBoot : BootError → Obstacle
  | .fault f => .fault f
  | .size e => .abort (.memory e)

/-- The machine for the words of a program. Whether there is a program shows before the size
of the memory matters. -/
def bootMachine (capacity : Nat) (isa : InstructionSet) (words : List Nat) (settings : Settings)
    (input : List Char) : Except Obstacle Machine :=
  let bootWith (size : Int) :=
    (Machine.boot capacity isa (words.map Int.ofNat) size settings.resize input).mapError .ofBoot
  match settings.memory with
  | .given size => bootWith size
  | .omitted => if words.isEmpty then bootWith 0 else .error (.abort (.omitted .memory))

/-- The greatest number of steps that is asked for. -/
def stepLimit (settings : Settings) : Except Obstacle (Option Int) :=
  match settings.maxSteps with
  | none => .ok none
  | some (.given n) => .ok (some n)
  | some .omitted => .error (.abort (.omitted .maxSteps))

/-- The command behind its arguments, up to the run. There are `capacity` cells to be had for
the memory of the machine. -/
def prepare (s : Surroundings) (capacity : Nat) (input : List Char) (settings : Settings)
    (program : String) : Start :=
  let level := Verbosity.level settings.verbosity
  let loaded := loadInput s settings program
  match loaded.result with
  | .error (.abort a) => .abort a
  | .error e =>
    .reply { exit := 2, stderr := Record.render level (loaded.records ++ [errorRecord e.message]) }
  | .ok (isa,words) =>
    let ready := do
      let machine ← bootMachine capacity isa words settings input
      return (machine,← stepLimit settings)
    match ready with
    | .error (.abort a) => .abort a
    | .error (.fault f) =>
      .reply { exit := 3, stderr := Record.render level (loaded.records ++ [faultRecord f]) }
    | .ok (machine,limit) =>
      let shown := bootBanner program ++ if settings.trace then traceHeader else ""
      .run ⟨settings,limit,loaded.records,machine,shown⟩

/-- The reply behind the run, with what the terminal has shown so far. -/
def Session.conclude (session : Session) (o : Outcome) (m : Machine) (shown : String) : Reply :=
  let level := Verbosity.level session.settings.verbosity
  match o.fault with
  | some f =>
    { exit := 3
      stdout := shown
      stderr := Record.render level (session.records ++ [faultRecord f]) ++ m.postmortem }
  | none =>
    let listing := if session.settings.dump then m.disassembly?.getD "" else ""
    { exit := 0
      stdout := shown ++ listing ++ m.postmortem ++ haltedBanner
      stderr := Record.render level session.records }

def start (s : Surroundings) (capacity : Nat) (input : List Char) (args : List String) : Start :=
  match grammar.parse args with
  | .error stop => .reply (stop.reply "m86run" usage help)
  | .ok (settings,program) => prepare s capacity input settings program

end Micro86.Command.Execute
