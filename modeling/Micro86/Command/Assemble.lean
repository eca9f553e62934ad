import Micro86.Command.Reply
import Micro86.GotoProgram.Compile
import Micro86.Image

/-!
The assembler as a command: reads a source, and writes its machine words, its C++ text or
both. Nothing is written unless everything could be made.
-/
namespace Micro86.Command.Assemble

structure Settings where
  words : Bool := false
  code : Bool := false
  out : Value String := .omitted
  banner : Bool := false
  isa : Option (Value String) := none
  radix : Value Word.Radix := .given .hex
  verbosity : Option Verbosity := none
  deriving DecidableEq, Repr

def readRadix (text : String) : Except String Word.Radix :=
  match Word.Radix.ofName text with
  | .ok radix => .ok radix
  | .error _ =>
    let choices := ", ".intercalate ([Word.Radix.hex, .bin].map fun r => Text.quote r.name)
    .error s!"invalid choice: {Text.quote text} (choose from {choices})"

def switches : List (Switch Settings) := [
  ⟨["-h", "--help"],.help⟩,
  ⟨["--m86"],.flag fun s => .ok { s with words := true }⟩,
  ⟨["--cpp"],.flag fun s => .ok { s with code := true }⟩,
  ⟨["-o", "--out"],.value fun v s => .ok { s with out := v }⟩,
  ⟨["--data"],.flag fun s => .ok { s with banner := true }⟩,
  ⟨["--isa"],.value fun v s => .ok { s with isa := some v }⟩,
  ⟨["--radix"],.value fun v s => do return { s with radix := ← v.read readRadix }⟩,
  ⟨["-v", "--verbose"],.flag fun s => do
    return { s with verbosity := ← Verbosity.verbose.set s.verbosity }⟩,
  ⟨["-q", "--quiet"],.flag fun s => do
    return { s with verbosity := ← Verbosity.quiet.set s.verbosity }⟩]

def grammar : Grammar Settings := ⟨switches,"source",{}⟩

def usage : String := Text.unlines [
  "usage: m86asm [-h] [--m86] [--cpp] [-o OUT] [--data] [--isa ISA]",
  "              [--radix \x7bhex,bin\x7d] [-v | -q]",
  "              source"]

def help : String := Text.unlines [
  "",
  "Micro86 assembler and C++ translator",
  "",
  "positional arguments:",
  "  source             input assembly file",
  "",
  "options:",
  "  -h, --help         show this help message and exit",
  "  --m86              emit Micro86 machine words",
  "  --cpp              emit an equivalent C++ program",
  "  -o OUT, --out OUT  output file (default: stdout)",
  "  --data             wrap output in a metadata banner",
  "  --isa ISA          instruction set descriptor file",
  "  --radix \x7bhex,bin\x7d  machine word format",
  "  -v, --verbose      log debug details",
  "  -q, --quiet        log errors only"]

/-- The arguments of the command, of which at least one output must be asked for. -/
def parseArguments (args : List String) : Except Stop (Settings × String) := do
  let (settings,source) ← grammar.parse args
  if settings.words || settings.code then return (settings,source)
  else .error (.usage "one of --m86 or --cpp is required")

/-- Why a source has no output. -/
inductive Failure
  | parse (e : ParseError)
  | image (e : ImageError)
  | goto (e : GotoError)
  | noRadix
  deriving DecidableEq, Repr

namespace Failure

/-- Why the command breaks off, unless the source is at fault. -/
def abort? : Failure → Option Abort
  | parse (.digits e) => some (.digits e)
  | image (.resolve (.digits e)) => some (.digits e)
  | goto (.digits e) => some (.digits e)
  | goto (.resolve (.digits e)) => some (.digits e)
  | noRadix => some (.omitted .radix)
  | _ => none

def message : Failure → String
  | parse e => e.message
  | image e => e.message
  | goto e => e.message
  | noRadix => (Abort.omitted .radix).message

end Failure

section
variable (s : Surroundings) (isa : InstructionSet) (tokens : List Token) (banner : Bool)

/-- The figures of a banner. The length of a list always has few enough digits. -/
def figures (p : Program) : Banner.Figures where
  count := Text.decimal p.instructions.length
  vars := Text.decimal p.vars.length
  elapsed := s.elapsed.text
  date := s.now.render

def wrapped (kind : BannerKind) (p : Program) (body : String) : String :=
  if banner then Banner.frame kind (figures s p) body else body

/-- The words of an image. Only an image with no words can do without a radix. -/
def renderImage (image : Image) : Value Word.Radix → Except Failure String
  | .given radix => .ok (image.render radix)
  | .omitted => if image.words.isEmpty then .ok "" else .error .noRadix

/-- The machine words of a source. -/
def renderWords (radix : Value Word.Radix) : Except Failure String := do
  let p ← (Program.parse isa tokens).mapError .parse
  let image ← (Image.ofProgram isa p).mapError .image
  return wrapped s banner .words p (← renderImage image radix)

/-- The C++ text of a source. -/
def renderCode : Except Failure String := do
  let p ← (Program.parse isa tokens).mapError .parse
  let code ← (GotoProgram.ofProgram isa p).mapError .goto
  return wrapped s banner .code p code.render

/-- What is reported while the machine words are made. -/
def wordRecords : List Record :=
  Program.parseRecords isa tokens ++
  match Program.parse isa tokens with
  | .error _ => []
  | .ok p => Image.records isa p

/-- What is reported while the C++ text is made. -/
def codeRecords : List Record :=
  Program.parseRecords isa tokens ++
  match (Program.parse isa tokens).mapError Failure.parse >>= fun p =>
    (GotoProgram.ofProgram isa p).mapError .goto with
  | .error _ => []
  | .ok code => code.records

def reportWords (radix : Value Word.Radix) : Reported Failure String :=
  ⟨wordRecords isa tokens,renderWords s isa tokens banner radix⟩

def reportCode : Reported Failure String :=
  ⟨codeRecords isa tokens,renderCode s isa tokens banner⟩

end

/-- All output that is asked for, words first. -/
def output (s : Surroundings) (settings : Settings) (isa : InstructionSet) (tokens : List Token) :
    Reported Failure String :=
  let words := if settings.words then reportWords s isa tokens settings.banner settings.radix
    else ⟨[],.ok ""⟩
  words.bind fun first =>
    let code := if settings.code then reportCode s isa tokens settings.banner else ⟨[],.ok ""⟩
    code.bind fun second => ⟨[],.ok (first ++ second)⟩

/-- A run that breaks off, with what it has shown until then. -/
structure Interruption where
  reason : Abort
  shown : String := ""
  deriving DecidableEq, Repr

/-- What is left to do when all is read: nothing, or to write a file and reply after that. -/
inductive Conclusion
  | reply (r : Reply)
  | write (path : Path) (text : String) (done : Option WriteFault → Reply)
  | abort (i : Interruption)

/-- The reply after writing a file, or failing to. -/
def written (settings : Settings) (out : String) (level : Level) (records : List Record) :
    Option WriteFault → Reply
  | some fault =>
    let message := s!"Failed to write {out}: {fault.message (Path.parse out)}"
    { exit := 2, stderr := Record.render level (records ++ [errorRecord message]) }
  | none =>
    let notes : List Record :=
      (if settings.words then
        [⟨.info,.command,s!"Micro86 instructions written to: {out}"⟩] else []) ++
      (if settings.code then [⟨.info,.command,s!"C++ code written to: {out}"⟩] else [])
    { exit := 0, stderr := Record.render level (records ++ notes) }

/-- Puts the output where it is wanted. -/
def deliver (settings : Settings) (level : Level) (records : List Record) (text : String) :
    Conclusion :=
  match settings.out with
  | .omitted | .given "" =>
    .reply { exit := 0, stdout := text, stderr := Record.render level records }
  | .given out =>
    if (Path.parse out).hasNul then .abort { reason := .path .nul }
    else .write (Path.parse out) text (written settings out level records)

/-- The instruction set and the source text. -/
def loadInput (s : Surroundings) (settings : Settings) (source : String) :
    Reported LoadError (InstructionSet × List Char) :=
  (loadSet s settings.isa).bind fun isa =>
    ⟨[],((readText s.files (Path.parse source)).mapError .ofRead).map fun text => (isa,text)⟩

/-- The command behind its arguments. -/
def carryOut (s : Surroundings) (settings : Settings) (source : String) : Conclusion :=
  let level := Verbosity.level settings.verbosity
  let input := loadInput s settings source
  match input.result with
  | .error (.abort a) => .abort { reason := a }
  | .error e =>
    .reply { exit := 2, stderr := Record.render level (input.records ++ [errorRecord e.message]) }
  | .ok (isa,text) =>
    match Source.tokens Source.comment text with
    | [] =>
      let note : Record := ⟨.info,.command,s!"Nothing to translate in {source}"⟩
      .reply { exit := 0, stderr := Record.render level (input.records ++ [note]) }
    | tokens =>
      let made := output s settings isa tokens
      let records := input.records ++ made.records
      match made.result with
      | .ok output => deliver settings level records output
      | .error e =>
        match e.abort? with
        | some a => .abort { reason := a }
        | none =>
          let note := errorRecord s!"Invalid syntax in {source}: {e.message}"
          .reply { exit := 3, stderr := Record.render level (records ++ [note]) }

def run (s : Surroundings) (args : List String) : Conclusion :=
  match parseArguments args with
  | .error stop => .reply (stop.reply "m86asm" usage help)
  | .ok (settings,source) => carryOut s settings source

end Micro86.Command.Assemble
