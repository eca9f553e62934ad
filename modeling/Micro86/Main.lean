import Micro86.Command.Assemble
import Micro86.Command.Execute
import Std.Time

/-! The two commands on a real terminal with real files. -/
namespace Micro86.Command

/-- Whether an error code, of either sign, is that of a name that is too long. -/
def isTooLong (code : UInt32) : Bool := code = 36 || code+36 = 0

/-- What stands at a path on disk. -/
def probe (path : Path) : IO (Except PathError Contents) := do
  try
    return .ok (.file (← IO.FS.readBinFile path.render).toList)
  catch
    | .inappropriateType _ code _ => return .ok (if code = 21 then .directory else .absent)
    | .invalidArgument _ code _ =>
      return if isTooLong code then .error (.tooLong path) else .ok .absent
    | _ => return .ok .absent

/-- Tries to write a file. -/
def save (path : Path) (text : String) : IO (Option WriteFault) := do
  try
    IO.FS.withFile path.render .write fun h => do
      h.putStr text
      h.flush
    return none
  catch
    | .inappropriateType _ code _ => return some (if code = 21 then .isDirectory else .notDirectory)
    | .invalidArgument _ code _ => return some (if isTooLong code then .tooLong else .missing)
    | .resourceExhausted _ _ _ => return some .noSpace
    | _ => return some .missing

def currentMoment : IO Moment := do
  let now ← Std.Time.PlainDateTime.now
  return ⟨now.year.toInt,now.month.val,now.day.val,now.hour.val,now.minute.val,now.second.val⟩

/-- The home directories of all accounts, and the user's own. -/
def homeDirectories : IO (String → Option String) := do
  let own ← IO.getEnv "HOME"
  let accounts ← try IO.FS.lines "/etc/passwd" catch _ => pure #[]
  let known := accounts.toList.filterMap fun line =>
    match line.splitOn ":" with
    | name :: _ :: _ :: _ :: _ :: home :: _ => some (name,home)
    | _ => none
  return fun name => if name = "" then own else known.lookup name

/-- The surroundings of a command that may read the given files. A path that has no home is
not one of them. -/
def surroundings (homes : String → Option String) (paths : List (Except PathError Path)) :
    IO Surroundings := do
  let started ← IO.monoMsNow
  let known ← (paths.filterMap Except.toOption).mapM fun p => do return (p,← probe p)
  let elapsed ← IO.ofExcept
    ((Text.writable ((← IO.monoMsNow) - started)).mapError Text.Unwritable.message)
  return ⟨fun p => (known.lookup p).getD (.ok .absent),homes,← currentMoment,elapsed⟩

/-- The file of an instruction set, if one is given. -/
def setPaths (homes : String → Option String) :
    Option (Value String) → List (Except PathError Path)
  | some (.given path) => [(Path.parse path).expandHome homes]
  | _ => []

/-- Says why a command breaks off. -/
def Abort.emit (program : String) (a : Abort) : IO UInt32 := do
  (← IO.getStderr).putStrLn s!"{program}: {a.message}"
  return 1

def Reply.emit (r : Reply) : IO UInt32 := do
  (← IO.getStdout).putStr r.stdout
  (← IO.getStderr).putStr r.stderr
  return r.exit.toUInt32

def assemble (args : List String) : IO UInt32 := do
  let homes ← homeDirectories
  let paths :=
    match Assemble.parseArguments args with
    | .error _ => []
    | .ok (settings,source) => .ok (Path.parse source) :: setPaths homes settings.isa
  match Assemble.run (← surroundings homes paths) args with
  | .reply r => r.emit
  | .write path text done => (done (← save path text)).emit
  | .abort i =>
    (← IO.getStdout).putStr i.shown
    i.reason.emit "m86asm"

/-- Runs a machine step by step and shows what it does. A step that lacks input is taken
again when a further line has been read. -/
partial def converse (tracing : Bool) (limit : Option Int) (m : Machine) :
    IO (Except Text.Unwritable Outcome × Machine) := do
  if let some n := limit then
    if n ≤ m.steps then return (m.limitReached n,m)
  let (o,next) := m.step
  if o.fault.any fun f => f.cause = .noInput then
    let line ← (← IO.getStdin).getLine
    if !line.isEmpty then
      return ← converse tracing limit { m with input := line.toList }
  (← IO.getStdout).putStr (Machine.console tracing "" o)
  if o.isFinal then return (.ok o,next) else converse tracing limit next

/-- How many memory cells a machine may have on this host. -/
def hostCapacity : Nat := 0x100000000

def execute (args : List String) : IO UInt32 := do
  let homes ← homeDirectories
  let paths :=
    match Execute.grammar.parse args with
    | .error _ => []
    | .ok (settings,program) =>
      (Path.parse program).expandHome homes :: setPaths homes settings.isa
  match Execute.start (← surroundings homes paths) hostCapacity [] args with
  | .reply r => r.emit
  | .abort a => a.emit "m86run"
  | .run session =>
    (← IO.getStdout).putStr session.shown
    match ← converse session.settings.trace session.limit session.machine with
    | (.ok o,m) => (session.conclude o m "").emit
    | (.error e,_) => (Abort.number e).emit "m86run"

end Micro86.Command

/-- The first argument names the command. -/
def main (args : List String) : IO UInt32 :=
  match args with
  | "m86asm" :: rest => Micro86.Command.assemble rest
  | "m86run" :: rest => Micro86.Command.execute rest
  | _ => do
    (← IO.getStderr).putStrLn "usage: micro86 (m86asm | m86run) ..."
    return 1
