import Micro86.Machine.Step

/-!
Runs of the machine. A run takes steps until one is final or a number of them is used up;
what it shows on the way is gathered by the caller's own function.
-/
namespace Micro86.Machine

/-- At most `n` steps. There is no last outcome if they are used up before one is final. -/
def runFor {α : Type} (note : α → Outcome → α) : Nat → Machine → α → Option Outcome × Machine × α
  | 0,m,a => (none,m,a)
  | n+1,m,a =>
    match m.step with
    | (o,next) => if o.isFinal then (some o,next,note a o) else runFor note n next (note a o)

/-- The outcome of a run that stops at its limit, unless the limit cannot be written. -/
def limitReached (m : Machine) (limit : Int) : Except Text.Unwritable Outcome := do
  return { fault := some ⟨.stepLimit (← Text.writable limit),m.cpu.ip,0⟩ }

/-- Runs until `limit` steps have been taken since the last reset. There is no outcome if the
run stops at a limit that cannot be written. -/
def run {α : Type} (note : α → Outcome → α) (limit : Int) (m : Machine) (a : α) :
    Except Text.Unwritable Outcome × Machine × α :=
  match runFor note (limit - m.steps).toNat m a with
  | (some o,last) => (.ok o,last)
  | (none,last) => (last.1.limitReached limit,last)

/-- The output and the trace lines of a run, apart. -/
structure Transcript where
  output : String := ""
  trace : String := ""
  deriving DecidableEq, Repr

def Transcript.note (t : Transcript) (o : Outcome) : Transcript where
  output := t.output ++ o.outputText.getD ""
  trace := t.trace ++ ((o.trace.map (· ++ "\n")).getD "")

/-- What a terminal shows: the trace line of a step, if wanted, before its output. -/
def console (tracing : Bool) (shown : String) (o : Outcome) : String :=
  shown ++ (if tracing then (o.trace.map (· ++ "\n")).getD "" else "") ++ o.outputText.getD ""

end Micro86.Machine
