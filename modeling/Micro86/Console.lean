import Micro86.Command.Execute

/-! Runs without a limit, which need not come to an end. -/
namespace Micro86.Machine

/-- Runs until a step is final. -/
partial def runToEnd {α : Type} (note : α → Outcome → α) (m : Machine) (a : α) :
    Outcome × Machine × α :=
  match m.runFor note 0x1000 a with
  | (some o,last) => (o,last)
  | (none,next,b) => runToEnd note next b

/-- A run with or without a limit. -/
def runWithin {α : Type} (note : α → Outcome → α) (limit : Option Int) (m : Machine) (a : α) :
    Except Text.Unwritable Outcome × Machine × α :=
  match limit with
  | some n => m.run note n a
  | none =>
    match m.runToEnd note a with
    | (o,last) => (.ok o,last)

end Micro86.Machine

namespace Micro86.Command.Execute

def Session.complete (s : Session) : Except Abort Reply := do
  let (o,m,shown) :=
    s.machine.runWithin (Machine.console s.settings.trace) s.limit s.shown
  return s.conclude (← o.mapError .number) m shown

end Micro86.Command.Execute
