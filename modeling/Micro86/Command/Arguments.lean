import Micro86.Text.Quoted

/-!
Arguments of a command: switches and one operand, in any order. A switch has names and may
take a value; long names may be cut short, short flags put together, and values attached. A
double dash ends the switches; attached to a switch, it leaves the value out.
-/
namespace Micro86.Command

/-- The value of a switch. -/
inductive Value (α : Type)
  | omitted
  | given (a : α)
  deriving DecidableEq, Repr

namespace Value

def ofAttached (text : List Char) : Value String :=
  if text = ['-', '-'] then .omitted else .given (String.ofList text)

/-- Reads a value, if there is one. -/
def read {α β : Type} (f : α → Except String β) : Value α → Except String (Value β)
  | omitted => .ok omitted
  | given a => (f a).map given

end Value

/-- What a switch does to the settings, or why it cannot. -/
inductive Action (σ : Type)
  | help
  | flag (set : σ → Except String σ)
  | value (set : Value String → σ → Except String σ)

structure Switch (σ : Type) where
  names : List String
  action : Action σ

structure Grammar (σ : Type) where
  switches : List (Switch σ)
  operand : String
  settings : σ

/-- Why a command is not carried out: help is wanted, or the arguments are wrong. -/
inductive Stop
  | help
  | usage (message : String)
  deriving DecidableEq, Repr

variable {σ : Type}

namespace Switch

def takesValue (s : Switch σ) : Bool :=
  match s.action with
  | .value _ => true
  | _ => false

/-- An error about a switch, which is named by all its names. -/
def error {α : Type} (s : Switch σ) (message : String) : Except Stop α :=
  let title := "/".intercalate s.names
  .error (.usage s!"argument {title}: {message}")

/-- A flag refuses what is attached to it. -/
def refuse {α : Type} (s : Switch σ) (attached : List Char) : Except Stop α :=
  s.error s!"ignored explicit argument {Text.quote (String.ofList attached)}"

end Switch

/-- What an argument is. -/
inductive Argument (σ : Type)
  | operand (text : String)
  | separator
  | switch (s : Switch σ) (isShort : Bool) (attached : Option (List Char))
  | unknown (text : String)

/-- A name is short if its second character is no dash. -/
def isShortName (name : List Char) : Bool := name[1]? != some '-'

namespace Grammar

/-- All names, each with its switch. -/
def names (g : Grammar σ) : List (List Char × Switch σ) :=
  g.switches.flatMap fun s => s.names.map fun n => (n.toList,s)

def find? (g : Grammar σ) (name : List Char) : Option (Switch σ) :=
  (g.names.find? fun n => n.1 = name).map Prod.snd

end Grammar

/-- Splits a text at its first equals sign. -/
def splitEquals (text : List Char) : List Char × Option (List Char) :=
  match text.dropWhile (· ≠ '=') with
  | [] => (text,none)
  | _ :: rest => (text.takeWhile (· ≠ '='),some rest)

/-- The names that an argument may be short for, with what is attached to them. -/
def Grammar.candidates (g : Grammar σ) (text : List Char) :
    List (List Char × Switch σ × Option (List Char)) :=
  if isShortName text then
    g.names.filterMap fun (name,s) =>
      if name = text.take 2 then some (name,s,some (text.drop 2))
      else if text.isPrefixOf name then some (name,s,none)
      else none
  else
    let (stem,attached) := splitEquals text
    g.names.filterMap fun (name,s) => if stem.isPrefixOf name then some (name,s,attached) else none

def isDigit (c : Char) : Bool := (Text.decimalDigit? c).isSome

/-- A dash and a decimal number, which is no switch. -/
def isNegativeNumber (text : List Char) : Bool :=
  match Text.dropFinalBreak text with
  | '-' :: rest =>
    match rest.dropWhile isDigit with
    | [] => !rest.isEmpty
    | '.' :: places => !places.isEmpty && places.all isDigit
    | _ => false
  | _ => false

def Grammar.classify (g : Grammar σ) (arg : String) : Except Stop (Argument σ) :=
  let text := arg.toList
  let (stem,attached) := splitEquals text
  if text.head? ≠ some '-' then .ok (.operand arg)
  else
    match g.find? text with
    | some s => .ok (.switch s (isShortName text) none)
    | none =>
      if text = ['-'] then .ok (.operand arg)
      else
        match g.find? stem with
        | some s => .ok (.switch s (isShortName stem) attached)
        | none =>
          match g.candidates text with
          | [(name,s,rest)] => .ok (.switch s (isShortName name) rest)
          | [] =>
            if isNegativeNumber text || text.contains ' ' then .ok (.operand arg)
            else .ok (.unknown arg)
          | several =>
            let all := ", ".intercalate (several.map fun c => String.ofList c.1)
            .error (.usage s!"ambiguous option: {arg} could match {all}")

/-- Behind a double dash everything is an operand. -/
def Grammar.classifyAll (g : Grammar σ) : List String → Except Stop (List (Argument σ))
  | [] => .ok []
  | arg :: rest =>
    if arg = "--" then .ok (.separator :: rest.map .operand)
    else do return (← g.classify arg) :: (← g.classifyAll rest)

/-- Switches that were given together, and perhaps a last one that waits for its value. -/
structure Bundle (σ : Type) where
  given : List (Switch σ × Value String) := []
  waiting : Option (Switch σ) := none

def Bundle.one (s : Switch σ) : Bundle σ :=
  if s.takesValue then { waiting := some s } else { given := [(s,.omitted)] }

def Bundle.after (s : Switch σ) (b : Bundle σ) : Bundle σ :=
  { b with given := (s,.omitted) :: b.given }

/-- Reads what is attached to a switch: its value, or further short flags. -/
def Grammar.unpack (g : Grammar σ) (s : Switch σ) (isShort : Bool) :
    List Char → Except Stop (Bundle σ)
  | [] =>
    if s.takesValue then .ok { given := [(s,.given "")] }
    else s.refuse []
  | c :: rest =>
    if s.takesValue then .ok { given := [(s,.ofAttached (c :: rest))] }
    else if !isShort then s.refuse (c :: rest)
    else
      match g.find? ['-', c],rest with
      | none,_ => s.refuse (c :: rest)
      | some next,[] => .ok ((Bundle.one next).after s)
      | some next,_ :: _ => (g.unpack next true rest).map (·.after s)

/-- Lets switches act on the settings, one after the other. -/
def perform (settings : σ) : List (Switch σ × Value String) → Except Stop σ
  | [] => .ok settings
  | (s,v) :: rest => do
    let next ←
      match s.action with
      | .help => .error .help
      | .flag set =>
        match set settings with
        | .ok t => .ok t
        | .error message => s.error message
      | .value set =>
        match set v settings with
        | .ok t => .ok t
        | .error message => s.error message
    perform next rest

/-- How far the arguments have been taken. -/
structure Progress (σ : Type) where
  settings : σ
  operand : Option String := none
  /-- The argument just taken was the operand. -/
  filled : Bool := false
  extras : List String := []

def Progress.leave (p : Progress σ) (arg : String) : Progress σ :=
  { p with extras := p.extras ++ [arg], filled := false }

/-- Takes the arguments in order. The first operand is taken, with the separator beside it;
further ones are left over. -/
def Grammar.consume (g : Grammar σ) (p : Progress σ) : List (Argument σ) → Except Stop (Progress σ)
  | [] => .ok p
  | .operand text :: rest =>
    match p.operand with
    | none => g.consume { p with operand := some text, filled := true } rest
    | some _ => g.consume (p.leave text) rest
  | .separator :: rest =>
    if p.filled || (p.operand.isNone && !rest.isEmpty) then
      g.consume { p with filled := false } rest
    else g.consume (p.leave "--") rest
  | .unknown text :: rest => g.consume (p.leave text) rest
  | .switch s isShort attached :: rest => do
    let bundle ←
      match attached with
      | none => .ok (Bundle.one s)
      | some text => g.unpack s isShort text
    match bundle.waiting with
    | none => do
      let settings ← perform p.settings bundle.given
      g.consume { p with settings := settings, filled := false } rest
    | some last =>
      match rest with
      | .operand text :: behind => do
        let settings ← perform p.settings (bundle.given ++ [(last,.given text)])
        g.consume { p with settings := settings, filled := false } behind
      | _ => last.error "expected one argument"

/-- The settings and the operand of a command. -/
def Grammar.parse (g : Grammar σ) (args : List String) : Except Stop (σ × String) := do
  let p ← g.consume { settings := g.settings } (← g.classifyAll args)
  match p.operand with
  | none => .error (.usage s!"the following arguments are required: {g.operand}")
  | some operand =>
    if p.extras.isEmpty then return (p.settings,operand)
    else .error (.usage ("unrecognized arguments: " ++ " ".intercalate p.extras))

end Micro86.Command
