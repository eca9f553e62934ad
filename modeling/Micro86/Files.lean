import Micro86.Text.Quoted
import Micro86.Text.Utf8

/-!
Files by their paths. A path is a root and its parts; empty parts and single dots fall away,
double dots stay. A path that starts with a tilde starts at a home directory.
-/
namespace Micro86

structure Path where
  /-- Empty for a relative path, else one or two slashes. -/
  root : String := ""
  parts : List String := []
  deriving DecidableEq, Repr

/-- Why a path cannot be followed. -/
inductive PathError
  | unknownHome
  | nul
  | tooLong (path : Path)
  deriving DecidableEq, Repr

namespace Path

def rootOf : List Char → String
  | '/' :: '/' :: '/' :: _ => "/"
  | '/' :: '/' :: _ => "//"
  | '/' :: _ => "/"
  | _ => ""

def parse (text : String) : Path where
  root := rootOf text.toList
  parts := ((text.toList.splitOnP (· = '/')).map String.ofList).filter fun p => p ≠ "" && p ≠ "."

def render (p : Path) : String :=
  if p.root = "" ∧ p.parts = [] then "." else p.root ++ "/".intercalate p.parts

/-- A NUL ends the name of a file, so none can be in a path. -/
def hasNul (p : Path) : Bool := p.parts.any fun part => part.toList.contains '\x00'

/-- Puts a home directory in place of a tilde at the start. The name of an account may follow
the tilde. -/
def expandHome (homes : String → Option String) (p : Path) : Except PathError Path :=
  match p.root,p.parts with
  | "",first :: rest =>
    match first.toList with
    | '~' :: name =>
      if name.contains '\x00' then .error .nul
      else
        match homes (String.ofList name) with
        | none => .error .unknownHome
        | some home => .ok { parse home with parts := (parse home).parts ++ rest }
    | _ => .ok p
  | _,_ => .ok p

end Path

/-- A device that gives nothing out. It drops what is written to it, or has no space for it. -/
inductive Device
  | null
  | full
  deriving DecidableEq, Repr

/-- What stands at a path. -/
inductive Contents
  | absent
  | directory
  | file (bytes : List UInt8)
  | device (d : Device)
  deriving DecidableEq, Repr

inductive ReadFault
  | notFound
  | isDirectory
  | encoding (fault : Text.Utf8.Fault)
  deriving DecidableEq, Repr

/-- A file that cannot be read as text. -/
structure Unreadable where
  path : Path
  fault : ReadFault
  deriving DecidableEq, Repr

def Unreadable.message (e : Unreadable) : String :=
  let path := e.path.render
  match e.fault with
  | .notFound => s!"File not found: {path}"
  | .isDirectory => s!"Failed to read {path}: [Errno 21] Is a directory: {Text.quote path}"
  | .encoding fault => s!"Failed to read {path}: {fault.message}"

inductive WriteFault
  | missing
  | notDirectory
  | isDirectory
  | tooLong
  | noSpace
  deriving DecidableEq, Repr

/-- Why a file cannot be written. -/
def WriteFault.message (path : Path) : WriteFault → String
  | missing => s!"[Errno 2] No such file or directory: {Text.quote path.render}"
  | notDirectory => s!"[Errno 20] Not a directory: {Text.quote path.render}"
  | isDirectory => s!"[Errno 21] Is a directory: {Text.quote path.render}"
  | tooLong => s!"[Errno 36] File name too long: {Text.quote path.render}"
  | noSpace => "[Errno 28] No space left on device"

def PathError.message : PathError → String
  | unknownHome => "Could not determine home directory."
  | nul => "embedded null byte"
  | tooLong path => WriteFault.tooLong.message path

/-- Why a text is not read: its path leads nowhere, or what stands there is no text. -/
inductive ReadError
  | path (e : PathError)
  | unreadable (e : Unreadable)
  deriving DecidableEq, Repr

/-- Reads what stands at a path as UTF-8, with every line break a line feed. -/
def readText (files : Path → Except PathError Contents) (path : Path) :
    Except ReadError (List Char) :=
  match files path with
  | .error e => .error (.path e)
  | .ok .absent => .error (.unreadable ⟨path,.notFound⟩)
  | .ok .directory => .error (.unreadable ⟨path,.isDirectory⟩)
  | .ok (.device _) => .ok []
  | .ok (.file bytes) =>
    match Text.Utf8.decode bytes with
    | .error fault => .error (.unreadable ⟨path,.encoding fault⟩)
    | .ok text => .ok (Text.unifyBreaks text)

end Micro86
