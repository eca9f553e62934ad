import Micro86.Files

/-!
A tree of files around a working directory. Directories are there for what is in them. Names
and paths have a greatest length, counted in bytes of UTF-8.
-/
namespace Micro86

/-- What stands at places, each given by its parts from the root. -/
abbrev Nodes := List (List String × Contents)

namespace Nodes

def status (nodes : Nodes) (parts : List String) : Contents :=
  match nodes.lookup parts with
  | some c => c
  | none =>
    if parts = [] ∨ nodes.any (fun n => parts.isPrefixOf n.1) then .directory else .absent

/-- Puts a file at a place. -/
def put (nodes : Nodes) (parts : List String) (bytes : List UInt8) : Nodes :=
  (parts,.file bytes) :: nodes.filter fun n => n.1 ≠ parts

variable {nodes : Nodes} {parts other : List String}

theorem status_of_lookup {c : Contents} (h : nodes.lookup parts = some c) :
    nodes.status parts = c := by
  rw [status,h]

theorem status_eq_directory_iff (h : nodes.lookup parts = none) :
    nodes.status parts = .directory ↔ parts = [] ∨ ∃ n ∈ nodes, parts <+: n.1 := by
  have hnodes : (nodes.any fun n => parts.isPrefixOf n.1) = true ↔
      ∃ n ∈ nodes, parts <+: n.1 := by simp
  rw [status,h,← hnodes]
  dsimp only
  split
  · next hdirectory => exact ⟨fun _ => hdirectory,fun _ => rfl⟩
  · next hneither =>
    constructor
    · intro h
      cases h
    · intro hdirectory
      exact absurd hdirectory hneither

theorem lookup_cons_of_ne (h : other ≠ parts) (c : Contents) :
    ((parts,c) :: nodes).lookup other = nodes.lookup other := by
  rw [List.lookup_cons,beq_false_of_ne h]

theorem lookup_filter_ne (nodes : Nodes) (h : other ≠ parts) :
    (nodes.filter fun n => n.1 ≠ parts).lookup other = nodes.lookup other := by
  induction nodes with
  | nil => rfl
  | cons n nodes ih =>
    obtain ⟨place,c⟩ := n
    by_cases hplace : place = parts
    · rw [List.filter_cons_of_neg (by simp [hplace]),ih,hplace,lookup_cons_of_ne h]
    · rw [List.filter_cons_of_pos (by simp [hplace]),List.lookup_cons,List.lookup_cons,ih]

theorem lookup_put (h : other ≠ parts) (bytes : List UInt8) :
    (nodes.put parts bytes).lookup other = nodes.lookup other := by
  rw [put,lookup_cons_of_ne h,lookup_filter_ne nodes h]

/-- A directory stays one when a file is put at another place. -/
theorem status_put_of_directory (h : nodes.status other = .directory) (hne : other ≠ parts)
    (bytes : List UInt8) : (nodes.put parts bytes).status other = .directory := by
  cases hlookup : nodes.lookup other with
  | some c =>
    rw [status_of_lookup ((lookup_put hne bytes).trans hlookup),← status_of_lookup hlookup,h]
  | none =>
    rw [status_eq_directory_iff ((lookup_put hne bytes).trans hlookup)]
    obtain hroot | ⟨n,hn,habove⟩ := (status_eq_directory_iff hlookup).mp h
    · exact .inl hroot
    · by_cases hplace : n.1 = parts
      · exact .inr ⟨_,List.mem_cons_self,hplace ▸ habove⟩
      · have hmem : n ∈ nodes.filter fun n => n.1 ≠ parts := by simp [hn,hplace]
        exact .inr ⟨n,List.mem_cons_of_mem _ hmem,habove⟩

end Nodes

structure FileTree where
  /-- Where relative paths start. -/
  work : List String
  nodes : Nodes
  work_status : nodes.status work = .directory

namespace FileTree

def maxName : Nat := 255

def maxPath : Nat := 4095

/-- The directories that every system has. -/
def standardDirectories : List String := [
  "bin", "boot", "dev", "etc", "home", "lib", "media", "mnt", "opt", "proc", "root", "run",
  "sbin", "srv", "sys", "tmp", "usr", "var"]

/-- A working directory with nothing but the given files, in a system with its devices. -/
def ofFiles (files : Nodes) : FileTree where
  work := ["tmp", "work"]
  nodes := (["tmp", "work"],.directory) :: files.map (fun f => (["tmp", "work"] ++ f.1,f.2)) ++
    [(["dev", "null"],.device .null), (["dev", "full"],.device .full)] ++
    standardDirectories.map fun name => ([name],.directory)
  work_status := Nodes.status_of_lookup (by simp)

def status (t : FileTree) (parts : List String) : Contents := t.nodes.status parts

/-- One part further. Only a directory has parts, and the root is its own parent. -/
def descend (t : FileTree) (parts : List String) (part : String) :
    Except WriteFault (List String) :=
  match t.status parts with
  | .absent => .error .missing
  | .file _ | .device _ => .error .notDirectory
  | .directory =>
    if part = ".." then .ok parts.dropLast
    else if maxName < part.utf8ByteSize then .error .tooLong
    else .ok (parts ++ [part])

def walk (t : FileTree) (path : Path) : Except WriteFault (List String) :=
  if maxPath < path.render.utf8ByteSize then .error .tooLong
  else path.parts.foldlM t.descend (if path.root = "" then t.work else [])

def look (t : FileTree) (path : Path) : Except PathError Contents :=
  if path.hasNul then .ok .absent
  else
    match t.walk path with
    | .error .tooLong => .error (.tooLong path)
    | .error _ => .ok .absent
    | .ok parts => .ok (t.status parts)

/-- Puts a file at a place that is no directory. -/
def put (t : FileTree) (parts : List String) (h : t.status parts ≠ .directory)
    (bytes : List UInt8) : FileTree where
  work := t.work
  nodes := t.nodes.put parts bytes
  work_status := by
    refine Nodes.status_put_of_directory t.work_status ?_ bytes
    rintro rfl
    exact h t.work_status

/-- Writes a file, in a directory that is there. -/
def write (t : FileTree) (path : Path) (bytes : List UInt8) : Except WriteFault FileTree := do
  let parts ← t.walk path
  match h : t.status parts with
  | .directory => .error .isDirectory
  | .device .null => return t
  | .device .full => if bytes.isEmpty then return t else .error .noSpace
  | .file _ | .absent => return t.put parts (by simp [h]) bytes

/-- The files below the working directory, by their parts from there. -/
def workFiles (t : FileTree) : List (List String × List UInt8) :=
  t.nodes.filterMap fun n =>
    match n.2 with
    | .file bytes =>
      if t.work.isPrefixOf n.1 then some (n.1.drop t.work.length,bytes) else none
    | _ => none

end FileTree
end Micro86
