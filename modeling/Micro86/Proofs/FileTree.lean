import Micro86.FileTree
import Micro86.Proofs.Fallible

/-!
Writing to a tree of files. A place that a path leads to lies in a directory that is there, so a
file that is put at the place makes no directory; every other place stays as it is.
-/
namespace Micro86

namespace Nodes
variable {nodes : Nodes} {parts other : List String}

theorem status_eq_absent (h : nodes.lookup parts = none) (hne : nodes.status parts ≠ .directory) :
    nodes.status parts = .absent := by
  rw [status,h] at hne ⊢
  dsimp only at hne ⊢
  split
  · next hdirectory => exact absurd (if_pos hdirectory) hne
  · rfl

theorem exists_node_of_directory (h : nodes.status parts = .directory) :
    parts = [] ∨ ∃ n ∈ nodes, parts <+: n.1 := by
  cases hlookup : nodes.lookup parts with
  | none => exact (status_eq_directory_iff hlookup).mp h
  | some c =>
    obtain ⟨front,back,hnodes,-⟩ := List.lookup_eq_some_iff.mp hlookup
    exact .inr ⟨(parts,c),by simp [hnodes],List.prefix_rfl⟩

theorem status_above (h : nodes.status parts = .directory) (habove : other <+: parts)
    (hother : nodes.lookup other = none) : nodes.status other = .directory := by
  rw [status_eq_directory_iff hother]
  obtain rfl | ⟨n,hn,hparts⟩ := exists_node_of_directory h
  · exact .inl (List.prefix_nil.mp habove)
  · exact .inr ⟨n,hn,habove.trans hparts⟩

theorem status_put_self (nodes : Nodes) (parts : List String) (bytes : List UInt8) :
    (nodes.put parts bytes).status parts = .file bytes :=
  status_of_lookup (by simp [put])

/-- The directories above a place are there. -/
def Rooted (nodes : Nodes) (parts : List String) : Prop :=
  ∀ other, other <+: parts → other ≠ parts → nodes.lookup other = none →
    nodes.status other = .directory

/-- A file in a directory that is there changes no other place. -/
theorem status_put (hparts : nodes.Rooted parts) (h : other ≠ parts) (bytes : List UInt8) :
    (nodes.put parts bytes).status other = nodes.status other := by
  by_cases hstatus : nodes.status other = .directory
  · rw [hstatus,status_put_of_directory hstatus h]
  cases hlookup : nodes.lookup other with
  | some c => rw [status_of_lookup hlookup,status_of_lookup ((lookup_put h bytes).trans hlookup)]
  | none =>
    have hput := (lookup_put h bytes).trans hlookup
    have hne : (nodes.put parts bytes).status other ≠ .directory := by
      rw [ne_eq,status_eq_directory_iff hput]
      rintro (rfl | ⟨n,hn,habove⟩)
      · exact hstatus ((status_eq_directory_iff hlookup).mpr (.inl rfl))
      · obtain rfl | hn := List.mem_cons.mp hn
        · exact hstatus (hparts other habove h hlookup)
        · exact hstatus ((status_eq_directory_iff hlookup).mpr
            (.inr ⟨n,(List.mem_filter.mp hn).1,habove⟩))
    rw [status_eq_absent hlookup hstatus,status_eq_absent hput hne]

end Nodes

namespace FileTree

variable {t after : FileTree}

/-- What writing comes to. The place that the path leads to holds the bytes, or it is a device. -/
inductive Saved (t : FileTree) (path : Path) (bytes : List UInt8) : FileTree → Prop
  | file {parts : List String} {after : FileTree} (place : t.walk path = .ok parts)
    (work : after.work = t.work) (holds : after.status parts = .file bytes)
    (rest : ∀ other, other ≠ parts → after.status other = t.status other) : Saved t path bytes after
  | device {parts : List String} {d : Device} (place : t.walk path = .ok parts)
    (takes : t.status parts = .device d) : Saved t path bytes t

/-! ### Places -/

theorem rooted_of_directory {parts : List String} (h : t.status parts = .directory) :
    t.nodes.Rooted parts :=
  fun _ habove _ hother => Nodes.status_above h habove hother

theorem rooted_of_descend {parts next : List String} {part : String}
    (h : t.descend parts part = .ok next) : t.nodes.Rooted next := by
  unfold descend at h
  split at h
  · cases h
  · cases h
  · cases h
  · next hstatus =>
    split at h
    · cases h
      intro other habove _ hother
      exact Nodes.status_above hstatus (habove.trans ( List.dropLast_prefix parts)) hother
    · split at h
      · cases h
      · cases h
        intro other habove hne hother
        have hshort : other <+: parts := (List.prefix_concat_iff.mp habove).resolve_left hne
        exact Nodes.status_above hstatus hshort hother

theorem rooted_of_foldlM_descend {parts next : List String} {path : List String}
    (h : path.foldlM t.descend parts = .ok next) (hparts : t.nodes.Rooted parts) :
    t.nodes.Rooted next := by
  induction path generalizing parts with
  | nil =>
    cases h
    exact hparts
  | cons part path ih =>
    obtain ⟨mid,hmid,h⟩ := foldlM_cons_eq_ok.mp h
    exact ih h (rooted_of_descend hmid)

theorem rooted_of_walk {path : Path} {parts : List String} (h : t.walk path = .ok parts) :
    t.nodes.Rooted parts := by
  unfold walk at h
  split at h
  · cases h
  · refine rooted_of_foldlM_descend h ?_
    split
    · exact rooted_of_directory t.work_status
    · intro other habove hne
      exact absurd (List.prefix_nil.mp habove) hne

/-! ### Writing -/

theorem saved_put {path : Path} {parts : List String} (hwalk : t.walk path = .ok parts)
    (h : t.status parts ≠ .directory) (bytes : List UInt8) :
    t.Saved path bytes (t.put parts h bytes) :=
  .file hwalk rfl (t.nodes.status_put_self parts bytes)
    fun _ hother => Nodes.status_put (rooted_of_walk hwalk) hother bytes

theorem write_of_absent {path : Path} {parts : List String} (bytes : List UInt8)
    (hwalk : t.walk path = .ok parts) (habsent : t.status parts = .absent) :
    t.write path bytes = .ok (t.put parts (by simp [habsent]) bytes) := by
  rw [write,hwalk,ok_bind]
  split
  case h_5 => rfl
  all_goals
    next hstatus => cases habsent.symm.trans hstatus

theorem saved_of_write {path : Path} {bytes : List UInt8} (h : t.write path bytes = .ok after) :
    t.Saved path bytes after := by
  obtain ⟨parts,hwalk,h⟩ := bind_eq_ok.mp h
  split at h
  · cases h
  · next hstatus =>
    cases h
    exact .device hwalk hstatus
  · next hstatus =>
    split at h
    · cases h
      exact .device hwalk hstatus
    · cases h
  · cases h
    exact saved_put hwalk _ bytes
  · cases h
    exact saved_put hwalk _ bytes

theorem Saved.of_absent {path : Path} {parts : List String} {bytes : List UInt8}
    (h : t.Saved path bytes after) (hwalk : t.walk path = .ok parts)
    (habsent : t.status parts = .absent) :
    after.status parts = .file bytes ∧
      ∀ other, other ≠ parts → after.status other = t.status other := by
  cases h with
  | file place work holds rest =>
    cases hwalk.symm.trans place
    exact ⟨holds,rest⟩
  | device place takes =>
    cases hwalk.symm.trans place
    cases habsent.symm.trans takes

end FileTree
end Micro86
