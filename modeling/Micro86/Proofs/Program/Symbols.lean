import Mathlib.Data.List.Nodup
import Micro86.Program.Basic

/-!
Symbols of a program whose labels have distinct names, and whose variables have too: every
declaration is the one that its name finds.
-/
namespace Micro86

/-- A list of pairs with distinct names gives every name the value that stands with it. -/
theorem lookup_eq_some {α : Type} {ls : List (String × α)} (hn : (ls.map Prod.fst).Nodup)
    {name : String} {a : α} : ls.lookup name = some a ↔ (name,a) ∈ ls := by
  induction ls with
  | nil => simp
  | cons l ls ih =>
    obtain ⟨key,value⟩ := l
    obtain ⟨hnew,hn⟩ := List.nodup_cons.mp hn
    rw [List.lookup_cons]
    cases hb : name == key with
    | true =>
      obtain rfl : name = key := by simpa using hb
      have hmem : (name,a) ∉ ls := fun h => hnew (List.mem_map.mpr ⟨_,h,rfl⟩)
      simp [hmem,eq_comm]
    | false =>
      have hne : name ≠ key := by simpa using hb
      simp [ih hn,hne]

namespace Program

variable {p : Program}

theorem label?_eq_some (hn : (p.labels.map Prod.fst).Nodup) {name : String} {position : Nat} :
    p.label? name = some position ↔ (name,position) ∈ p.labels := lookup_eq_some hn

/-- Where a variable is declared. -/
theorem findIdx?_vars (hn : (p.vars.map Prod.fst).Nodup) {name : String} {k : Nat} :
    p.vars.findIdx? (fun v => v.1 = name) = some k ↔ ∃ value, p.vars[k]? = some (name,value) := by
  rw [List.findIdx?_eq_some_iff_getElem]
  constructor
  · rintro ⟨hk,hname,-⟩
    refine ⟨p.vars[k].2,?_⟩
    rw [List.getElem?_eq_getElem hk,← of_decide_eq_true hname]
  · rintro ⟨value,hv⟩
    obtain ⟨hk,hget⟩ := List.getElem?_eq_some_iff.mp hv
    refine ⟨hk,by simp [hget],?_⟩
    intro j hj hname
    have hjlen := Nat.lt_trans hj hk
    -- An earlier variable of this name would be this one.
    have hsame : (p.vars.map Prod.fst)[j]? = (p.vars.map Prod.fst)[k]? := by
      rw [List.getElem?_map,List.getElem?_map,List.getElem?_eq_getElem hjlen,hv]
      simpa using hname
    have hjk := (List.getElem?_inj (by simpa using hjlen) hn).mp hsame
    omega

theorem ordinal?_eq_some (hn : (p.vars.map Prod.fst).Nodup) {name : String} {n : Nat} :
    p.ordinal? name = some n ↔ ∃ k value, p.vars[k]? = some (name,value) ∧ n = k+1 := by
  simp only [ordinal?,Option.map_eq_some_iff,findIdx?_vars hn]
  constructor
  · rintro ⟨k,⟨value,hv⟩,rfl⟩
    exact ⟨k,value,hv,rfl⟩
  · rintro ⟨k,value,hv,rfl⟩
    exact ⟨k,⟨value,hv⟩,rfl⟩

theorem address?_eq_some (hn : (p.vars.map Prod.fst).Nodup) {name : String} {a : Nat} :
    p.address? name = some a ↔
      ∃ k value, p.vars[k]? = some (name,value) ∧ a = p.instructions.length+k := by
  simp only [address?,Option.map_eq_some_iff,findIdx?_vars hn]
  constructor
  · rintro ⟨k,⟨value,hv⟩,rfl⟩
    exact ⟨k,value,hv,rfl⟩
  · rintro ⟨k,value,hv,rfl⟩
    exact ⟨k,⟨value,hv⟩,rfl⟩

/-- The variables fill the addresses behind the code in the order of their declarations. -/
theorem map_address? (hn : (p.vars.map Prod.fst).Nodup) :
    p.vars.map (fun v => p.address? v.1) =
      (List.range' p.instructions.length p.vars.length).map some := by
  apply List.ext_getElem (by simp)
  intro k hk _
  rw [List.length_map] at hk
  have hv : p.vars[k]? = some p.vars[k] := List.getElem?_eq_getElem hk
  have ha : p.address? p.vars[k].1 = some (p.instructions.length+k) :=
    (address?_eq_some hn).mpr ⟨k,p.vars[k].2,hv,rfl⟩
  simpa using ha

theorem mem_labels_of_label? {name : String} {n : Nat} (h : p.label? name = some n) :
    (name,n) ∈ p.labels := by
  obtain ⟨before,behind,heq,-⟩ := List.lookup_eq_some_iff.mp h
  simp [heq]

theorem mem_vars_of_address? {name : String} {a : Nat} (h : p.address? name = some a) :
    ∃ value, (name,value) ∈ p.vars := by
  obtain ⟨k,hk,-⟩ := Option.map_eq_some_iff.mp h
  obtain ⟨hlt,hname,-⟩ := List.findIdx?_eq_some_iff_getElem.mp hk
  obtain rfl := of_decide_eq_true hname
  exact ⟨p.vars[k].2,List.getElem_mem hlt⟩

/-- Two variables do not share an address. -/
theorem address?_injective (hn : (p.vars.map Prod.fst).Nodup) {name other : String} {a : Nat}
    (h : p.address? name = some a) (ho : p.address? other = some a) : name = other := by
  obtain ⟨k,value,hv,rfl⟩ := (address?_eq_some hn).mp h
  obtain ⟨j,value',hw,hj⟩ := (address?_eq_some hn).mp ho
  obtain rfl : k = j := by omega
  rw [hv] at hw
  simpa using congrArg (Option.map Prod.fst) hw

end Program
end Micro86
