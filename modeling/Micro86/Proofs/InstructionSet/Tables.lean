import Mathlib.Data.List.Basic
import Mathlib.Data.List.Induction
import Micro86.InstructionSet.Basic

/-!
The tables of an instruction set. A key finds the last entry that has it, the keys stand in the
order of their first entries, and so do the rows of a table that the entries fill one after
another. Main statement: the way from a mnemonic to its opcode leads back exactly where no entry
behind the last one with the mnemonic has its opcode.
-/
namespace Micro86

section
variable {κ : Type} (key : Entry → κ)

/-- The last entry with a key. -/
def IsLast (k : κ) (e : Entry) (entries : List Entry) : Prop :=
  ∃ before behind, entries = before ++ e :: behind ∧ key e = k ∧ ∀ d ∈ behind, key d ≠ k

variable {key} {k : κ} {e d : Entry} {entries : List Entry}

theorem IsLast.mem (h : IsLast key k e entries) : e ∈ entries ∧ key e = k := by
  obtain ⟨before,behind,rfl,hkey,-⟩ := h
  exact ⟨by simp,hkey⟩

/-- What stands in front does not matter. -/
theorem IsLast.append_left (h : IsLast key k e entries) (front : List Entry) :
    IsLast key k e (front ++ entries) := by
  obtain ⟨before,behind,rfl,hkey,hbehind⟩ := h
  exact ⟨front ++ before,behind,by simp,hkey,hbehind⟩

variable (key) [DecidableEq κ]

/-- Every key once, in the order in which the keys appear for the first time. -/
structure FirstAppearances (keys all : List κ) : Prop where
  mem : ∀ k, k ∈ keys ↔ k ∈ all
  nodup : keys.Nodup
  order : keys.Pairwise fun a b => all.idxOf a < all.idxOf b

/-- Puts an entry under its key: in the place of the entry that was there, or else at the end. -/
def putEntry (table : List (κ × Entry)) (e : Entry) : List (κ × Entry) :=
  if key e ∈ table.map Prod.fst then
    table.map fun row => if row.1 = key e then (row.1,e) else row
  else table ++ [(key e,e)]

/-- The table that entries fill one after another. -/
def fillTable (entries : List Entry) : List (κ × Entry) := entries.foldl (putEntry key) []

variable {key} {table : List (κ × Entry)}

/-! ### Keys -/

theorem eraseDups_concat (l : List κ) (k : κ) :
    (l ++ [k]).eraseDups = if k ∈ l then l.eraseDups else l.eraseDups ++ [k] := by
  rw [List.eraseDups_append]
  split
  · next hold => simp [List.removeAll,hold]
  · next hnew => simp [List.removeAll,hnew,List.eraseDups_cons]

theorem firstAppearances_eraseDups (l : List κ) : FirstAppearances l.eraseDups l := by
  have horder : l.eraseDups.Pairwise fun a b => l.idxOf a < l.idxOf b := by
    induction l using List.reverseRecOn with
    | nil => simp
    | append_singleton l k ih =>
      have hkeep : l.eraseDups.Pairwise fun a b => (l ++ [k]).idxOf a < (l ++ [k]).idxOf b := by
        refine ih.imp_of_mem fun {a b} ha hb hlt => ?_
        rwa [List.idxOf_append_of_mem (List.mem_eraseDups.mp ha),
          List.idxOf_append_of_mem (List.mem_eraseDups.mp hb)]
      rw [eraseDups_concat]
      split
      · exact hkeep
      · next hnew =>
        refine List.pairwise_append.mpr ⟨hkeep,List.pairwise_singleton _ _,?_⟩
        intro a ha b hb
        obtain rfl := List.mem_singleton.mp hb
        have hmem := List.mem_eraseDups.mp ha
        have hlt := List.idxOf_lt_length_iff.mpr hmem
        rw [List.idxOf_append_of_mem hmem,List.idxOf_append,if_neg hnew]
        omega
  refine ⟨fun k => List.mem_eraseDups,horder.imp fun {a b} hlt hsame => ?_,horder⟩
  subst hsame
  exact Nat.lt_irrefl _ hlt

/-! ### Last entries -/

theorem findRev?_eq_some :
    entries.findRev? (fun d => decide (key d = k)) = some e ↔ IsLast key k e entries := by
  rw [List.findRev?_eq_find?_reverse,List.find?_eq_some_iff_append]
  constructor
  · rintro ⟨hkey,behind,before,hsplit,hbehind⟩
    refine ⟨before.reverse,behind.reverse,?_,by simpa using hkey,by simpa using hbehind⟩
    rw [← List.reverse_reverse entries,hsplit]
    simp
  · rintro ⟨before,behind,rfl,hkey,hbehind⟩
    exact ⟨by simpa using hkey,behind.reverse,before.reverse,by simp,by simpa using hbehind⟩

theorem exists_isLast (h : ∃ d ∈ entries, key d = k) : ∃ e, IsLast key k e entries := by
  obtain ⟨d,hd,hkey⟩ := h
  simp only [← findRev?_eq_some,← Option.isSome_iff_exists]
  rw [List.findRev?_eq_find?_reverse,List.find?_isSome]
  exact ⟨d,List.mem_reverse.mpr hd,by simpa using hkey⟩

theorem isLast_concat :
    IsLast key k d (entries ++ [e]) ↔ k = key e ∧ d = e ∨ k ≠ key e ∧ IsLast key k d entries := by
  simp only [← findRev?_eq_some,List.findRev?_eq_find?_reverse,List.reverse_append,
    List.reverse_singleton,List.singleton_append,List.find?_cons]
  by_cases hkey : key e = k
  · simp [hkey,eq_comm]
  · simp [hkey,Ne.symm hkey]

/-! ### Filled tables -/

theorem keys_putEntry : (putEntry key table e).map Prod.fst =
    if key e ∈ table.map Prod.fst then table.map Prod.fst else table.map Prod.fst ++ [key e] := by
  unfold putEntry
  split
  · rw [List.map_map]
    apply List.map_congr_left
    intro row hrow
    dsimp only [Function.comp_apply]
    split <;> rfl
  · simp

theorem mem_putEntry :
    (k,d) ∈ putEntry key table e ↔ k = key e ∧ d = e ∨ k ≠ key e ∧ (k,d) ∈ table := by
  unfold putEntry
  split
  · next hold =>
    rw [List.mem_map]
    constructor
    · rintro ⟨row,hrow,himage⟩
      split at himage
      · next hkey =>
        cases himage
        exact .inl ⟨hkey,rfl⟩
      · next hkey =>
        subst himage
        exact .inr ⟨hkey,hrow⟩
    · rintro (⟨rfl,rfl⟩ | ⟨hkey,hrow⟩)
      · obtain ⟨row,hrow,hkey⟩ := List.mem_map.mp hold
        exact ⟨row,hrow,by rw [if_pos hkey,hkey]⟩
      · exact ⟨(k,d),hrow,if_neg hkey⟩
  · next hnew =>
    have hrow : (k,d) ∈ table → k ≠ key e := by
      rintro hrow rfl
      exact hnew (List.mem_map_of_mem hrow)
    simp only [List.mem_append,List.mem_singleton,Prod.mk.injEq]
    tauto

theorem fillTable_concat (entries : List Entry) (e : Entry) :
    fillTable key (entries ++ [e]) = putEntry key (fillTable key entries) e := by
  simp [fillTable]

/-- The keys of the filled table come as they appear for the first time. -/
theorem keys_fillTable (entries : List Entry) :
    (fillTable key entries).map Prod.fst = (entries.map key).eraseDups := by
  induction entries using List.reverseRecOn with
  | nil => rfl
  | append_singleton entries e ih =>
    rw [fillTable_concat,keys_putEntry,ih,List.map_append,List.map_singleton,eraseDups_concat]
    simp only [List.mem_eraseDups]

/-- The rows of the filled table are the last entries of their keys. -/
theorem mem_fillTable : (k,d) ∈ fillTable key entries ↔ IsLast key k d entries := by
  induction entries using List.reverseRecOn with
  | nil => simp [fillTable,IsLast]
  | append_singleton entries e ih => rw [fillTable_concat,mem_putEntry,ih,isLast_concat]

end

namespace InstructionSet
variable {isa : InstructionSet} {e : Entry}

/-! ### The two tables -/

theorem byOpcode?_eq_some {opcode : Int} :
    isa.byOpcode? opcode = some e ↔ IsLast (fun d => (d.opcode : Int)) opcode e isa.entries :=
  findRev?_eq_some

theorem byOpcode?_natCast {opcode : Nat} :
    isa.byOpcode? opcode = some e ↔ IsLast Entry.opcode opcode e isa.entries := by
  rw [byOpcode?_eq_some]
  simp only [IsLast,ne_eq,Int.natCast_inj]

theorem byMnemonic?_eq_some {name : String} :
    isa.byMnemonic? name = some e ↔ IsLast Entry.mnemonic name e isa.entries :=
  findRev?_eq_some

theorem mem_of_byOpcode? {opcode : Int} (h : isa.byOpcode? opcode = some e) :
    e ∈ isa.entries ∧ (e.opcode : Int) = opcode :=
  (byOpcode?_eq_some.mp h).mem

theorem mem_of_byMnemonic? {name : String} (h : isa.byMnemonic? name = some e) :
    e ∈ isa.entries ∧ e.mnemonic = name :=
  (byMnemonic?_eq_some.mp h).mem

theorem mem_opcodes {opcode : Nat} :
    opcode ∈ isa.opcodes ↔ ∃ e ∈ isa.entries, e.opcode = opcode := by
  simp [opcodes]

theorem mem_mnemonics {name : String} :
    name ∈ isa.mnemonics ↔ ∃ e ∈ isa.entries, e.mnemonic = name := by
  simp [mnemonics]

theorem exists_byOpcode?_of_mem {opcode : Nat} (h : opcode ∈ isa.opcodes) :
    ∃ e, isa.byOpcode? opcode = some e := by
  simp only [byOpcode?_natCast]
  exact exists_isLast (mem_opcodes.mp h)

theorem exists_byMnemonic?_of_mem {name : String} (h : name ∈ isa.mnemonics) :
    ∃ e, isa.byMnemonic? name = some e := by
  simp only [byMnemonic?_eq_some]
  exact exists_isLast (mem_mnemonics.mp h)

/-- The numbers that find an entry are the opcodes. -/
theorem isOpcode_iff {number : Int} :
    isa.isOpcode number = true ↔ ∃ o ∈ isa.opcodes, (o : Int) = number := by
  rw [isOpcode,Option.isSome_iff_exists]
  constructor
  · rintro ⟨e,he⟩
    obtain ⟨hmem,hkey⟩ := mem_of_byOpcode? he
    exact ⟨e.opcode,mem_opcodes.mpr ⟨e,hmem,rfl⟩,hkey⟩
  · rintro ⟨o,ho,rfl⟩
    exact exists_byOpcode?_of_mem ho

/-- The words that find an entry are the mnemonics. -/
theorem isMnemonic_iff {word : String} : isa.isMnemonic word = true ↔ word ∈ isa.mnemonics := by
  rw [isMnemonic,Option.isSome_iff_exists]
  constructor
  · rintro ⟨e,he⟩
    exact mem_mnemonics.mpr ⟨e,mem_of_byMnemonic? he⟩
  · exact exists_byMnemonic?_of_mem

theorem mem_immediateOpcodes {opcode : Nat} :
    opcode ∈ isa.immediateOpcodes ↔
      ∃ e, isa.byOpcode? opcode = some e ∧ e.isImmediate = true := by
  rw [immediateOpcodes,List.mem_filter,Option.any_eq_true]
  constructor
  · exact fun h => h.2
  · rintro ⟨e,he,himmediate⟩
    obtain ⟨hmem,hkey⟩ := (byOpcode?_natCast.mp he).mem
    exact ⟨mem_opcodes.mpr ⟨e,hmem,hkey⟩,e,he,himmediate⟩

/-- Asking the list of immediate opcodes is asking the entry. -/
theorem hasImmediate_eq (opcode : Int) :
    isa.hasImmediate opcode = (isa.ofOpcode opcode).map Entry.isImmediate := by
  unfold hasImmediate ofOpcode
  cases he : isa.byOpcode? opcode with
  | none => rfl
  | some e =>
    obtain ⟨hmem,rfl⟩ := mem_of_byOpcode? he
    have hany : (isa.immediateOpcodes.any fun o => decide ((o : Int) = e.opcode)) =
        e.isImmediate := by
      rw [Bool.eq_iff_iff,List.any_eq_true]
      simp only [decide_eq_true_eq,Int.natCast_inj,exists_eq_right,mem_immediateOpcodes,he,
        Option.some.injEq,exists_eq_left']
    exact congrArg Except.ok hany

theorem isReserved_iff {word : String} :
    isa.isReserved word = true ↔ isa.isMnemonic word = true ∨ word = keyword := by
  rw [isReserved,Bool.or_eq_true,decide_eq_true_iff,or_comm]

theorem mem_reservedWords {word : String} :
    word ∈ isa.reservedWords ↔ isa.isReserved word = true := by
  rw [isReserved_iff,reservedWords,List.mem_eraseDups,List.mem_cons,isMnemonic_iff,or_comm]

/-! ### The way back -/

/-- Behind the last entry with a mnemonic, its opcode does not come again. -/
def KeepsOpcodes (isa : InstructionSet) : Prop :=
  ∀ before e behind, isa.entries = before ++ e :: behind →
    (∀ d ∈ behind, d.mnemonic ≠ e.mnemonic) → ∀ d ∈ behind, d.opcode ≠ e.opcode

theorem opcodeOf_eq_ok {name : String} (h : isa.byMnemonic? name = some e) :
    isa.opcodeOf name = .ok e.opcode := by
  rw [opcodeOf,ofMnemonic,h]
  rfl

theorem mnemonicOf_eq_ok {opcode : Int} (h : isa.byOpcode? opcode = some e) :
    isa.mnemonicOf opcode = .ok e.mnemonic := by
  rw [mnemonicOf,ofOpcode,h]
  rfl

/-- The mnemonic of a mnemonic's opcode is the mnemonic itself, for every mnemonic, exactly where
opcodes are kept. -/
theorem mnemonicOf_opcodeOf_iff :
    (∀ name, isa.isMnemonic name = true →
      (isa.opcodeOf name >>= fun o => isa.mnemonicOf o) = .ok name) ↔ isa.KeepsOpcodes := by
  constructor
  · intro hback before e behind hsplit hlast d hd hreuse
    have he := byMnemonic?_eq_some.mpr ⟨before,behind,hsplit,rfl,hlast⟩
    -- the last entry with this opcode stands behind the last one with the mnemonic
    obtain ⟨d',hd'⟩ := exists_isLast ⟨d,hd,hreuse⟩
    have hother : isa.byOpcode? e.opcode = some d' := by
      rw [byOpcode?_natCast,hsplit,← List.singleton_append,← List.append_assoc]
      exact hd'.append_left _
    have hname := hback e.mnemonic (by rw [isMnemonic,he]; rfl)
    rw [opcodeOf_eq_ok he] at hname
    exact hlast d' hd'.mem.1 (Except.ok.inj ((mnemonicOf_eq_ok hother).symm.trans hname))
  · intro hkeeps name hname
    obtain ⟨e,he⟩ := Option.isSome_iff_exists.mp hname
    obtain ⟨before,behind,hsplit,rfl,hlast⟩ := byMnemonic?_eq_some.mp he
    have hopcode : isa.byOpcode? e.opcode = some e :=
      byOpcode?_natCast.mpr ⟨before,behind,hsplit,rfl,hkeeps before e behind hsplit hlast⟩
    rw [opcodeOf_eq_ok he]
    exact mnemonicOf_eq_ok hopcode

end InstructionSet
end Micro86
