import Mathlib.Data.List.Basic
import Mathlib.Data.Nat.Init
import Mathlib.Tactic.Tauto
import Micro86.Machine.Cpu
import Micro86.Proofs.Text.Numeral
import Micro86.Proofs.Word

/-!
The dump of a memory. Numbers have eight digits or more; a cell has a line of its own, or shares an
ellipsis with the cells around it. Main statement: the lines are those of the cells that are not zero,
that start a run of zeros or that end the memory, and the memory can be read off them.
-/
namespace Micro86.Cpu

/-! ### Numbers -/

theorem toList_hex8 (n : Nat) :
    (hex8 n).toList = '0' :: 'x' :: Text.zeroPadded 8 (Text.hexDigits n) := by
  have hjoin : hex8 n = "0x" ++ Text.hexPadded 8 n := rfl
  rw [hjoin,String.toList_append,Text.toList_hexPadded]
  rfl

theorem unbroken_hex8 (n : Nat) : Text.Unbroken (hex8 n) := by
  apply Text.unbroken_of_not_blank
  rw [toList_hex8]
  intro c hc
  obtain rfl | hc := List.mem_cons.mp hc
  · decide
  · obtain rfl | hc := List.mem_cons.mp hc
    · decide
    · exact Text.isBlank_of_isHexDigit (Text.isHexDigit_of_mem_zeroPadded hc)

theorem hexWord_eq (w : Int) : hexWord w = hex8 (w % 0x100000000) := by
  rw [hexWord,Word.natCast_unsigned]

/-- A number of 32 bits has eight digits, and they stand for it. -/
theorem digits_of_hex8 {n : Nat} (h : n < 0x100000000) :
    ∃ digits, (hex8 n).toList = '0' :: 'x' :: digits ∧ digits.length = 8 ∧
      Text.hexValue digits = n := by
  refine ⟨_,toList_hex8 n,?_,?_⟩
  · exact Text.length_zeroPadded_hexDigits h
  · rw [Text.hexValue_zeroPadded,Text.hexValue_hexDigits]

theorem hexValue_hex8 (n : Nat) : Text.hexValue (hex8 n).toList = n := by
  have hdigits : Text.hexValue (Text.zeroPadded 8 (Text.hexDigits n)) = n := by
    rw [Text.hexValue_zeroPadded,Text.hexValue_hexDigits]
  rw [toList_hex8]
  simpa [Text.hexValue,Text.ofDigits,Text.hexDigit?] using hdigits

theorem ne_colon_of_mem_hex8 {n : Nat} {c : Char} (h : c ∈ (hex8 n).toList) : c ≠ ':' := by
  rw [toList_hex8] at h
  obtain rfl | h := List.mem_cons.mp h
  · decide
  obtain rfl | h := List.mem_cons.mp h
  · decide
  · rintro rfl
    exact absurd (Text.isHexDigit_of_mem_zeroPadded h) (by decide)

/-! ### What is shown -/

/-- A zero that no zero stands before. -/
def StartsZeros (memory : List Int) (i : Nat) : Prop :=
  memory[i]? = some 0 ∧ (i = 0 ∨ memory[i-1]? ≠ some 0)

/-- The cells that have a line: those that are not zero, the first of every run of zeros, and the
last one. -/
def Shown (memory : List Int) (i : Nat) : Prop :=
  i < memory.length ∧ (memory[i]? ≠ some 0 ∨ StartsZeros memory i ∨ i+1 = memory.length)

instance (memory : List Int) (i : Nat) : Decidable (Shown memory i) :=
  inferInstanceAs (Decidable (_ ∧ (_ ∨ (_ ∧ _) ∨ _)))

/-- The lines from an address on. A shown cell has a line of its own; the cells between two shown
ones, if there are any, have one ellipsis together. -/
inductive Dumps (memory : List Int) : Nat → List String → Prop
  | done : Dumps memory memory.length []
  | cell {i : Nat} {v : Int} {rest : List String} (hcell : memory[i]? = some v)
      (hshown : Shown memory i) (hrest : Dumps memory (i+1) rest) :
      Dumps memory i (cellLine i v :: rest)
  | gap {i j : Nat} {rest : List String} (hbefore : Shown memory i) (hlt : i+1 < j)
      (hhidden : ∀ k, i < k → k < j → ¬Shown memory k) (hbehind : Shown memory j)
      (hrest : Dumps memory j rest) : Dumps memory (i+1) (ellipsis :: rest)

variable {memory : List Int} {i : Nat} {lines : List String}

/-- The lines go on at the next shown cell. -/
def Resumes (memory : List Int) (i : Nat) (lines : List String) : Prop :=
  ∃ j, i ≤ j ∧ (∀ k, i ≤ k → k < j → ¬Shown memory k) ∧ Shown memory j ∧ Dumps memory j lines

theorem Dumps.resumes (h : Dumps memory i lines) (hshown : Shown memory i) :
    Resumes memory i lines :=
  ⟨i,Nat.le_refl i,fun _ hle hlt => absurd hlt (Nat.not_lt.mpr hle),hshown,h⟩

theorem Resumes.of_hidden (h : Resumes memory (i+1) lines) (hhidden : ¬Shown memory i) :
    Resumes memory i lines := by
  obtain ⟨j,hle,hgap,hshown,hlines⟩ := h
  refine ⟨j,by omega,?_,hshown,hlines⟩
  intro k hk hlt
  obtain rfl | hk := Nat.eq_or_lt_of_le hk
  · exact hhidden
  · exact hgap k hk hlt

/-- Hidden cells behind a shown one get their ellipsis. -/
theorem Resumes.gap (h : Resumes memory (i+2) lines) (hshown : Shown memory i)
    (hhidden : ¬Shown memory (i+1)) : Dumps memory (i+1) (ellipsis :: lines) := by
  obtain ⟨j,hle,hgap,hnext,hlines⟩ := h
  refine .gap hshown (by omega) ?_ hnext hlines
  intro k hk hlt
  obtain rfl | hk := Nat.eq_or_lt_of_le hk
  · exact hhidden
  · exact hgap k hk hlt

/-! ### One cell after another -/

theorem toList_dumpFrom (address zeros : Nat) (shown : Array String) (cells : List Int) :
    (dumpFrom address zeros shown cells).toList =
      shown.toList ++ (dumpFrom address zeros #[] cells).toList := by
  induction cells generalizing address zeros shown with
  | nil => simp [dumpFrom]
  | cons v cells ih =>
    unfold dumpFrom
    split
    · rw [ih,ih _ _ (#[].push _)]
      simp
    · split
      · rw [ih,ih _ _ (#[].push _)]
        simp
      · split
        · rw [ih,ih _ _ (#[].push _)]
          simp
        · exact ih _ _ _

theorem dumpFrom_shown {address zeros : Nat} {v : Int} {cells : List Int}
    (h : v ≠ 0 ∨ zeros = 0 ∨ cells = []) :
    (dumpFrom address zeros #[] (v :: cells)).toList = cellLine address v ::
      (dumpFrom (address+1) (if v = 0 then zeros+1 else 0) #[] cells).toList := by
  rw [dumpFrom]
  by_cases hv : v = 0
  · have hline : zeros = 0 ∨ cells = [] := h.resolve_left (not_not_intro hv)
    rw [if_neg (not_not_intro hv),if_pos hline,if_pos hv,toList_dumpFrom]
    rfl
  · rw [if_pos hv,if_neg hv,toList_dumpFrom]
    rfl

theorem dumpFrom_hidden {address zeros : Nat} {cells : List Int} (hzeros : zeros ≠ 0)
    (hcells : cells ≠ []) :
    (dumpFrom address zeros #[] (0 :: cells)).toList = (if zeros = 1 then [ellipsis] else []) ++
      (dumpFrom (address+1) (zeros+1) #[] cells).toList := by
  have hline : ¬(zeros = 0 ∨ cells = []) := not_or.mpr ⟨hzeros,hcells⟩
  rw [dumpFrom,if_neg (not_not_intro rfl),if_neg hline,toList_dumpFrom]
  split <;> rfl

/-- What the dump knows of the zeros right before an address: whether there are any, and that a
single one is shown. -/
structure Behind (memory : List Int) (i zeros : Nat) : Prop where
  none : zeros = 0 ↔ i = 0 ∨ memory[i-1]? ≠ some 0
  one : zeros = 1 → ∃ k, i = k+1 ∧ Shown memory k

section
variable {zeros : Nat} {v : Int} (h : Behind memory i zeros) (hcell : memory[i]? = some v)
include h hcell

theorem Behind.shown_iff :
    Shown memory i ↔ v ≠ 0 ∨ zeros = 0 ∨ i+1 = memory.length := by
  have hlt : i < memory.length := (List.getElem?_eq_some_iff.mp hcell).1
  simp only [Shown,StartsZeros,hlt,hcell,h.none,true_and,ne_eq,Option.some.injEq]
  tauto

theorem Behind.step : Behind memory (i+1) (if v = 0 then zeros+1 else 0) where
  none := by
    by_cases hv : v = 0 <;> simp [hv,hcell]
  one := by
    intro hone
    refine ⟨i,rfl,(h.shown_iff hcell).mpr ?_⟩
    by_cases hv : v = 0
    · rw [if_pos hv] at hone
      omega
    · exact .inl hv

end

/-- Behind no more than one zero the lines start at the next cell, and behind more at the next shown
one: the ellipsis of that run is written already. -/
theorem dumps_dumpFrom {cells : List Int} {zeros : Nat} (hcells : memory.drop i = cells)
    (hle : i ≤ memory.length) (hzeros : Behind memory i zeros) :
    (zeros ≤ 1 ∨ cells = [] → Dumps memory i (dumpFrom i zeros #[] cells).toList) ∧
    (1 < zeros → cells ≠ [] → Resumes memory i (dumpFrom i zeros #[] cells).toList) := by
  induction cells generalizing i zeros with
  | nil =>
    obtain rfl : i = memory.length := Nat.le_antisymm hle (List.drop_eq_nil_iff.mp hcells)
    exact ⟨fun _ => .done,fun _ h => absurd rfl h⟩
  | cons v cells ih =>
    have hcell : memory[i]? = some v := by
      rw [← List.head?_drop,hcells,List.head?_cons]
    have hlt : i < memory.length := (List.getElem?_eq_some_iff.mp hcell).1
    have hdrop : memory.drop (i+1) = cells := by
      rw [← List.tail_drop,hcells,List.tail_cons]
    have hlast : i+1 = memory.length ↔ cells = [] := by
      rw [← hdrop,List.drop_eq_nil_iff]
      omega
    obtain ⟨hnext,hlater⟩ := ih hdrop hlt (hzeros.step hcell)
    have hiff := hzeros.shown_iff hcell
    rw [hlast] at hiff
    by_cases hshown : Shown memory i
    · have hline := hiff.mp hshown
      have hrest := hnext (by
        obtain hv | rfl | hnil := hline
        · simp [hv]
        · left
          split <;> omega
        · exact .inr hnil)
      rw [dumpFrom_shown hline]
      have hlines := Dumps.cell hcell hshown hrest
      exact ⟨fun _ => hlines,fun _ _ => hlines.resumes hshown⟩
    · obtain ⟨hv,hsome,hne⟩ : v = 0 ∧ zeros ≠ 0 ∧ cells ≠ [] := by
        simpa [not_or] using mt hiff.mpr hshown
      subst hv
      have hrest : Resumes memory (i+1) (dumpFrom (i+1) (zeros+1) #[] cells).toList :=
        hlater (by simp; omega) hne
      rw [dumpFrom_hidden hsome hne]
      by_cases hone : zeros = 1
      · obtain ⟨k,rfl,hk⟩ := hzeros.one hone
        rw [if_pos hone]
        exact ⟨fun _ => hrest.gap hk hshown,fun hmany => absurd hone (by omega)⟩
      · rw [if_neg hone]
        refine ⟨?_,fun _ _ => hrest.of_hidden hshown⟩
        rintro (hfew | hnil)
        · omega
        · simp at hnil

/-- The lines of a dump stand for the memory from its first address on. -/
theorem dumps_dumpMemory (c : Cpu) :
    ∃ lines, c.dumpMemory = Text.unlines lines ∧ Dumps c.memory.toList 0 lines := by
  refine ⟨_,rfl,(dumps_dumpFrom (by simp) (by simp) ⟨by simp,by simp⟩).1 (.inl (by simp))⟩

/-! ### Lines -/

theorem toList_cellLine (address : Nat) (v : Int) :
    (cellLine address v).toList = (hex8 address).toList ++ [':','\t'] ++ (hexWord v).toList := by
  simp [cellLine,Text.toString_string]

theorem unbroken_cellLine (address : Nat) (v : Int) : Text.Unbroken (cellLine address v) := by
  have htab : Text.Unbroken ":\t" := by decide
  simp only [cellLine,Text.unbroken_append,Text.toString_string,unbroken_hex8,hexWord,htab,and_self]

theorem cellLine_ne_ellipsis (address : Nat) (v : Int) : cellLine address v ≠ ellipsis := by
  intro h
  have hfirst := congrArg (fun line => line.toList.head?) h
  simp [toList_cellLine,toList_hex8,ellipsis] at hfirst

/-- The number in front of the colon is the address, and the one behind it the word. -/
theorem address_of_cellLine (address : Nat) (v : Int) :
    Text.hexValue ((cellLine address v).toList.takeWhile (· ≠ ':')) = address := by
  rw [toList_cellLine,List.append_assoc,List.takeWhile_append_of_pos]
  · simp [hexValue_hex8]
  · intro c hc
    simpa using ne_colon_of_mem_hex8 hc

theorem word_of_cellLine (address : Nat) (v : Int) :
    Text.hexValue ((cellLine address v).toList.dropWhile (· ≠ ':')) = Word.unsigned v := by
  have hword : Text.hexValue (':' :: '\t' :: (hexWord v).toList) = Word.unsigned v := by
    have hdigits := hexValue_hex8 (Word.unsigned v)
    rw [hexWord]
    simpa [Text.hexValue,Text.ofDigits,Text.hexDigit?] using hdigits
  rw [toList_cellLine,List.append_assoc,List.dropWhile_append_of_pos]
  · simpa using hword
  · intro c hc
    simpa using ne_colon_of_mem_hex8 hc

theorem Dumps.unbroken (h : Dumps memory i lines) : ∀ l ∈ lines, Text.Unbroken l := by
  induction h with
  | done => simp
  | cell hcell hshown hrest ih => exact List.forall_mem_cons.mpr ⟨unbroken_cellLine _ _,ih⟩
  | gap hbefore hlt hhidden hbehind hrest ih => exact List.forall_mem_cons.mpr ⟨by decide,ih⟩

/-- A cell has its line in the dump exactly if it is shown. -/
theorem Dumps.mem_iff (h : Dumps memory i lines) {k : Nat} {v : Int} (hk : memory[k]? = some v) :
    cellLine k v ∈ lines ↔ i ≤ k ∧ Shown memory k := by
  induction h with
  | done =>
    have hlt := (List.getElem?_eq_some_iff.mp hk).1
    simp only [List.not_mem_nil,false_iff]
    omega
  | @cell i w rest hcell hshown hrest ih =>
    rw [List.mem_cons,ih]
    constructor
    · rintro (hline | ⟨hle,hk⟩)
      · have haddress := address_of_cellLine k v
        rw [hline,address_of_cellLine] at haddress
        subst haddress
        exact ⟨Nat.le_refl i,hshown⟩
      · exact ⟨by omega,hk⟩
    · rintro ⟨hle,hkshown⟩
      obtain rfl | hlt := Nat.eq_or_lt_of_le hle
      · obtain rfl : v = w := Option.some.inj (hk.symm.trans hcell)
        exact .inl rfl
      · exact .inr ⟨hlt,hkshown⟩
  | @gap i j rest hbefore hlt hhidden hbehind hrest ih =>
    rw [List.mem_cons,or_iff_right (cellLine_ne_ellipsis k v),ih]
    constructor
    · rintro ⟨hle,hshown⟩
      exact ⟨by omega,hshown⟩
    · rintro ⟨hle,hshown⟩
      refine ⟨Nat.le_of_not_lt ?_,hshown⟩
      intro hbetween
      exact hhidden k hle hbetween hshown

/-! ### Reading a dump -/

/-- What one line adds to the cells before it: zeros up to the line's address, and the line's word.
An ellipsis adds nothing, since the line behind it tells how far it goes. -/
def readLine (cells : List Int) (line : List Char) : List Int :=
  if line = ellipsis.toList then cells
  else
    let address := Text.hexValue (line.takeWhile (· ≠ ':'))
    let word := Text.hexValue (line.dropWhile (· ≠ ':'))
    cells ++ List.replicate (address - cells.length) 0 ++ [Word.signed word]

/-- The memory that a dump shows. -/
def readDump (text : List Char) : List Int := (Text.lines text).foldl readLine []

theorem readLine_cellLine (cells : List Int) (address : Nat) (v : Int) :
    readLine cells (cellLine address v).toList =
      cells ++ List.replicate (address - cells.length) 0 ++ [Word.signed v] := by
  have hne : (cellLine address v).toList ≠ ellipsis.toList := fun h =>
    cellLine_ne_ellipsis address v (String.toList_inj.mp h)
  simp only [readLine,if_neg hne,address_of_cellLine,word_of_cellLine,Word.signed_unsigned]

/-- Cells that are all zero are what zeros in their place are. -/
theorem take_of_zeros {j : Nat} (hle : i ≤ j) (h : ∀ k, i ≤ k → k < j → memory[k]? = some 0) :
    memory.take j = memory.take i ++ List.replicate (j - i) 0 := by
  induction j, hle using Nat.le_induction with
  | base => simp
  | succ j hle ih =>
    have hrest := ih fun k hk hlt => h k hk (Nat.lt_succ_of_lt hlt)
    rw [List.take_add_one,hrest,h j hle (Nat.lt_succ_self j),Nat.sub_add_comm hle,
      List.replicate_succ',List.append_assoc]
    rfl

theorem zero_of_hidden {k : Nat} (hlt : k < memory.length) (h : ¬Shown memory k) :
    memory[k]? = some 0 := by
  by_contra hne
  exact h ⟨hlt,.inl hne⟩

/-- The lines from an address on bring the cells before it to the whole memory. Where lines are
still to come, zeros may be missing at the end of those cells. -/
theorem Dumps.foldl_readLine (h : Dumps memory i lines) (hrange : ∀ w ∈ memory, Word.InRange w)
    {cells : List Int} (hlen : cells.length ≤ i) (hend : i = memory.length → cells.length = i)
    (hcells : cells ++ List.replicate (i - cells.length) 0 = memory.take i) :
    (lines.map String.toList).foldl readLine cells = memory := by
  induction h generalizing cells with
  | done => simpa [hend rfl] using hcells
  | @cell i v rest hcell hshown hrest ih =>
    have hv := Word.signed_of_inRange (hrange v (List.mem_of_getElem? hcell))
    have htake : memory.take (i+1) = cells ++ List.replicate (i - cells.length) 0 ++ [v] := by
      rw [hcells,List.take_add_one,hcell]
      rfl
    have hlength : (memory.take (i+1)).length = i+1 := by
      rw [List.length_take]
      have := hshown.1
      omega
    rw [List.map_cons,List.foldl_cons,readLine_cellLine,hv,← htake]
    exact ih (by omega) (fun _ => hlength) (by simp [hlength])
  | @gap i j rest hbefore hlt hhidden hbehind hrest ih =>
    have hzeros : ∀ k, i+1 ≤ k → k < j → memory[k]? = some 0 := fun k hk hkj =>
      zero_of_hidden (Nat.lt_trans hkj hbehind.1) (hhidden k hk hkj)
    have hskip : readLine cells ellipsis.toList = cells := by rw [readLine,if_pos rfl]
    rw [List.map_cons,List.foldl_cons,hskip]
    refine ih (by omega) (fun hj => absurd hbehind.1 (by omega)) ?_
    rw [take_of_zeros (Nat.le_of_lt hlt) hzeros,← hcells,List.append_assoc,← List.replicate_add]
    congr 2
    omega

theorem readDump_dumpMemory (c : Cpu) (h : ∀ w ∈ c.memory, Word.InRange w) :
    readDump c.dumpMemory.toList = c.memory.toList := by
  obtain ⟨lines,hdump,hlines⟩ := dumps_dumpMemory c
  rw [hdump,readDump,Text.lines_unlines hlines.unbroken]
  exact hlines.foldl_readLine (by simpa using h) (Nat.le_refl 0) (fun _ => rfl) (by simp)

/-- The dump of a memory of words loses nothing. A cell has its line exactly if it is not zero, is the
first of a run of zeros or is the last cell; the cells between two lines have one ellipsis; the lines
are in the order of the addresses; and the memory, its size included, can be read off the text. -/
theorem dump_loses_nothing (c : Cpu) (h : ∀ w ∈ c.memory, Word.InRange w) :
    ∃ lines, c.dumpMemory = Text.unlines lines ∧ Dumps c.memory.toList 0 lines ∧
      (∀ (i : Nat) v, c.memory[i]? = some v →
        (cellLine i v ∈ lines ↔ Shown c.memory.toList i)) ∧
      readDump c.dumpMemory.toList = c.memory.toList ∧
      ∀ d : Cpu, (∀ w ∈ d.memory, Word.InRange w) → d.dumpMemory = c.dumpMemory →
        d.memory = c.memory := by
  obtain ⟨lines,hdump,hlines⟩ := dumps_dumpMemory c
  refine ⟨lines,hdump,hlines,?_,readDump_dumpMemory c h,?_⟩
  · intro i v hv
    rw [hlines.mem_iff (by simpa using hv)]
    simp
  · intro d hd hsame
    have hread := readDump_dumpMemory d hd
    rw [hsame,readDump_dumpMemory c h] at hread
    exact (Array.toList_inj.mp hread).symm

/-- Two runs of zeros: an ellipsis stands for two cells of the first, and the second, at the end of the
memory, is too short for one. -/
theorem dump_loses_nothing_of_zeros :
    let c : Cpu := { memory := #[0,0,0,-1,0,0] }
    (∀ w ∈ c.memory, Word.InRange w) ∧
    c.dumpMemory = Text.unlines ["0x00000000:\t0x00000000",". . . . .","0x00000003:\t0xFFFFFFFF",
      "0x00000004:\t0x00000000","0x00000005:\t0x00000000"] ∧
    readDump c.dumpMemory.toList = [0,0,0,-1,0,0] := by
  intro c
  have hrange : ∀ w ∈ c.memory, Word.InRange w := by decide
  obtain ⟨lines,-,-,-,hread,-⟩ := dump_loses_nothing c hrange
  exact ⟨hrange,by decide +kernel,hread⟩

end Micro86.Cpu
