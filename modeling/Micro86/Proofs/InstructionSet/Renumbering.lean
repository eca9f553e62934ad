import Mathlib.Data.List.Find
import Micro86.Proofs.InstructionSet.Bundled
import Micro86.Proofs.Text.Numeral
import Micro86.Proofs.Text.Search

/-!
An instruction set with other numbers for its opcodes. Mnemonics find what they found before, with
the new number; a new number finds what the old one found, if no two opcodes get the same. The
descriptor text with the numbers of its lines replaced is read to the renumbered set.
-/
namespace Micro86

variable {f : Nat → Nat}

def Entry.renumber (f : Nat → Nat) (e : Entry) : Entry := { e with opcode := f e.opcode }

namespace InstructionSet

variable {isa : InstructionSet}

def renumber (f : Nat → Nat) (isa : InstructionSet) : InstructionSet :=
  { isa with entries := isa.entries.map (Entry.renumber f) }

/-- Opcodes get different numbers, and the numbers fit into half a word. -/
structure Renumbers (isa : InstructionSet) (f : Nat → Nat) : Prop where
  injective : ∀ a ∈ isa.opcodes, ∀ b ∈ isa.opcodes, f a = f b → a = b
  le : ∀ a ∈ isa.opcodes, f a ≤ 0xFFFF

theorem byMnemonic?_renumber (name : String) :
    (isa.renumber f).byMnemonic? name = (isa.byMnemonic? name).map (Entry.renumber f) := by
  simp only [byMnemonic?,renumber,List.findRev?_eq_find?_reverse,← List.map_reverse,List.find?_map]
  rfl

theorem byOpcode?_renumber (h : isa.Renumbers f) {opcode : Nat} (hmem : opcode ∈ isa.opcodes) :
    (isa.renumber f).byOpcode? (f opcode) = (isa.byOpcode? opcode).map (Entry.renumber f) := by
  simp only [byOpcode?,renumber,List.findRev?_eq_find?_reverse,← List.map_reverse,List.find?_map]
  congr 1
  apply List.find?_congr
  intro e he
  have hentry : e.opcode ∈ isa.opcodes := mem_opcodes.mpr ⟨e,List.mem_reverse.mp he,rfl⟩
  have hsame : f e.opcode = f opcode ↔ e.opcode = opcode :=
    ⟨h.injective _ hentry _ hmem,fun heq => by rw [heq]⟩
  simp only [Entry.renumber,Function.comp_apply,Int.natCast_inj,hsame]

theorem opcode_le_of_parse {source : String} {text : List Char} (h : parse source text = .ok isa) :
    ∀ a ∈ isa.opcodes, a ≤ 0xFFFF := by
  intro a ha
  obtain ⟨e,he,rfl⟩ := mem_opcodes.mp ha
  obtain ⟨raw,hspells⟩ := spells_of_parse h e he
  exact hspells.opcode_le

/-! ### The text with its numbers replaced -/

/-- A descriptor line with another number. Lines without an entry stay as they are. -/
def renumberLine (f : Nat → Nat) (line : String) : String :=
  match lineWords line.toList with
  | [] => line
  | opcode :: rest =>
    Text.unwords (Text.hexPadded 4 (f (Text.hexValue opcode)) :: rest.map String.ofList)

/-- The bundled text with other numbers. -/
def renumberedText (f : Nat → Nat) : List Char :=
  (Text.unlines (bundledLines.map (renumberLine f))).toList

/-- The words of a renumbered line: the new number, and what stood behind the old one. -/
theorem renumberLine_cons {line : String} {opcode : List Char} {rest : List (List Char)}
    (h : lineWords line.toList = opcode :: rest) :
    lineWords (renumberLine f line).toList =
        Text.zeroPadded 4 (Text.hexDigits (f (Text.hexValue opcode))) :: rest ∧
      Text.Unbroken (renumberLine f line) := by
  have hrest : ∀ w ∈ rest, Text.IsWord w ∧ '#' ∉ w := by
    intro w hw
    have hmem : w ∈ lineWords line.toList := h ▸ List.mem_cons_of_mem opcode hw
    refine ⟨Text.isWord_of_mem_words hmem,?_⟩
    intro hc
    exact Text.notMem_before '#' line.toList (Text.mem_of_mem_words hmem hc)
  have hwords : ∀ w ∈ Text.hexPadded 4 (f (Text.hexValue opcode)) :: rest.map String.ofList,
      Text.IsWord w.toList := by
    intro w hw
    obtain rfl | hw := List.mem_cons.mp hw
    · exact Text.isWord_hexPadded 4 _
    · obtain ⟨v,hv,rfl⟩ := List.mem_map.mp hw
      simpa using (hrest v hv).1
  -- the number sign that ended the words of the old line does not come back
  have hmark : '#' ∉ (renumberLine f line).toList := by
    simp only [renumberLine,h]
    intro hc
    obtain hc | ⟨w,hw,hc⟩ := Text.mem_unwords hc
    · exact absurd hc (by decide)
    obtain rfl | hw := List.mem_cons.mp hw
    · rw [Text.toList_hexPadded] at hc
      exact absurd (Text.isHexDigit_of_mem_zeroPadded hc) (by decide)
    · obtain ⟨v,hv,rfl⟩ := List.mem_map.mp hw
      exact (hrest v hv).2 (by simpa using hc)
  rw [lineWords,Text.before_of_notMem hmark]
  simp only [renumberLine,h]
  refine ⟨?_,Text.unwords_unbroken hwords⟩
  rw [Text.words_unwords hwords,List.map_cons,Text.toList_hexPadded,List.map_map]
  simp [Function.comp_def]

theorem isOpcode_zeroPadded {n : Nat} (h : n ≤ 0xFFFF) :
    Entry.IsOpcode (Text.zeroPadded 4 (Text.hexDigits n)) where
  ne_nil := by
    rw [← Text.toList_hexPadded]
    exact (Text.isWord_hexPadded 4 n).1
  digit := fun _ => Text.isHexDigit_of_mem_zeroPadded
  le := by
    rw [Text.hexValue_zeroPadded,Text.hexValue_hexDigits]
    exact h

/-- Words with another number in front spell the same entry with that number. -/
theorem spells_renumbered {opcode : List Char} {rest : List (List Char)} {e : Entry}
    (h : Entry.Spells (opcode :: rest) e) :
    e.opcode = Text.hexValue opcode ∧ ∀ digits : List Char, Entry.IsOpcode digits →
      Entry.Spells (digits :: rest) { e with opcode := Text.hexValue digits } := by
  generalize hwords : opcode :: rest = words at h
  cases h with
  | entry hdigits hmnemonic hmarks hrole line =>
    cases hrole with
    | plain hlast =>
      cases hwords
      refine ⟨rfl,fun digits hnew => .entry hnew hmnemonic hmarks (.plain ?_) line⟩
      simpa [List.getLast?_cons] using hlast
    | role r =>
      cases hwords
      exact ⟨rfl,fun digits hnew => .entry hnew hmnemonic hmarks (.role r) line⟩

theorem mem_scan_of_mem {source : String} {e : Entry} (ls : List (List Char × Nat))
    (read : List Entry) (h : e ∈ read) : e ∈ (scan source ls read).1 := by
  induction ls generalizing read with
  | nil => simpa [scan] using h
  | cons l ls ih =>
    unfold scan
    split
    · exact ih read h
    · split
      · simpa using h
      · exact ih _ (List.mem_cons_of_mem _ h)

/-- Lines that are read are read to the renumbered entries when their numbers are replaced. -/
theorem scan_renumberLine (source : String) (ls : List String) (first : Nat) (read : List Entry)
    (hread : (scan source ((ls.map String.toList).zipIdx first) read).2 = none)
    (hle : ∀ e ∈ (scan source ((ls.map String.toList).zipIdx first) read).1, f e.opcode ≤ 0xFFFF) :
    scan source (((ls.map (renumberLine f)).map String.toList).zipIdx first)
        (read.map (Entry.renumber f)) =
      ((scan source ((ls.map String.toList).zipIdx first) read).1.map (Entry.renumber f),none) := by
  induction ls generalizing first read with
  | nil => simp [scan]
  | cons l ls ih =>
    simp only [List.map_cons,List.zipIdx_cons] at hread hle ⊢
    cases hwords : lineWords l.toList with
    | nil =>
      have hsame : renumberLine f l = l := by rw [renumberLine,hwords]
      simp only [scan,hwords,hsame] at hread hle ⊢
      exact ih (first+1) read hread hle
    | cons opcode rest =>
      have hnew := (renumberLine_cons (f := f) hwords).1
      cases hentry : Entry.ofWords first (opcode :: rest) with
      | error fault => simp [scan,hwords,hentry] at hread
      | ok e =>
        simp only [scan,hwords,hentry] at hread hle
        have hfits := hle e (mem_scan_of_mem _ _ List.mem_cons_self)
        obtain ⟨hspells,hline⟩ := (ofWords_lineWords hwords).mp hentry
        obtain ⟨hopcode,hother⟩ := spells_renumbered hspells
        rw [← hopcode] at hnew
        have hrenumbered := (ofWords_lineWords hnew).mpr ⟨hother _ (isOpcode_zeroPadded hfits),hline⟩
        rw [Text.hexValue_zeroPadded,Text.hexValue_hexDigits] at hrenumbered
        simp only [scan,hwords,hentry,hnew,hrenumbered]
        exact ih (first+1) (e :: read) hread hle

/-- The bundled text with its numbers replaced is read to the bundled set with its numbers
replaced. -/
theorem parse_renumberedText (h : bundled.Renumbers f) :
    parse bundledSource (renumberedText f) = .ok (bundled.renumber f) := by
  have hlines : Text.lines (renumberedText f) =
      (bundledLines.map (renumberLine f)).map String.toList := by
    apply Text.lines_unlines
    intro line hline
    obtain ⟨l,hl,rfl⟩ := List.mem_map.mp hline
    cases hwords : lineWords l.toList with
    | nil =>
      rw [renumberLine,hwords]
      exact unbroken_of_mem_bundledLines l hl
    | cons opcode rest => exact (renumberLine_cons hwords).2
  have hbundled := scan_bundledText
  rw [Text.numberedLines,lines_bundledText] at hbundled
  have hscan := scan_renumberLine (f := f) bundledSource bundledLines 1 [] (by rw [hbundled]) (by
    rw [hbundled]
    intro e he
    exact h.le _ (mem_opcodes.mpr ⟨e,by rw [bundled_eq]; exact he,rfl⟩))
  rw [hbundled,List.map_nil] at hscan
  rw [parse,Text.numberedLines,hlines,hscan,bundled_eq]
  rfl

end InstructionSet
end Micro86
