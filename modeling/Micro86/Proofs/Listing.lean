import Micro86.Listing
import Micro86.Proofs.Banner
import Micro86.Proofs.Image
import Micro86.Proofs.Text.Search
import Micro86.Proofs.Word.Codec

/-!
Listings are read back. The hexadecimal listing of an image gives the words of the image, with a
banner around it or without; a binary listing has digits enough to be refused at its first line.
-/
namespace Micro86

namespace Listing

/-! ### Lines -/

/-- A comment runs from a number sign to the end of the line; there may be none. -/
def IsComment (text : List Char) : Prop := ∀ c ∈ text.head?, c = '#'

/-- Blanks and a comment around digits are no content. -/
theorem content_append {left digits right comment : List Char}
    (hleft : ∀ c ∈ left, Text.isBlank c = true) (hdigits : ∀ c ∈ digits, Text.isHexDigit c = true)
    (hright : ∀ c ∈ right, Text.isBlank c = true) (hcomment : IsComment comment) :
    content (left ++ (digits ++ (right ++ comment))) = digits := by
  have hsign : '#' ∉ left ++ (digits ++ right) := by
    simp only [List.mem_append,not_or]
    refine ⟨fun h => ?_,fun h => ?_,fun h => ?_⟩
    · exact absurd (hleft _ h) (by decide)
    · exact absurd (hdigits _ h) (by decide)
    · exact absurd (hright _ h) (by decide)
  have hbefore := Text.before_append hsign hcomment
  rw [List.append_assoc,List.append_assoc] at hbefore
  rw [content,hbefore]
  exact Text.trim_append hleft (fun c hc => Text.isBlank_of_isHexDigit (hdigits c hc)) hright

theorem content_comment (text : List Char) : content ('#' :: text) = [] :=
  content_append (List.forall_mem_nil _) (List.forall_mem_nil _) (List.forall_mem_nil _)
    (by simp [IsComment])

/-- Hexadecimal digits are all content. -/
theorem content_of_hexDigits {line : List Char} (h : ∀ c ∈ line, Text.isHexDigit c = true) :
    content line = line := by
  have hbare : IsComment [] := by simp [IsComment]
  simpa using content_append (List.forall_mem_nil _) h (List.forall_mem_nil _) hbare

theorem isWord_iff {text : List Char} :
    isWord text = true ↔ text ≠ [] ∧ text.length ≤ 8 ∧ ∀ c ∈ text, Text.isHexDigit c = true := by
  simp only [isWord,Bool.and_eq_true,decide_eq_true_eq,List.all_eq_true,and_assoc,
    Nat.succ_le_iff,List.length_pos_iff]

/-- The word of a line that has one. -/
def word? (line : List Char) : Option Nat :=
  if (content line).isEmpty then none else some (Text.hexValue (content line))

/-- Nothing but a word and a comment. -/
def Readable (line : List Char) : Prop := content line = [] ∨ isWord (content line) = true

/-- Readable lines are passed over with their words. -/
theorem wordsFrom_append {source : String} {front : List (List Char × Nat)} (read : List Nat)
    (h : ∀ l ∈ front, Readable l.1) (rest : List (List Char × Nat)) :
    wordsFrom source read (front ++ rest) =
      wordsFrom source ((front.filterMap fun l => word? l.1).reverse ++ read) rest := by
  induction front generalizing read with
  | nil => rfl
  | cons l front ih =>
    obtain ⟨text,line⟩ := l
    have hrest := fun read => ih read fun l hl => h l (List.mem_cons_of_mem _ hl)
    rw [List.cons_append,wordsFrom]
    cases hempty : (content text).isEmpty with
    | true =>
      have hnone : word? text = none := by simp only [word?,hempty,if_true]
      simp [hrest,hnone]
    | false =>
      have hsome : word? text = some (Text.hexValue (content text)) := by
        simp only [word?,hempty,Bool.false_eq_true,if_false]
      obtain hnone | hword := h _ List.mem_cons_self
      · simp [hnone] at hempty
      · simp [hword,hrest,hsome]

theorem wordsFrom_of_readable {source : String} {ls : List (List Char × Nat)} (read : List Nat)
    (h : ∀ l ∈ ls, Readable l.1) :
    wordsFrom source read ls = .ok (read.reverse ++ ls.filterMap fun l => word? l.1) := by
  rw [← List.append_nil ls,wordsFrom_append read h,wordsFrom,List.reverse_append,
    List.reverse_reverse,List.append_nil]

/-- A line that is not readable ends the reading. -/
theorem wordsFrom_of_not_readable {text : List Char} (h : ¬Readable text) (source : String)
    (read : List Nat) (line : Nat) (rest : List (List Char × Nat)) :
    wordsFrom source read ((text,line) :: rest) = .error ⟨line,text,source⟩ := by
  obtain ⟨hempty,hword⟩ := not_or.mp h
  simp [wordsFrom,hempty,hword]

/-- A text of readable lines gives their words in order. -/
theorem parse_of_readable {source : String} {text : List Char}
    (h : ∀ l ∈ Text.lines text, Readable l) :
    parse source text = .ok ((Text.lines text).filterMap word?) := by
  have hwords : ((Text.lines text).zipIdx 1).filterMap (fun l => word? l.1) =
      (Text.lines text).filterMap word? := by
    have hnumbered : (fun l : List Char × Nat => word? l.1) = word? ∘ Prod.fst := rfl
    rw [hnumbered,← List.filterMap_map,List.zipIdx_map_fst]
  rw [parse,Text.numberedLines,wordsFrom_of_readable,hwords]
  · rfl
  · intro l hl
    exact h l.1 (List.fst_mem_of_mem_zipIdx hl)

theorem parse_unlines {source : String} {ls : List String} (hbreaks : ∀ l ∈ ls, Text.Unbroken l)
    (hlines : ∀ l ∈ ls, Readable l.toList) :
    parse source (Text.unlines ls).toList = .ok (ls.filterMap fun l => word? l.toList) := by
  have hread := Text.lines_unlines hbreaks
  rw [parse_of_readable,hread,List.filterMap_map]
  · rfl
  · simpa [hread] using hlines

/-! ### Words -/

theorem content_format (radix : Word.Radix) (w : Int) :
    content (Word.format radix w).toList = (Word.format radix w).toList :=
  content_of_hexDigits fun _ => Word.isHexDigit_of_mem_format

theorem word?_format_hex {w : Nat} (h : w < 0x100000000) :
    word? (Word.format .hex w).toList = some w := by
  have hne := List.isEmpty_eq_false_iff.mpr (Word.format_ne_nil .hex w)
  rw [word?,content_format,hne,Word.hexValue_format_hex,Word.unsigned_of_lt h]
  rfl

theorem readable_format_hex (w : Int) : Readable (Word.format .hex w).toList := by
  refine .inr ?_
  rw [content_format,isWord_iff,Word.length_format]
  exact ⟨Word.format_ne_nil .hex w,Nat.le_refl 8,fun _ => Word.isHexDigit_of_mem_format⟩

/-! ### Banners and long lines -/

theorem content_above (f : Banner.Figures) :
    ∀ l ∈ Banner.above .words f, content l.toList = [] := by
  have hempty : content [] = [] := rfl
  simp [Banner.above,BannerKind.comment,Text.toString_string,content_comment,hempty]

theorem content_below : ∀ l ∈ Banner.below .words, content l.toList = [] := by
  have hempty : content [] = [] := rfl
  simp [Banner.below,BannerKind.comment,Text.toString_string,content_comment,hempty]

theorem filterMap_word?_of_content {ls : List String} (h : ∀ l ∈ ls, content l.toList = []) :
    (ls.filterMap fun l => word? l.toList) = [] := by
  rw [List.filterMap_eq_nil_iff]
  intro l hl
  simp [word?,h l hl]

/-- A banner around readable lines adds no words to them. -/
theorem parse_frame {source : String} {ls : List String} (hbreaks : ∀ l ∈ ls, Text.Unbroken l)
    (hlines : ∀ l ∈ ls, Readable l.toList) (c : Circumstances) :
    parse source (Banner.frame .words (Banner.figures c) (Text.unlines ls)).toList =
      .ok (ls.filterMap fun l => word? l.toList) := by
  rw [Banner.frame_unlines,parse_unlines]
  · rw [List.filterMap_append,List.filterMap_append,filterMap_word?_of_content (content_above _),
      filterMap_word?_of_content content_below,List.nil_append,List.append_nil]
  · simp only [List.forall_mem_append]
    exact ⟨⟨Banner.above_unbroken .words c,hbreaks⟩,Banner.below_unbroken .words⟩
  · simp only [List.forall_mem_append]
    exact ⟨⟨fun l hl => .inl (content_above _ l hl),hlines⟩,fun l hl => .inl (content_below l hl)⟩

/-- A line of more digits than a word has is refused. -/
theorem parse_of_long_line {source : String} {first : String} {ls : List String}
    (hbreaks : ∀ l ∈ first :: ls, Text.Unbroken l)
    (hdigits : ∀ c ∈ first.toList, Text.isHexDigit c = true) (hlong : 8 < first.toList.length) :
    parse source (Text.unlines (first :: ls)).toList = .error ⟨1,first.toList,source⟩ := by
  have hread : ¬Readable first.toList := by
    rw [Readable,content_of_hexDigits hdigits,← List.length_eq_zero_iff,isWord_iff]
    omega
  rw [parse,Text.numberedLines,Text.lines_unlines hbreaks,List.map_cons,List.zipIdx_cons,
    wordsFrom_of_not_readable hread]

/-! ### Listings of words -/

theorem unbroken_words (radix : Word.Radix) (ws : List Nat) :
    ∀ l ∈ ws.map fun (w : Nat) => Word.format radix w, Text.Unbroken l := by
  intro l hl
  obtain ⟨w,-,rfl⟩ := List.mem_map.mp hl
  exact Word.unbroken_format radix w

theorem readable_words (ws : List Nat) :
    ∀ l ∈ ws.map fun (w : Nat) => Word.format .hex w, Readable l.toList := by
  intro l hl
  obtain ⟨w,-,rfl⟩ := List.mem_map.mp hl
  exact readable_format_hex w

theorem filterMap_words {ws : List Nat} (h : ∀ w ∈ ws, w < 0x100000000) :
    ((ws.map fun (w : Nat) => Word.format .hex w).filterMap fun l => word? l.toList) = ws := by
  induction ws with
  | nil => rfl
  | cons w ws ih =>
    obtain ⟨hw,hrest⟩ := List.forall_mem_cons.mp h
    rw [List.map_cons,List.filterMap_cons,word?_format_hex hw,ih hrest]

end Listing

end Micro86
