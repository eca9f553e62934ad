import Mathlib.Data.List.Basic
import Micro86.Proofs.Text.Blank
import Micro86.Proofs.Text.Search
import Micro86.Token

/-!
Tokens and comments. Taking the comments off a text changes neither its tokens nor the lines that
they stand on, and doing it again changes nothing but a line feed at the end. The tokens are the
words of what is left, numbered by the lines of the text that had the comments.
-/
namespace Micro86.Source

/-! ### Values -/

theorem words_intercalate_lines (ls : List (List Char)) :
    Text.words (['\n'].intercalate ls) = ls.flatMap Text.words := by
  induction ls with
  | nil => rfl
  | cons l ls ih =>
    cases ls with
    | nil => simp
    | cons k ls =>
      rw [List.intercalate_cons_cons,List.append_assoc,List.singleton_append,
        Text.words_append_cons (by decide),ih]
      rfl

/-- The values of the tokens are the words of the text without its comments. -/
theorem values_tokens (marker text : List Char) :
    (tokens marker text).map Token.value =
      (Text.words (stripComments marker text)).map String.ofList := by
  have hline : ∀ line : List Char × Nat, (lineTokens marker line).map Token.value =
      (Text.words (Text.before marker line.1)).map String.ofList := by
    intro line
    simp [lineTokens]
  have hlines : (Text.numberedLines text).map Prod.fst = Text.lines text := by
    simp [Text.numberedLines]
  rw [stripComments,words_intercalate_lines,tokens,List.map_flatMap,List.flatMap_map,
    List.map_flatMap,← hlines,List.flatMap_map]
  exact List.flatMap_congr fun line _ => hline line

/-! ### Comments -/

section
variable (marker text : List Char)

theorem unbroken_before :
    ∀ l ∈ (Text.lines text).map (Text.before marker), ∀ c ∈ l, Text.isLineBreak c = false := by
  intro l hl c hc
  obtain ⟨line,hline,rfl⟩ := List.mem_map.mp hl
  exact (Text.lined_lines text).not_isLineBreak line hline c
    ((Text.before_isPrefix marker line).subset hc)

/-- Without comments a text has the same lines up to them, except for an empty one at the end. -/
theorem lines_stripComments :
    Text.lines (stripComments marker text) =
      Text.dropFinalEmpty ((Text.lines text).map (Text.before marker)) :=
  Text.lines_intercalate (unbroken_before marker text)

theorem map_before_lines :
    (Text.lines (stripComments marker text)).map (Text.before marker) =
      Text.lines (stripComments marker text) := by
  rw [lines_stripComments]
  have hfixed : ∀ l ∈ Text.dropFinalEmpty ((Text.lines text).map (Text.before marker)),
      Text.before marker l = id l := by
    intro l hl
    obtain ⟨line,-,rfl⟩ := List.mem_map.mp (Text.dropFinalEmpty_subset _ hl)
    exact Text.before_before marker line
  rw [List.map_congr_left hfixed,List.map_id]

/-- Without comments there are none to take off, but a line feed at the end ends no line. -/
theorem stripComments_stripComments :
    stripComments marker (stripComments marker text) =
      Text.dropFinalBreak (stripComments marker text) := by
  rw [stripComments,map_before_lines,lines_stripComments,stripComments,
    Text.dropFinalBreak_intercalate (unbroken_before marker text)]

/-- An empty line has no tokens, so that none are lost at the end. -/
theorem flatMap_dropFinalEmpty (ls : List (List Char)) :
    ((Text.dropFinalEmpty ls).zipIdx 1).flatMap (lineTokens marker) =
      (ls.zipIdx 1).flatMap (lineTokens marker) := by
  unfold Text.dropFinalEmpty
  split
  · next hlast =>
    obtain ⟨front,rfl⟩ := List.getLast?_eq_some_iff.mp hlast
    have hnone : ∀ n, lineTokens marker ([],n) = [] := by
      intro n
      rw [lineTokens,Text.before_nil]
      rfl
    simp [List.zipIdx_append,hnone]
  · rfl

theorem tokens_stripComments :
    tokens marker (stripComments marker text) = tokens marker text := by
  have hline : ∀ l : List Char × Nat,
      lineTokens marker (Text.before marker l.1,l.2) = lineTokens marker l := by
    intro l
    rw [lineTokens,Text.before_before,lineTokens]
  -- the lines are cut already, and the one that may be missing at the end is empty
  rw [tokens,Text.numberedLines,lines_stripComments,flatMap_dropFinalEmpty,List.zipIdx_map,
    List.flatMap_map,tokens,Text.numberedLines]
  exact List.flatMap_congr fun l _ => hline l

end

/-! ### Lines -/

/-- The tokens that stand on the line of a number. -/
def onLine (n : Nat) (ts : List Token) : List Token := ts.filter fun t => t.line = (n : Int)

theorem onLine_append (n : Nat) (ts us : List Token) :
    onLine n (ts ++ us) = onLine n ts ++ onLine n us := List.filter_append ts us

theorem onLine_eq_nil {n : Nat} {ts : List Token} (h : ∀ t ∈ ts, t.line ≠ (n : Int)) :
    onLine n ts = [] := by
  rw [onLine,List.filter_eq_nil_iff]
  simpa using h

theorem line_of_mem_lineTokens {marker line : List Char} {n : Nat} {t : Token}
    (h : t ∈ lineTokens marker (line,n)) : t.line = (n : Int) := by
  obtain ⟨word,-,rfl⟩ := List.mem_map.mp h
  rfl

theorem onLine_lineTokens (marker line : List Char) (n : Nat) :
    onLine n (lineTokens marker (line,n)) = lineTokens marker (line,n) := by
  rw [onLine,List.filter_eq_self]
  intro t ht
  simpa using line_of_mem_lineTokens ht

section
variable (marker : List Char) {ls : List (List Char)} {first : Nat}

/-- Tokens stand on the lines that are numbered, from the first on. -/
theorem line_of_mem_flatMap {t : Token}
    (h : t ∈ (ls.zipIdx first).flatMap (lineTokens marker)) :
    ∃ i < ls.length, t.line = ((first+i : Nat) : Int) := by
  obtain ⟨⟨line,n⟩,hline,ht⟩ := List.mem_flatMap.mp h
  obtain ⟨hlow,hhigh,-⟩ := List.mem_zipIdx hline
  refine ⟨n-first,by omega,?_⟩
  rw [line_of_mem_lineTokens ht]
  omega

/-- The tokens on a line are those of the line. -/
theorem onLine_flatMap {i : Nat} {line : List Char} (h : ls[i]? = some line) :
    onLine (first+i) ((ls.zipIdx first).flatMap (lineTokens marker)) =
      lineTokens marker (line,first+i) := by
  induction ls generalizing i first with
  | nil => simp at h
  | cons l ls ih =>
    rw [List.zipIdx_cons,List.flatMap_cons,onLine_append]
    cases i with
    | zero =>
      obtain rfl : l = line := by simpa using h
      -- all lines behind the first have greater numbers
      have hrest : onLine first ((ls.zipIdx (first+1)).flatMap (lineTokens marker)) = [] := by
        apply onLine_eq_nil
        intro t ht
        obtain ⟨k,-,hk⟩ := line_of_mem_flatMap marker ht
        omega
      rw [Nat.add_zero,onLine_lineTokens,hrest,List.append_nil]
    | succ i =>
      have hhere : onLine (first+(i+1)) (lineTokens marker (l,first)) = [] := by
        apply onLine_eq_nil
        intro t ht
        have hline := line_of_mem_lineTokens ht
        omega
      have hnext : first+(i+1) = first+1+i := by omega
      rw [hhere,List.nil_append,hnext]
      exact ih (by simpa using h)

/-- Later tokens stand on later lines or on the same one. -/
theorem pairwise_line_flatMap (ls : List (List Char)) (first : Nat) :
    ((ls.zipIdx first).flatMap (lineTokens marker)).Pairwise (·.line ≤ ·.line) := by
  induction ls generalizing first with
  | nil => exact .nil
  | cons l ls ih =>
    rw [List.zipIdx_cons,List.flatMap_cons,List.pairwise_append]
    refine ⟨?_,ih (first+1),?_⟩
    · apply List.pairwise_of_forall_mem_list
      intro t ht u hu
      have hline := line_of_mem_lineTokens ht
      have hsame := line_of_mem_lineTokens hu
      omega
    · intro t ht u hu
      have hline := line_of_mem_lineTokens ht
      obtain ⟨k,-,hk⟩ := line_of_mem_flatMap marker hu
      omega

end

theorem checkMarker_of_ne_nil {marker : List Char} (h : marker ≠ []) (text : List Char) :
    checkMarker marker text = .ok () := by
  simp [checkMarker,h]

/-- With a marker of comments that is not empty, a text has the tokens that it has without its
comments, on the same lines; comments are taken off at once, up to a line feed at the end. The
tokens are the words of what is left. Those with the number of a line are the words of the line of
the text, counted from one, before its comment; there are no others, and they follow one another
line by line. -/
theorem tokens_keep_lines {marker : List Char} (hmarker : marker ≠ []) (text : List Char) :
    (checkMarker marker text = .ok () ∧
      checkMarker marker (stripComments marker text) = .ok ()) ∧
    tokens marker (stripComments marker text) = tokens marker text ∧
    stripComments marker (stripComments marker text) =
      Text.dropFinalBreak (stripComments marker text) ∧
    (tokens marker text).map Token.value =
      (Text.words (stripComments marker text)).map String.ofList ∧
    Text.Lined text (Text.lines text) ∧
    (∀ i line, (Text.lines text)[i]? = some line →
      (onLine (i+1) (tokens marker text)).map Token.value =
        (Text.words (Text.before marker line)).map String.ofList) ∧
    (∀ t ∈ tokens marker text, ∃ i < (Text.lines text).length, t.line = ((i+1 : Nat) : Int)) ∧
    (tokens marker text).Pairwise (·.line ≤ ·.line) := by
  refine ⟨⟨checkMarker_of_ne_nil hmarker _,checkMarker_of_ne_nil hmarker _⟩,
    tokens_stripComments marker text,stripComments_stripComments marker text,
    values_tokens marker text,Text.lined_lines text,?_,?_,pairwise_line_flatMap marker _ 1⟩
  · intro i line hline
    rw [Nat.add_comm,tokens,Text.numberedLines,onLine_flatMap marker hline]
    simp [lineTokens]
  · intro t ht
    obtain ⟨i,hi,hline⟩ := line_of_mem_flatMap marker ht
    exact ⟨i,hi,by omega⟩

/-- A pair of characters and a separator for breaks, an empty line, and a last line that is all
comment. -/
theorem tokens_keep_lines_of_lone_comment :
    let marker := "//".toList
    let text := "A // a\r\n\n B//C\u2028//".toList
    let ts : List Token := [⟨"A",1⟩,⟨"B",3⟩]
    marker ≠ [] ∧ tokens marker text = ts ∧ tokens marker (stripComments marker text) = ts ∧
    stripComments marker text = "A \n\n B\n".toList ∧
    stripComments marker (stripComments marker text) = "A \n\n B".toList ∧
    Text.lines text = ["A // a",""," B//C","//"].map String.toList ∧
    (onLine 3 ts).map Token.value = ["B"] ∧ ts.Pairwise (·.line ≤ ·.line) := by
  intro marker text ts
  have hmarker : marker ≠ [] := by decide
  have htokens : tokens marker text = ts := by decide +kernel
  have hstripped : stripComments marker text = "A \n\n B\n".toList := by decide +kernel
  have hlines : Text.lines text = ["A // a",""," B//C","//"].map String.toList := by decide +kernel
  obtain ⟨-,hsame,htwice,-,-,hline,-,hsorted⟩ := tokens_keep_lines hmarker text
  rw [htokens] at hsame hline hsorted
  refine ⟨hmarker,htokens,hsame,hstripped,?_,hlines,?_,hsorted⟩
  · rw [htwice,hstripped]
    decide +kernel
  · rw [hline 2 " B//C".toList (by rw [hlines]; rfl)]
    decide +kernel

end Micro86.Source
