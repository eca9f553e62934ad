import Micro86.Text.Line

/-!
The lines of a text and the breaks between them: what is read as lines is what stands between
breaks, and lines that are written one after another are read back. Of lines with line feeds between
them only, an empty one at the end is lost.
-/
namespace Micro86.Text

/-- No character of the line ends it. -/
def Unbroken (line : String) : Prop := ∀ c ∈ line.toList, isLineBreak c = false

instance (line : String) : Decidable (Unbroken line) :=
  decidable_of_iff (line.toList.all (!isLineBreak ·) = true) (by simp [Unbroken])

theorem toList_unlines (ls : List String) :
    (unlines ls).toList = ls.flatMap fun l => l.toList ++ ['\n'] := by
  simp [unlines,String.toList_join,List.flatMap_map]

theorem getLast?_unlines {ls : List String} (h : ls ≠ []) :
    (unlines ls).toList.getLast? = some '\n' := by
  rw [toList_unlines,← List.dropLast_concat_getLast h,List.flatMap_append]
  simp

theorem toString_string (text : String) : toString text = text := rfl

theorem unbroken_append {line tail : String} :
    Unbroken (line ++ tail) ↔ Unbroken line ∧ Unbroken tail := by
  simp only [Unbroken,String.toList_append,List.forall_mem_append]

/-! ### Lines and breaks -/

/-- A break in front of `rest`. A carriage return takes a line feed behind it along. -/
inductive Breaks (rest : List Char) : List Char → Prop
  | pair : Breaks rest ['\r','\n']
  | single {c : Char} (hc : isLineBreak c = true) (hrest : c = '\r' → rest.head? ≠ some '\n') :
      Breaks rest [c]

/-- A text and its lines: a break ends each of them, and the last may also end with the text, if it
is not empty. -/
inductive Lined : List Char → List (List Char) → Prop
  | empty : Lined [] []
  | last {line : List Char} (hne : line ≠ []) (hline : ∀ c ∈ line, isLineBreak c = false) :
      Lined line [line]
  | cons {line ending rest : List Char} {ls : List (List Char)}
      (hline : ∀ c ∈ line, isLineBreak c = false) (hending : Breaks rest ending)
      (hrest : Lined rest ls) : Lined (line ++ (ending ++ rest)) (line :: ls)

/-- What `breakStep` remembers of the text behind it. -/
theorem foldr_breakStep_snd (text : List Char) :
    (text.foldr breakStep ([],false)).2 = (text.head? == some '\n') := by
  cases text with
  | nil => rfl
  | cons c text =>
    by_cases hc : c = '\r'
    · simp [breakStep,hc]
    · simp [breakStep,hc,Bool.beq_eq_decide_eq]

theorem unifyBreaks_cons {c : Char} (hc : c ≠ '\r') (text : List Char) :
    unifyBreaks (c :: text) = c :: unifyBreaks text := by
  simp [unifyBreaks,breakStep,hc]

theorem unifyBreaks_append {line : List Char} (h : ∀ c ∈ line, isLineBreak c = false)
    (text : List Char) : unifyBreaks (line ++ text) = line ++ unifyBreaks text := by
  induction line with
  | nil => rfl
  | cons c line ih =>
    have hc : c ≠ '\r' := by
      rintro rfl
      exact absurd (h _ List.mem_cons_self) (by decide)
    rw [List.cons_append,unifyBreaks_cons hc,ih fun d hd => h d (List.mem_cons_of_mem c hd)]
    rfl

/-- A break becomes one character, whatever it is made of. -/
theorem unifyBreaks_break {rest ending : List Char} (h : Breaks rest ending) :
    ∃ c, isLineBreak c = true ∧ unifyBreaks (ending ++ rest) = c :: unifyBreaks rest := by
  cases h with
  | pair => exact ⟨'\n',by decide,by simp [unifyBreaks,breakStep]⟩
  | @single c hc hrest =>
    by_cases hreturn : c = '\r'
    · have hfeed : (rest.foldr breakStep ([],false)).2 = false := by
        simpa [foldr_breakStep_snd] using hrest hreturn
      exact ⟨'\n',by decide,by simp [unifyBreaks,breakStep,hreturn,hfeed]⟩
    · exact ⟨c,hc,unifyBreaks_cons hreturn rest⟩

/-- A line that a break ends is the first one. -/
theorem lines_append_break {line ending rest : List Char}
    (hline : ∀ c ∈ line, isLineBreak c = false) (hending : Breaks rest ending) :
    lines (line ++ (ending ++ rest)) = line :: lines rest := by
  obtain ⟨c,hc,hunified⟩ := unifyBreaks_break hending
  have hne := List.splitOnP_ne_nil isLineBreak (unifyBreaks rest)
  rw [lines,unifyBreaks_append hline,hunified,
    List.splitOnP_append_cons_of_forall_mem hline _ hc,lines]
  simp only [List.getLast?_cons_of_ne_nil hne,List.dropLast_cons_of_ne_nil hne]
  split <;> rfl

theorem Lined.lines_eq {text : List Char} {ls : List (List Char)} (h : Lined text ls) :
    lines text = ls := by
  induction h with
  | empty => rfl
  | @last line hne hline =>
    have hunified := unifyBreaks_append hline []
    rw [List.append_nil] at hunified
    rw [lines,hunified]
    simp [unifyBreaks,List.splitOnP_eq_singleton hline,hne]
  | cons hline hending _ ih => rw [lines_append_break hline hending,ih]

theorem exists_breaks {c : Char} (hc : isLineBreak c = true) (rest : List Char) :
    ∃ ending behind, c :: rest = ending ++ behind ∧ Breaks behind ending ∧
      behind.length ≤ rest.length := by
  by_cases hpair : c = '\r' ∧ rest.head? = some '\n'
  · obtain ⟨rfl,hfeed⟩ := hpair
    obtain ⟨behind,rfl⟩ := List.head?_eq_some_iff.mp hfeed
    exact ⟨['\r','\n'],behind,rfl,.pair,by simp⟩
  · exact ⟨[c],rest,rfl,.single hc fun hreturn hfeed => hpair ⟨hreturn,hfeed⟩,Nat.le_refl _⟩

/-- Every text has lines: up to its first break there is one, and the rest is shorter. -/
theorem exists_lined (text : List Char) : ∃ ls, Lined text ls := by
  induction hlength : text.length using Nat.strongRecOn generalizing text with
  | ind n ih =>
    cases hfind : text.find? isLineBreak with
    | none =>
      have hline : ∀ c ∈ text, isLineBreak c = false := by simpa using hfind
      by_cases hne : text = []
      · exact ⟨[],hne ▸ .empty⟩
      · exact ⟨[text],.last hne hline⟩
    | some c =>
      obtain ⟨hc,line,rest,rfl,hline⟩ := List.find?_eq_some_iff_append.mp hfind
      obtain ⟨ending,behind,htext,hending,hshort⟩ := exists_breaks hc rest
      have hsmaller : behind.length < n := by
        rw [← hlength,List.length_append,List.length_cons]
        omega
      obtain ⟨ls,hls⟩ := ih behind.length hsmaller behind rfl
      rw [htext]
      exact ⟨line :: ls,.cons (by simpa using hline) hending hls⟩

/-- The lines that are read are those between the breaks. -/
theorem lined_lines (text : List Char) : Lined text (lines text) := by
  obtain ⟨ls,h⟩ := exists_lined text
  rw [h.lines_eq]
  exact h

theorem Lined.not_isLineBreak {text : List Char} {ls : List (List Char)} (h : Lined text ls) :
    ∀ line ∈ ls, ∀ c ∈ line, isLineBreak c = false := by
  induction h with
  | empty => simp
  | last _ hline => simpa using hline
  | cons hline _ _ ih => exact List.forall_mem_cons.mpr ⟨hline,ih⟩

/-! ### Lines that are written -/

theorem breaks_feed (rest : List Char) : Breaks rest ['\n'] :=
  .single (by decide) fun h => absurd h (by decide)

/-- Lines without breaks inside them are the lines of the text that they make. -/
theorem lines_unlines {ls : List String} (h : ∀ l ∈ ls, Unbroken l) :
    lines (unlines ls).toList = ls.map String.toList := by
  rw [toList_unlines]
  apply Lined.lines_eq
  induction ls with
  | nil => exact .empty
  | cons l ls ih =>
    rw [List.flatMap_cons,List.append_assoc]
    exact .cons (h l List.mem_cons_self) (breaks_feed _)
      (ih fun k hk => h k (List.mem_cons_of_mem l hk))

/-- The lines without an empty one at the end. -/
def dropFinalEmpty (ls : List (List Char)) : List (List Char) :=
  if ls.getLast? = some [] then ls.dropLast else ls

theorem dropFinalEmpty_cons_cons (l k : List Char) (ls : List (List Char)) :
    dropFinalEmpty (l :: k :: ls) = l :: dropFinalEmpty (k :: ls) := by
  simp only [dropFinalEmpty,List.getLast?_cons_cons,List.dropLast_cons_cons]
  split <;> rfl

theorem dropFinalEmpty_subset (ls : List (List Char)) : dropFinalEmpty ls ⊆ ls := by
  unfold dropFinalEmpty
  split
  · exact List.dropLast_subset ls
  · exact List.Subset.refl ls

/-- Line feeds between lines leave no line at the end if the last one is empty. -/
theorem lines_intercalate {ls : List (List Char)}
    (h : ∀ l ∈ ls, ∀ c ∈ l, isLineBreak c = false) :
    lines (['\n'].intercalate ls) = dropFinalEmpty ls := by
  apply Lined.lines_eq
  induction ls with
  | nil => exact .empty
  | cons l ls ih =>
    cases ls with
    | nil =>
      rw [List.intercalate_singleton]
      by_cases hne : l = []
      · subst hne
        exact .empty
      · simpa [dropFinalEmpty,hne] using Lined.last hne (h l List.mem_cons_self)
    | cons k ls =>
      rw [List.intercalate_cons_cons,List.append_assoc,dropFinalEmpty_cons_cons]
      exact .cons (h l List.mem_cons_self) (breaks_feed _)
        (ih fun m hm => h m (List.mem_cons_of_mem l hm))

theorem intercalate_concat (ls : List (List Char)) (last : List Char) :
    ['\n'].intercalate (ls ++ [last]) = ls.flatMap (· ++ ['\n']) ++ last := by
  induction ls with
  | nil => simp
  | cons l ls ih =>
    rw [List.cons_append,List.intercalate_cons_of_ne_nil (by simp),ih]
    simp

/-- Taking off the line feed at the end takes off the empty line behind it. -/
theorem dropFinalBreak_intercalate {ls : List (List Char)}
    (h : ∀ l ∈ ls, ∀ c ∈ l, isLineBreak c = false) :
    dropFinalBreak (['\n'].intercalate ls) = ['\n'].intercalate (dropFinalEmpty ls) := by
  cases hls : ls.getLast? with
  | none => simp [List.getLast?_eq_none_iff.mp hls,dropFinalBreak,dropFinalEmpty]
  | some last =>
    obtain ⟨front,rfl⟩ := List.getLast?_eq_some_iff.mp hls
    rw [intercalate_concat]
    by_cases hempty : last = []
    · subst hempty
      -- the line feed at the end, if there is one, belongs to the line before the empty one
      cases hfront : front.getLast? with
      | none => simp [List.getLast?_eq_none_iff.mp hfront,dropFinalBreak,dropFinalEmpty]
      | some line =>
        obtain ⟨before,rfl⟩ := List.getLast?_eq_some_iff.mp hfront
        simp [dropFinalBreak,dropFinalEmpty,intercalate_concat]
    · have hlast : last.getLast? ≠ some '\n' := by
        intro hlast
        exact absurd (h last (by simp) _ (List.mem_of_getLast? hlast)) (by decide)
      have hend : (front.flatMap (· ++ ['\n']) ++ last).getLast? = last.getLast? := by
        rw [List.getLast?_append,Option.or_of_isSome (by simpa using hempty)]
      simp [dropFinalBreak,hend,dropFinalEmpty,hlast,hempty,intercalate_concat]

end Micro86.Text
