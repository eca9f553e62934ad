import Micro86.Proofs.Text.Line
import Micro86.Text.Blank

/-!
Words of a text. They have no blank inside them, and words with one space between any two of
them are read back.
-/
namespace Micro86.Text

/-- What stands between blanks. -/
def IsWord (word : List Char) : Prop := word ≠ [] ∧ ∀ c ∈ word, isBlank c = false

instance (word : List Char) : Decidable (IsWord word) :=
  decidable_of_iff ((!word.isEmpty && word.all (!isBlank ·)) = true) (by simp [IsWord])

theorem isBlank_of_isLineBreak {c : Char} (h : isLineBreak c = true) : isBlank c = true := by
  simp [isBlank,h]

theorem unbroken_of_not_blank {line : String} (h : ∀ c ∈ line.toList, isBlank c = false) :
    Unbroken line := by
  intro c hc
  rw [Bool.eq_false_iff]
  intro hbreak
  have hblank := h c hc
  rw [isBlank_of_isLineBreak hbreak] at hblank
  simp at hblank

/-- The visible characters of ASCII are not blank. -/
theorem isBlank_of_ascii {c : Char} (hlo : 0x21 ≤ c.toNat) (hhi : c.toNat ≤ 0x7E) :
    isBlank c = false := by
  rw [Bool.eq_false_iff]
  intro hblank
  simp only [isBlank,isLineBreak,List.contains_cons,List.contains_nil,Bool.or_eq_true,
    Bool.and_eq_true,beq_iff_eq,decide_eq_true_eq,Bool.or_false] at hblank
  omega

theorem dropWhile_of_not_blank {text : List Char} (h : ∀ c ∈ text, isBlank c = false) :
    text.dropWhile isBlank = text := by
  cases text with
  | nil => rfl
  | cons c text => simp [h c List.mem_cons_self]

theorem trim_of_not_blank {text : List Char} (h : ∀ c ∈ text, isBlank c = false) :
    trim text = text := by
  rw [trim,dropWhile_of_not_blank h,dropWhile_of_not_blank (by simpa using h),List.reverse_reverse]

/-- Blanks around a text without blanks are taken off. -/
theorem trim_append {left core right : List Char} (hleft : ∀ c ∈ left, isBlank c = true)
    (hcore : ∀ c ∈ core, isBlank c = false) (hright : ∀ c ∈ right, isBlank c = true) :
    trim (left ++ (core ++ right)) = core := by
  rw [trim,List.dropWhile_append_of_pos hleft]
  cases core with
  | nil =>
    have hall : right.dropWhile isBlank = [] := by
      rw [← List.append_nil right,List.dropWhile_append_of_pos hright,List.dropWhile_nil]
    rw [List.nil_append,hall]
    rfl
  | cons c core =>
    have hstart : (c :: core ++ right).dropWhile isBlank = c :: core ++ right := by
      simp [hcore c List.mem_cons_self]
    have hend : (c :: core).reverse.dropWhile isBlank = (c :: core).reverse :=
      dropWhile_of_not_blank fun d hd => hcore d (List.mem_reverse.mp hd)
    rw [hstart,List.reverse_append,List.dropWhile_append_of_pos (by simpa using hright),hend,
      List.reverse_reverse]

/-- Nothing but blanks is taken off. -/
theorem exists_trim (text : List Char) :
    ∃ left right, text = left ++ (trim text ++ right) ∧ (∀ c ∈ left, isBlank c = true) ∧
      ∀ c ∈ right, isBlank c = true := by
  have hblank : ∀ cs : List Char, ∀ c ∈ cs.takeWhile isBlank, isBlank c = true := fun cs =>
    List.all_eq_true.mp List.all_takeWhile
  refine ⟨text.takeWhile isBlank,((text.dropWhile isBlank).reverse.takeWhile isBlank).reverse,
    ?_,hblank text,by simpa using hblank _⟩
  rw [trim,← List.reverse_append,List.takeWhile_append_dropWhile,List.reverse_reverse,
    List.takeWhile_append_dropWhile]

/-- The parts of a text hold its elements, without those that it is split at. -/
theorem mem_of_mem_splitOnP {α : Type} {p : α → Bool} {text part : List α}
    (h : part ∈ text.splitOnP p) : ∀ a ∈ part, a ∈ text ∧ p a = false := by
  induction text generalizing part with
  | nil =>
    obtain rfl : part = [] := by simpa using h
    simp
  | cons c text ih =>
    have htail : ∀ part ∈ text.splitOnP p, ∀ a ∈ part, a ∈ c :: text ∧ p a = false := by
      intro part hpart a ha
      obtain ⟨hmem,hp⟩ := ih hpart a ha
      exact ⟨List.mem_cons_of_mem c hmem,hp⟩
    obtain ⟨first,rest,hparts⟩ := List.exists_cons_of_ne_nil (List.splitOnP_ne_nil p text)
    rw [List.splitOnP_cons_eq_if_modifyHead,hparts] at h
    rw [hparts] at htail
    by_cases hc : p c = true
    · rw [if_pos hc] at h
      obtain rfl | h := List.mem_cons.mp h
      · simp
      · exact htail part h
    · rw [if_neg hc,List.modifyHead_cons] at h
      obtain rfl | h := List.mem_cons.mp h
      · intro a ha
        obtain rfl | ha := List.mem_cons.mp ha
        · exact ⟨List.mem_cons_self,by simpa using hc⟩
        · exact htail first List.mem_cons_self a ha
      · exact htail part (List.mem_cons_of_mem first h)

theorem isWord_of_mem_words {text word : List Char} (h : word ∈ words text) : IsWord word := by
  obtain ⟨hmem,hne⟩ := List.mem_filter.mp h
  exact ⟨by simpa using hne,fun c hc => (mem_of_mem_splitOnP hmem c hc).2⟩

theorem mem_of_mem_words {text word : List Char} (h : word ∈ words text) {c : Char}
    (hc : c ∈ word) : c ∈ text :=
  (mem_of_mem_splitOnP (List.mem_filter.mp h).1 c hc).1

/-- A blank keeps the words on its two sides apart. -/
theorem words_append_cons {c : Char} (h : isBlank c = true) (text rest : List Char) :
    words (text ++ c :: rest) = words text ++ words rest := by
  rw [words,List.splitOnP_append_cons text rest h,List.filter_append]
  rfl

/-- Words with single spaces between them. -/
def unwords (ws : List String) : String :=
  String.ofList ([' '].intercalate (ws.map String.toList))

theorem words_intercalate {ws : List (List Char)} (h : ∀ w ∈ ws, IsWord w) :
    words ([' '].intercalate ws) = ws := by
  have hspace : isBlank ' ' = true := by decide
  induction ws with
  | nil => rfl
  | cons w ws ih =>
    obtain ⟨hne,hw⟩ := h w List.mem_cons_self
    cases ws with
    | nil =>
      rw [List.intercalate_singleton,words,List.splitOnP_eq_singleton hw]
      simp [hne]
    | cons v ws =>
      have htail := ih fun u hu => h u (List.mem_cons_of_mem w hu)
      rw [List.intercalate_cons_cons,List.append_assoc,List.singleton_append,words,
        List.splitOnP_append_cons_of_forall_mem hw _ hspace,List.filter_cons]
      rw [words] at htail
      simp [hne,htail]

theorem words_unwords {ws : List String} (h : ∀ w ∈ ws, IsWord w.toList) :
    words (unwords ws).toList = ws.map String.toList := by
  rw [unwords,String.toList_ofList]
  apply words_intercalate
  simpa using h

theorem mem_unwords {ws : List String} {c : Char} (h : c ∈ (unwords ws).toList) :
    c = ' ' ∨ ∃ w ∈ ws, c ∈ w.toList := by
  rw [unwords,String.toList_ofList] at h
  induction ws with
  | nil => simp at h
  | cons w ws ih =>
    cases ws with
    | nil => exact .inr ⟨w,List.mem_cons_self,by simpa using h⟩
    | cons v ws =>
      rw [List.map_cons,List.map_cons,List.intercalate_cons_cons] at h
      simp only [List.mem_append,List.mem_singleton] at h
      obtain (h | rfl) | h := h
      · exact .inr ⟨w,List.mem_cons_self,h⟩
      · exact .inl rfl
      · obtain hspace | ⟨u,hu,hc⟩ := ih h
        · exact .inl hspace
        · exact .inr ⟨u,List.mem_cons_of_mem w hu,hc⟩

/-- A line of words has no break inside it. -/
theorem unwords_unbroken {ws : List String} (h : ∀ w ∈ ws, IsWord w.toList) :
    Unbroken (unwords ws) := by
  intro c hc
  obtain rfl | ⟨w,hw,hc⟩ := mem_unwords hc
  · decide
  · exact unbroken_of_not_blank (h w hw).2 c hc

end Micro86.Text
