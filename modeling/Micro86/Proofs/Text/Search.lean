import Mathlib.Data.List.TakeWhile
import Micro86.Text.Search

/-!
The first occurrence of one text in another: of a single character, and of a text that no earlier
place can be taken for.
-/
namespace Micro86.Text

theorem indexFrom?_singleton (c : Char) (i : Nat) (text : List Char) :
    indexFrom? [c] i text =
      if c ∈ text then some (i+(text.takeWhile (· ≠ c)).length) else none := by
  induction text generalizing i with
  | nil => rfl
  | cons d text ih =>
    unfold indexFrom?
    by_cases hd : d = c
    · simp [hd,List.isPrefixOf]
    · have hne : ¬c = d := fun h => hd h.symm
      simp only [List.isPrefixOf,beq_iff_eq,hne,Bool.and_true,if_false,ih,List.mem_cons,false_or,
        List.takeWhile_cons,hd,ne_eq,not_false_eq_true,decide_true,if_true,List.length_cons]
      split <;> simp only [Option.some.injEq]
      omega

theorem before_of_notMem {c : Char} {text : List Char} (h : c ∉ text) :
    before [c] text = text := by
  simp [before,indexOf?,indexFrom?_singleton,h]

theorem before_singleton (c : Char) (text : List Char) :
    before [c] text = text.takeWhile (· ≠ c) := by
  by_cases hmem : c ∈ text
  · simp only [before,indexOf?,indexFrom?_singleton,hmem,if_true,Nat.zero_add]
    exact (List.prefix_iff_eq_take.mp (List.takeWhile_prefix _)).symm
  · rw [before_of_notMem hmem]
    refine (List.takeWhile_eq_self_iff.mpr ?_).symm
    intro d hd
    simpa using fun h : d = c => hmem (h ▸ hd)

/-- The character that ends a text is not in it. -/
theorem notMem_before (c : Char) (text : List Char) : c ∉ before [c] text := by
  rw [before_singleton]
  intro hmem
  simpa using List.mem_takeWhile_imp hmem

/-- A text before its first `c`, and what stands behind it. -/
theorem before_append {c : Char} {front rest : List Char} (hfront : c ∉ front)
    (hrest : ∀ d ∈ rest.head?, d = c) : before [c] (front ++ rest) = front := by
  have hkeep : ∀ d ∈ front, decide (d ≠ c) = true := by
    intro d hd
    simpa using fun h : d = c => hfront (h ▸ hd)
  rw [before_singleton,List.takeWhile_append_of_pos hkeep]
  cases rest with
  | nil => simp
  | cons d rest => simp [hrest d rfl]

theorem exists_before (c : Char) (text : List Char) :
    ∃ rest, text = before [c] text ++ rest ∧ ∀ d ∈ rest.head?, d = c := by
  refine ⟨text.dropWhile (· ≠ c),?_,?_⟩
  · rw [before_singleton,List.takeWhile_append_dropWhile]
  · intro d hd
    have hstop := List.head?_dropWhile_not (· ≠ c) text
    rw [Option.mem_def.mp hd] at hstop
    simpa using hstop

/-! ### The text before the first occurrence -/

theorem indexFrom?_succ (needle : List Char) (i : Nat) (text : List Char) :
    indexFrom? needle (i+1) text = (indexFrom? needle i text).map (· + 1) := by
  induction text generalizing i with
  | nil => cases needle <;> rfl
  | cons c text ih =>
    rw [indexFrom?,indexFrom?]
    split
    · rfl
    · exact ih (i+1)

theorem before_nil (needle : List Char) : before needle [] = [] := by
  cases needle <;> rfl

theorem before_cons (needle : List Char) (c : Char) (text : List Char) :
    before needle (c :: text) =
      if needle <+: c :: text then [] else c :: before needle text := by
  by_cases hstart : needle <+: c :: text
  · simp [before,indexOf?,indexFrom?, List.isPrefixOf_iff_prefix,hstart]
  · simp only [before,indexOf?,indexFrom?, List.isPrefixOf_iff_prefix,hstart,if_false,
      indexFrom?_succ]
    cases indexFrom? needle 0 text <;> rfl

theorem before_isPrefix (needle text : List Char) : before needle text <+: text := by
  unfold before
  split
  · exact List.take_prefix _ text
  · exact List.prefix_refl text

/-- What stands before the first occurrence has none. -/
theorem before_before (needle text : List Char) :
    before needle (before needle text) = before needle text := by
  induction text with
  | nil => rw [before_nil,before_nil]
  | cons c text ih =>
    rw [before_cons]
    split
    · exact before_nil needle
    · next hstart =>
      have hrest : ¬needle <+: c :: before needle text := fun h =>
        hstart (h.trans ((List.prefix_cons_inj c).mpr (before_isPrefix needle text)))
      rw [before_cons,if_neg hrest,ih]

/-! ### Longer texts -/

/-- The first occurrence is behind `front`, if none starts inside it. -/
theorem indexFrom?_append {needle front rest : List Char}
    (h : ∀ part, part ≠ [] → part <:+ front → ¬needle <+: part ++ (needle ++ rest)) (i : Nat) :
    indexFrom? needle i (front ++ (needle ++ rest)) = some (i+front.length) := by
  induction front generalizing i with
  | nil =>
    cases hrest : needle ++ rest with
    | nil => simp_all [indexFrom?]
    | cons c text =>
      have hstart : needle.isPrefixOf (c :: text) = true := by
        rw [ List.isPrefixOf_iff_prefix,← hrest]
        exact List.prefix_append needle rest
      simp [indexFrom?,hstart]
  | cons c front ih =>
    have hfirst : needle.isPrefixOf (c :: (front ++ (needle ++ rest))) = false := by
      rw [Bool.eq_false_iff,ne_eq, List.isPrefixOf_iff_prefix]
      exact h (c :: front) (List.cons_ne_nil c front) (List.suffix_refl _)
    have htail := ih (fun part hne hpart => h part hne (hpart.trans (List.suffix_cons c front))) (i+1)
    rw [List.cons_append,indexFrom?,hfirst,htail]
    simp only [Bool.false_eq_true,if_false,List.length_cons,Option.some.injEq]
    omega

/-- A text cannot start inside `front` if its first characters, the `mark`, have one that `front`
lacks, and lack the one that `front` ends with. -/
theorem after?_append {needle front rest mark : List Char} {c d : Char} (hmark : mark <+: needle)
    (hc : c ∈ mark) (hfront : c ∉ front) (hlast : front.getLast? = some d) (hd : d ∉ mark) :
    after? needle (front ++ (needle ++ rest)) = some rest := by
  have hnone : ∀ part, part ≠ [] → part <:+ front → ¬needle <+: part ++ (needle ++ rest) := by
    intro part hne hpart hneedle
    have hpartly := List.prefix_append part (needle ++ rest)
    -- the mark lies in `front` with all its characters, or reaches over the end of `front`
    obtain hle | hle := Nat.le_total mark.length part.length
    · have hinside := List.prefix_of_prefix_length_le (hmark.trans hneedle) hpartly hle
      exact hfront (hpart.subset (hinside.subset hc))
    · have hinside := List.prefix_of_prefix_length_le hpartly (hmark.trans hneedle) hle
      have hend : part.getLast? = some d := by
        rw [← hlast]
        obtain ⟨before,rfl⟩ := hpart
        rw [List.getLast?_append,Option.or_of_isSome (by simpa using hne)]
      exact hd (hinside.subset (List.mem_of_getLast? hend))
  rw [after?,indexOf?,indexFrom?_append hnone]
  simp

end Micro86.Text
