import Mathlib.Data.List.Forall2
import Mathlib.Data.List.ReduceOption
import Mathlib.Data.Nat.Digits.Defs
import Micro86.Proofs.Listing

/-!
The grammar of listings. A line holds a word of one to eight hexadecimal digits or nothing at all,
with blanks around it and perhaps a comment behind it. Main statement: a text is read exactly if all
its lines are such, and to their words; otherwise the first line that is not is reported.
-/
namespace Micro86

namespace Text

/-! ### Numbers in base sixteen -/

/-- A character stands for its place among the sixteen digits, small or capital. -/
def StandsFor (c : Char) (digit : Nat) : Prop :=
  "0123456789abcdef".toList[digit]? = some c ∨ "0123456789ABCDEF".toList[digit]? = some c

instance (c : Char) (digit : Nat) : Decidable (StandsFor c digit) :=
  inferInstanceAs (Decidable (_ ∨ _))

/-- Digits from the most significant on, and the number that they make in base sixteen. -/
def Numeral (text : List Char) (n : Nat) : Prop :=
  ∃ digits, List.Forall₂ StandsFor text digits ∧ n = Nat.ofDigits 16 digits.reverse

theorem StandsFor.lt {c : Char} {digit : Nat} (h : StandsFor c digit) : digit < 16 := by
  obtain h | h := h
  · exact (List.getElem?_eq_some_iff.mp h).1
  · exact (List.getElem?_eq_some_iff.mp h).1

theorem hexDigit?_eq_some {c : Char} {digit : Nat} :
    hexDigit? c = some digit ↔ StandsFor c digit := by
  constructor
  · intro h
    have hcodes : ∀ n < 103, ∀ d ∈ hexDigit? (Char.ofNat n), StandsFor (Char.ofNat n) d := by
      decide +kernel
    have hc : isHexDigit c = true := by rw [isHexDigit,h,Option.isSome_some]
    obtain ⟨n,hn,rfl⟩ := exists_code_of_isHexDigit hc
    exact hcodes n hn digit h
  · intro h
    have hsmall : ∀ d < 16, "0123456789abcdef".toList[d]?.bind hexDigit? = some d := by decide
    have hcapital : ∀ d < 16, "0123456789ABCDEF".toList[d]?.bind hexDigit? = some d := by decide
    have hlt := h.lt
    obtain hc | hc := h
    · rw [← hsmall digit hlt,hc,Option.bind_some]
    · rw [← hcapital digit hlt,hc,Option.bind_some]

theorem forall₂_standsFor {text : List Char} {digits : List Nat} :
    List.Forall₂ StandsFor text digits ↔
      (∀ c ∈ text, isHexDigit c = true) ∧ text.filterMap hexDigit? = digits := by
  constructor
  · intro h
    induction h with
    | nil => simp
    | cons hc _ ih =>
      have hdigit := hexDigit?_eq_some.mpr hc
      refine ⟨List.forall_mem_cons.mpr ⟨?_,ih.1⟩,?_⟩
      · rw [isHexDigit,hdigit,Option.isSome_some]
      · rw [List.filterMap_cons_some hdigit,ih.2]
  · rintro ⟨h,rfl⟩
    induction text with
    | nil => exact .nil
    | cons c text ih =>
      obtain ⟨hc,hrest⟩ := List.forall_mem_cons.mp h
      obtain ⟨digit,hdigit⟩ := Option.isSome_iff_exists.mp hc
      rw [List.filterMap_cons_some hdigit]
      exact .cons (hexDigit?_eq_some.mp hdigit) (ih hrest)

theorem ofDigits_eq (base : Nat) (digits : List Nat) :
    ofDigits base digits = Nat.ofDigits base digits.reverse := by
  rw [ofDigits,Nat.ofDigits_eq_foldr,List.foldr_reverse]
  congr 1
  funext n d
  simp [Nat.mul_comm,Nat.add_comm]

theorem numeral_iff {text : List Char} {n : Nat} :
    Numeral text n ↔ (∀ c ∈ text, isHexDigit c = true) ∧ hexValue text = n := by
  constructor
  · rintro ⟨digits,hdigits,rfl⟩
    obtain ⟨htext,rfl⟩ := forall₂_standsFor.mp hdigits
    exact ⟨htext,ofDigits_eq 16 _⟩
  · rintro ⟨htext,rfl⟩
    exact ⟨text.filterMap hexDigit?,forall₂_standsFor.mpr ⟨htext,rfl⟩,ofDigits_eq 16 _⟩

theorem Numeral.lt {text : List Char} {n : Nat} (h : Numeral text n) : n < 16^text.length := by
  obtain ⟨digits,hdigits,rfl⟩ := h
  have hsmall : ∀ digit ∈ digits, digit < 16 := by
    intro digit hdigit
    obtain ⟨i,hi,rfl⟩ := List.mem_iff_getElem.mp hdigit
    exact (hdigits.get (by rw [hdigits.length_eq]; exact hi) hi).lt
  rw [hdigits.length_eq,← List.length_reverse]
  exact Nat.ofDigits_lt_base_pow_length (by decide) (by simpa using hsmall)

end Text

namespace Listing

/-! ### Lines -/

/-- A line, and the word that it holds if it holds one. -/
inductive Holds : List Char → Option Nat → Prop
  | nothing {blanks comment : List Char} (hblanks : ∀ c ∈ blanks, Text.isBlank c = true)
      (hcomment : IsComment comment) : Holds (blanks ++ comment) none
  | word {left digits right comment : List Char} {n : Nat}
      (hleft : ∀ c ∈ left, Text.isBlank c = true) (hne : digits ≠ []) (hlength : digits.length ≤ 8)
      (hdigits : Text.Numeral digits n) (hright : ∀ c ∈ right, Text.isBlank c = true)
      (hcomment : IsComment comment) :
      Holds (left ++ (digits ++ (right ++ comment))) (some n)

/-- Nothing but blanks and a comment is taken off a line. -/
theorem exists_content (line : List Char) :
    ∃ left right comment, line = left ++ (content line ++ (right ++ comment)) ∧
      (∀ c ∈ left, Text.isBlank c = true) ∧ (∀ c ∈ right, Text.isBlank c = true) ∧
      IsComment comment := by
  obtain ⟨comment,hline,hcomment⟩ := Text.exists_before '#' line
  obtain ⟨left,right,hbefore,hleft,hright⟩ := Text.exists_trim (Text.before ['#'] line)
  refine ⟨left,right,comment,?_,hleft,hright,hcomment⟩
  calc
    line = Text.before ['#'] line ++ comment := hline
    _ = left ++ (content line ++ right) ++ comment := congrArg (· ++ comment) hbefore
    _ = left ++ (content line ++ (right ++ comment)) := by simp only [List.append_assoc]

/-- Lines that hold a word or nothing are the readable ones. -/
theorem holds_iff {line : List Char} {held : Option Nat} :
    Holds line held ↔ Readable line ∧ word? line = held := by
  constructor
  · intro h
    cases h with
    | @nothing blanks comment hblanks hcomment =>
      have hcontent : content (blanks ++ comment) = [] :=
        content_append hblanks (List.forall_mem_nil _) (List.forall_mem_nil _) hcomment
      exact ⟨.inl hcontent,by simp [word?,hcontent]⟩
    | @word left digits right comment n hleft hne hlength hdigits hright hcomment =>
      obtain ⟨hhex,rfl⟩ := Text.numeral_iff.mp hdigits
      have hcontent := content_append hleft hhex hright hcomment
      have hword : isWord digits = true := isWord_iff.mpr ⟨hne,hlength,hhex⟩
      exact ⟨.inr (hcontent.symm ▸ hword),by simp [word?,hcontent,hne]⟩
  · rintro ⟨hread,rfl⟩
    obtain ⟨left,right,comment,hline,hleft,hright,hcomment⟩ := exists_content line
    obtain hempty | hword := hread
    · have hnone : word? line = none := by simp [word?,hempty]
      rw [hempty,List.nil_append,← List.append_assoc] at hline
      rw [hnone,hline]
      exact .nothing (List.forall_mem_append.mpr ⟨hleft,hright⟩) hcomment
    · obtain ⟨hne,hlength,hhex⟩ := isWord_iff.mp hword
      have hsome : word? line = some (Text.hexValue (content line)) := by simp [word?,hne]
      have hdigits := Text.numeral_iff.mpr ⟨hhex,rfl⟩
      rw [hsome]
      generalize content line = digits at hline hne hlength hdigits
      rw [hline]
      exact .word hleft hne hlength hdigits hright hcomment

theorem exists_holds_iff {line : List Char} : (∃ held, Holds line held) ↔ Readable line := by
  simp only [holds_iff,exists_and_left,exists_eq',and_true]

theorem Holds.lt {line : List Char} {n : Nat} (h : Holds line (some n)) : n < 0x100000000 := by
  cases h with
  | word _ _ hlength hdigits _ _ =>
    exact Nat.lt_of_lt_of_le hdigits.lt (Nat.pow_le_pow_right (by decide) hlength)

/-- On a line of one word the loose reader reads that word. -/
theorem exists_holds_of_isWord {line : List Char} (h : isWord (content line) = true) :
    ∃ n, Holds line (some n) ∧ Word.parse (content line) = .ok (n : Int) := by
  obtain ⟨hne,-,hhex⟩ := isWord_iff.mp h
  refine ⟨Text.hexValue (content line),holds_iff.mpr ⟨.inr h,?_⟩,Word.parse_of_hexDigits hne hhex⟩
  simp [word?,hne]

/-! ### Texts -/

/-- Lines are readable up to the first that is not. -/
theorem readable_or_first (ls : List (List Char)) :
    (∀ l ∈ ls, Readable l) ∨ ∃ before raw behind, ls = before ++ raw :: behind ∧
      (∀ l ∈ before, Readable l) ∧ ¬Readable raw := by
  induction ls with
  | nil => exact .inl (List.forall_mem_nil _)
  | cons l ls ih =>
    by_cases hl : Readable l
    · obtain hall | ⟨before,raw,behind,rfl,hbefore,hraw⟩ := ih
      · exact .inl (List.forall_mem_cons.mpr ⟨hl,hall⟩)
      · exact .inr ⟨l :: before,raw,behind,rfl,List.forall_mem_cons.mpr ⟨hl,hbefore⟩,hraw⟩
    · exact .inr ⟨[],l,ls,rfl,List.forall_mem_nil _,hl⟩

theorem parse_of_not_readable {text raw : List Char} {before behind : List (List Char)}
    (hlines : Text.lines text = before ++ raw :: behind) (hbefore : ∀ l ∈ before, Readable l)
    (hraw : ¬Readable raw) (source : String) :
    parse source text = .error ⟨before.length+1,raw,source⟩ := by
  have hfront : ∀ l ∈ before.zipIdx 1, Readable l.1 := fun l hl =>
    hbefore l.1 (List.fst_mem_of_mem_zipIdx hl)
  rw [parse,Text.numberedLines,hlines,List.zipIdx_append,List.zipIdx_cons,wordsFrom_append _ hfront,
    wordsFrom_of_not_readable hraw,Nat.add_comm]

theorem forall₂_holds {ls : List (List Char)} (h : ∀ l ∈ ls, Readable l) :
    List.Forall₂ Holds ls (ls.map word?) := by
  rw [List.forall₂_map_right_iff,List.forall₂_same]
  intro l hl
  exact holds_iff.mpr ⟨h l hl,rfl⟩

/-- Listings are read line by line. A text is accepted exactly if every line holds a word or
nothing, and to the words in their order, all of thirty-two bits; otherwise the error has the number,
counted from one, and the whole text of the first line that holds neither. On the content of a line
with the form of a word, the loose reader of numbers does not fail, and it reads the word that the
line holds. -/
theorem parse_accepts_held_words (source : String) (text : List Char) :
    ((∃ words, parse source text = .ok words) ↔
      ∀ raw ∈ Text.lines text, ∃ held, Holds raw held) ∧
    (∀ words, parse source text = .ok words →
      (∃ held, List.Forall₂ Holds (Text.lines text) held ∧ words = held.reduceOption) ∧
      ∀ w ∈ words, w < 0x100000000) ∧
    (∀ error, parse source text = .error error → ∃ before raw behind,
      Text.lines text = before ++ raw :: behind ∧ (∀ l ∈ before, ∃ held, Holds l held) ∧
      (∀ held, ¬Holds raw held) ∧ error = ⟨before.length+1,raw,source⟩) ∧
    ∀ raw, isWord (content raw) = true →
      ∃ n, Holds raw (some n) ∧ Word.parse (content raw) = .ok (n : Int) := by
  simp only [exists_holds_iff]
  obtain hall | ⟨before,raw,behind,hlines,hbefore,hraw⟩ := readable_or_first (Text.lines text)
  · have hparse : parse source text = .ok ((Text.lines text).filterMap word?) :=
      parse_of_readable hall
    refine ⟨⟨fun _ => hall,fun _ => ⟨_,hparse⟩⟩,?_,?_,fun _ => exists_holds_of_isWord⟩
    · intro words hwords
      obtain rfl := Except.ok.inj (hparse.symm.trans hwords)
      refine ⟨⟨(Text.lines text).map word?,forall₂_holds hall,?_⟩,?_⟩
      · rw [List.reduceOption,List.filterMap_map]
        rfl
      · intro w hw
        obtain ⟨raw,hraw,hword⟩ := List.mem_filterMap.mp hw
        exact (holds_iff.mpr ⟨hall raw hraw,hword⟩).lt
    · intro error herror
      cases hparse.symm.trans herror
  · have hparse := parse_of_not_readable hlines hbefore hraw source
    refine ⟨⟨?_,?_⟩,?_,?_,fun _ => exists_holds_of_isWord⟩
    · rintro ⟨words,hwords⟩
      cases hparse.symm.trans hwords
    · intro hall
      exact absurd (hall raw (by simp [hlines])) hraw
    · intro words hwords
      cases hparse.symm.trans hwords
    · intro error herror
      obtain rfl := Except.error.inj (hparse.symm.trans herror)
      exact ⟨before,raw,behind,hlines,hbefore,fun held h => hraw (exists_holds_iff.mp ⟨held,h⟩),rfl⟩

/-- The loose reader alone takes more than digits. -/
example : Word.parse "-0x_1_F".toList = .ok (-0x1F) ∧
    parse "list" "1f # good\n\n -0x_1_F".toList = .error ⟨3," -0x_1_F".toList,"list"⟩ := by
  decide +kernel

end Listing
end Micro86
