import Mathlib.Logic.Embedding.Basic
import Mathlib.Logic.Equiv.Basic
import Micro86.Proofs.Diagnosis
import Micro86.Proofs.InstructionSet.Bundled
import Micro86.Proofs.Program.Acceptance
import Micro86.Proofs.Program.Names
import Micro86.Proofs.Program.Rewording

/-!
Programs with other names. A renaming exchanges the names of labels and variables in all words of a
source, and the labels in front of statements with them. It is injective on all words and leaves
mnemonics and numbers alone, so it is a rewording, and the image is the same.
-/
namespace Micro86

/-- The names that labels and variables of an instruction set can have. -/
def InstructionSet.Name (isa : InstructionSet) : Type := { name : String // isa.isName name = true }

/-- No mnemonic looks like the label of a statement. -/
def InstructionSet.ColonFree (isa : InstructionSet) : Prop :=
  ∀ e ∈ isa.entries, e.mnemonic.toList.getLast? ≠ some ':'

instance (isa : InstructionSet) : Decidable isa.ColonFree :=
  inferInstanceAs (Decidable (∀ e ∈ isa.entries, e.mnemonic.toList.getLast? ≠ some ':'))

instance (isa : InstructionSet) : DecidableEq isa.Name :=
  inferInstanceAs (DecidableEq { name : String // isa.isName name = true })

variable {isa : InstructionSet}

def renameName (r : isa.Name ↪ isa.Name) (name : String) : String :=
  if h : isa.isName name = true then (r ⟨name,h⟩).1 else name

/-- Renames a word that is a name, or a name with a colon behind it. -/
def renameWord (r : isa.Name ↪ isa.Name) (word : String) : String :=
  match (Token.mk word 0).label? with
  | some name => renameName r name ++ ":"
  | none => renameName r word

def Token.rename (r : isa.Name ↪ isa.Name) (t : Token) : Token :=
  { t with value := renameWord r t.value }

/-! ### Names among the words -/

theorem isName_append_colon (name : String) : isa.isName (name ++ ":") = false := by
  cases h : isIdentifier (name ++ ":") with
  | false => rw [InstructionSet.isName,h,Bool.false_and]
  | true =>
    have hmem : ':' ∈ (name ++ ":").toList := by simp [String.toList_append]
    exact absurd ((chars_of_isIdentifier h).2 ':' hmem) (by decide)

theorem label?_append_colon (name : String) : (Token.mk (name ++ ":") 0).label? = some name :=
  Grammar.label?_eq_some_iff.mpr rfl

theorem label?_of_isName {name : String} (h : isa.isName name = true) :
    (Token.mk name 0).label? = none := by
  cases hlabel : (Token.mk name 0).label? with
  | none => rfl
  | some stem =>
    obtain rfl : name = stem ++ ":" := Grammar.label?_eq_some_iff.mp hlabel
    rw [isName_append_colon] at h
    cases h

theorem not_reserved_of_isName {name : String} (h : isa.isName name = true) :
    name ≠ InstructionSet.keyword ∧ isa.byMnemonic? name = none := by
  obtain ⟨-,h⟩ := (Bool.and_eq_true _ _).mp h
  simpa [InstructionSet.isReserved,InstructionSet.isMnemonic] using h

theorem byMnemonic?_append_colon (hisa : isa.ColonFree) (name : String) :
    isa.byMnemonic? (name ++ ":") = none := by
  cases h : isa.byMnemonic? (name ++ ":") with
  | none => rfl
  | some e =>
    obtain ⟨hmem,hname⟩ := InstructionSet.mem_of_byMnemonic? h
    have hlast := hisa e hmem
    rw [hname,String.toList_append] at hlast
    exact absurd (by simp) hlast

theorem readLiteral_of_isName {name : String} (h : isa.isName name = true) :
    Text.readLiteral name.toList = .ok none := by
  obtain ⟨⟨c,hc,hfirst⟩,-⟩ := chars_of_isIdentifier ((Bool.and_eq_true _ _).mp h).1
  have hrange : 65 ≤ c.toNat := by
    obtain hfirst | hfirst := (Bool.or_eq_true _ _).mp hfirst
    · have halpha := toNat_of_isAlpha hfirst
      omega
    · rw [of_decide_eq_true hfirst]
      decide
  have hne : ∀ d : Char, d.toNat < 65 → c ≠ d := by
    rintro d hd rfl
    omega
  refine Text.readLiteral_of_mem hc ?_ (hne _ (by decide)) (hne _ (by decide)) (hne _ (by decide))
  by_contra hdigit
  have hsmall := Text.toNat_of_isDecimalDigit (eq_true_of_ne_false hdigit)
  omega

theorem readLiteral_append_colon (name : String) :
    Text.readLiteral (name ++ ":").toList = .ok none :=
  Text.readLiteral_of_mem (c := ':') (by simp [String.toList_append]) (by decide) (by decide)
    (by decide) (by decide)

section
variable (r : isa.Name ↪ isa.Name)

theorem isName_renameName (name : String) : isa.isName (renameName r name) = isa.isName name := by
  unfold renameName
  split
  · next h => rw [h,(r ⟨name,h⟩).2]
  · rfl

theorem renameName_injective : Function.Injective (renameName r) := by
  intro a b h
  have hkind : isa.isName a = isa.isName b := by
    rw [← isName_renameName r a,h,isName_renameName]
  unfold renameName at h
  split at h
  · next ha =>
    have hb : isa.isName b = true := hkind.symm.trans ha
    rw [dif_pos hb] at h
    exact congrArg Subtype.val (r.injective (Subtype.ext h))
  · next ha =>
    rw [hkind] at ha
    rwa [dif_neg ha] at h

theorem renameWord_append_colon (name : String) :
    renameWord r (name ++ ":") = renameName r name ++ ":" := by
  rw [renameWord,label?_append_colon]

theorem renameWord_of_isName {name : String} (h : isa.isName name = true) :
    renameWord r name = renameName r name := by
  rw [renameWord,label?_of_isName h]

/-- A word is a name, a name with a colon, or stays as it is. -/
theorem renameWord_cases (word : String) :
    (isa.isName word = true ∧ isa.isName (renameWord r word) = true) ∨
      (∃ stem, word = stem ++ ":" ∧ renameWord r word = renameName r stem ++ ":") ∨
      renameWord r word = word ∧ (Token.mk word 0).label? = none := by
  cases hlabel : (Token.mk word 0).label? with
  | some stem =>
    obtain rfl : word = stem ++ ":" := Grammar.label?_eq_some_iff.mp hlabel
    exact .inr (.inl ⟨stem,rfl,renameWord_append_colon r stem⟩)
  | none =>
    have hword : renameWord r word = renameName r word := by rw [renameWord,hlabel]
    cases h : isa.isName word with
    | true =>
      rw [hword,isName_renameName]
      exact .inl ⟨rfl,h⟩
    | false =>
      rw [hword,renameName,dif_neg (by simp [h])]
      exact .inr (.inr ⟨rfl,rfl⟩)

/-- What is the same for all names and for all labels is the same for the renamed word. -/
theorem apply_renameWord {α : Type} {f : String → α} {a : α}
    (hname : ∀ name, isa.isName name = true → f name = a) (hlabel : ∀ stem, f (stem ++ ":") = a)
    (word : String) : f (renameWord r word) = f word := by
  obtain ⟨hword,hrenamed⟩ | ⟨stem,rfl,hrenamed⟩ | ⟨hrenamed,-⟩ := renameWord_cases r word
  · rw [hname _ hword,hname _ hrenamed]
  · rw [hrenamed,hlabel,hlabel]
  · rw [hrenamed]

theorem byMnemonic?_renameWord (hisa : isa.ColonFree) (word : String) :
    isa.byMnemonic? (renameWord r word) = isa.byMnemonic? word :=
  apply_renameWord r (fun _ h => (not_reserved_of_isName h).2) (byMnemonic?_append_colon hisa) word

theorem readLiteral_renameWord (word : String) :
    Text.readLiteral (renameWord r word).toList = Text.readLiteral word.toList :=
  apply_renameWord r (fun _ h => readLiteral_of_isName h) readLiteral_append_colon word

theorem renameWord_eq_keyword (word : String) :
    renameWord r word = InstructionSet.keyword ↔ word = InstructionSet.keyword := by
  have hcolon : ∀ stem, (stem ++ ":" = InstructionSet.keyword) = False := by
    intro stem
    refine eq_false fun h => ?_
    have hlabel : (Token.mk InstructionSet.keyword 0).label? = some stem :=
      Grammar.label?_eq_some_iff.mpr h.symm
    cases hlabel
  exact iff_of_eq (apply_renameWord r (f := (· = InstructionSet.keyword))
    (fun _ h => eq_false (not_reserved_of_isName h).1) hcolon word)

theorem isName_renameWord (word : String) : isa.isName (renameWord r word) = isa.isName word := by
  obtain ⟨hword,hrenamed⟩ | ⟨stem,rfl,hrenamed⟩ | ⟨hrenamed,-⟩ := renameWord_cases r word
  · rw [hword,hrenamed]
  · rw [hrenamed,isName_append_colon,isName_append_colon]
  · rw [hrenamed]

theorem label?_renameWord (word : String) :
    (Token.mk (renameWord r word) 0).label? = (Token.mk word 0).label?.map (renameName r) := by
  obtain ⟨hword,hrenamed⟩ | ⟨stem,rfl,hrenamed⟩ | ⟨hrenamed,hnone⟩ := renameWord_cases r word
  · rw [label?_of_isName hword,label?_of_isName hrenamed]
    rfl
  · rw [hrenamed,label?_append_colon,label?_append_colon]
    rfl
  · rw [hrenamed,hnone]
    rfl

theorem renameWord_injective : Function.Injective (renameWord r) := by
  intro a b h
  have hlabel : (Token.mk a 0).label? = (Token.mk b 0).label? := by
    refine Option.map_injective (renameName_injective r) ?_
    rw [← label?_renameWord,← label?_renameWord,h]
  cases hb : (Token.mk b 0).label? with
  | some stem =>
    rw [hb] at hlabel
    exact (Grammar.label?_eq_some_iff.mp hlabel).trans (Grammar.label?_eq_some_iff.mp hb).symm
  | none =>
    rw [renameWord,renameWord,hlabel,hb] at h
    exact renameName_injective r h

/-! ### The image of a source -/

def Rewording.renaming (hisa : isa.ColonFree) : Rewording isa where
  word := renameWord r
  stem := renameName r
  line := id
  injective := renameWord_injective r
  isName_word := isName_renameWord r
  isName_stem := isName_renameName r
  stem_of_isName := fun _ h => (renameWord_of_isName r h).symm
  byMnemonic?_word := byMnemonic?_renameWord r hisa
  word_eq_keyword := renameWord_eq_keyword r
  readLiteral_word := readLiteral_renameWord r
  label?_word := label?_renameWord r

end

theorem ParseError.kind_reword (r : Rewording isa) (e : ParseError) :
    (e.reword r).kind = e.kind := by
  cases e with
  | digits e => rfl
  | fault cause token => cases cause <;> rfl

theorem ImageError.kind_reword (r : Rewording isa) (e : ImageError) :
    (e.reword r).kind = e.kind := by
  cases e with
  | range e line => rfl
  | resolve e => cases e <;> rfl

namespace Image
open Command.Assemble (Failure)

/-- The image of a source. -/
def ofTokens (isa : InstructionSet) (tokens : List Token) : Except Failure Image := do
  let p ← (Program.parse isa tokens).mapError .parse
  (ofProgram isa p).mapError .image

theorem ofTokens_reword (r : Rewording isa) (tokens : List Token) :
    Follows Failure.kind id (ofTokens isa tokens) (ofTokens isa (tokens.map (Token.reword r))) := by
  have hparse : Follows Failure.kind (Program.reword r)
      ((Program.parse isa tokens).mapError .parse)
      ((Program.parse isa (tokens.map (Token.reword r))).mapError .parse) :=
    Follows.wrap (Program.parse_reword r (ParseError.kind_reword r) tokens)
  exact hparse.bind fun p _ => Follows.wrap (ofProgram_reword r (ImageError.kind_reword r) p)

/-- A source and the source with other names, different ones for different names, have the same
image, or both have none for the same kind of reason. -/
theorem same_of_renamed (hisa : isa.ColonFree) (r : isa.Name ↪ isa.Name) (tokens : List Token) :
    (∃ image, ofTokens isa tokens = .ok image ∧
      ofTokens isa (tokens.map (Token.rename r)) = .ok image) ∨
    ∃ e d, ofTokens isa tokens = .error e ∧ ofTokens isa (tokens.map (Token.rename r)) = .error d ∧
      e.diagnosis.kind = d.diagnosis.kind := by
  have hrename : Token.rename r = Token.reword (.renaming r hisa) := rfl
  rw [hrename]
  obtain ⟨image,hsource,hrenamed⟩ | h := (ofTokens_reword (.renaming r hisa) tokens).ok_or_error
  · exact .inl ⟨image,hsource,hrenamed⟩
  · exact .inr h

/-- Two names change places, one of them a label and a variable at once. -/
theorem same_of_swapped_names :
    let source := ["n:","LOAD","n","STORE","m","JMPI","n","VAR","n","7","VAR","m","8"]
    let renamed := ["m:","LOAD","m","STORE","n","JMPI","m","VAR","m","7","VAR","n","8"]
    let image : Image := ⟨[0x02020003,0x03020004,0x0A010000],[7,8]⟩
    InstructionSet.bundled.ColonFree ∧
      ∃ r : InstructionSet.bundled.Name ↪ InstructionSet.bundled.Name,
        (source.map (⟨·,1⟩)).map (Token.rename r) = renamed.map (⟨·,1⟩) ∧
        ofTokens InstructionSet.bundled (source.map (⟨·,1⟩)) = .ok image ∧
        ofTokens InstructionSet.bundled (renamed.map (⟨·,1⟩)) = .ok image := by
  intro source renamed image
  rw [InstructionSet.bundled_eq]
  let isa : InstructionSet := ⟨InstructionSet.bundledSource,InstructionSet.bundledEntries⟩
  have hisa : isa.ColonFree := by decide +kernel
  let r : isa.Name ↪ isa.Name :=
    (Equiv.swap ⟨"n",by decide +kernel⟩ ⟨"m",by decide +kernel⟩).toEmbedding
  have hrename : (source.map (⟨·,1⟩)).map (Token.rename r) = renamed.map (⟨·,1⟩) := by
    decide +kernel
  have hsource : ofTokens isa (source.map (⟨·,1⟩)) = .ok image := by decide +kernel
  refine ⟨hisa,r,hrename,hsource,?_⟩
  rw [← hrename]
  obtain ⟨other,hother,hrenamed⟩ | ⟨e,d,herror,-⟩ := same_of_renamed hisa r (source.map (⟨·,1⟩))
  · rw [hrenamed,← hother,hsource]
  · rw [hsource] at herror
    cases herror

end Image
end Micro86
