import Micro86.Banner
import Micro86.Proofs.Fallible
import Micro86.Proofs.Text.Numeral
import Micro86.Proofs.Text.Search

/-!
Banners line by line. What a banner puts around a text are whole lines, and no number or date
in them breaks a line. A banner can be put on if its numbers can be written, and taking it off gives
back the text that it was put around, whatever that text is.
-/
namespace Micro86.Banner

variable {kind : BannerKind} {c : Circumstances} {body : String}

/-! ### The numbers of a header -/

/-- Every number of the circumstances has few enough digits to be written. -/
structure Writable (c : Circumstances) : Prop where
  elapsed : Text.decimalLength c.elapsed ≤ Text.maxDecimalDigits
  count : Text.decimalLength c.count ≤ Text.maxDecimalDigits
  vars : Text.decimalLength c.vars ≤ Text.maxDecimalDigits

/-- The circumstances in digits. -/
def figures (c : Circumstances) : Figures :=
  ⟨Text.decimal c.count,Text.decimal c.vars,Text.decimal c.elapsed,c.now.render⟩

theorem wrap_of_writable (h : Writable c) : wrap kind c body = .ok (frame kind (figures c) body) := by
  have helapsed : Text.writable c.elapsed = .ok ⟨c.elapsed,h.elapsed⟩ := Text.writable_eq_ok.mpr rfl
  have hcount : Text.writable c.count = .ok ⟨c.count,h.count⟩ := Text.writable_eq_ok.mpr rfl
  have hvars : Text.writable c.vars = .ok ⟨c.vars,h.vars⟩ := Text.writable_eq_ok.mpr rfl
  rw [wrap,helapsed,hcount,hvars]
  rfl

theorem writable_of_wrap {text : String} (h : wrap kind c body = .ok text) : Writable c := by
  obtain ⟨elapsed,helapsed,h⟩ := bind_eq_ok.mp h
  obtain ⟨count,hcount,h⟩ := bind_eq_ok.mp h
  obtain ⟨vars,hvars,-⟩ := bind_eq_ok.mp h
  rw [Text.writable_eq_ok] at helapsed hcount hvars
  exact ⟨helapsed ▸ elapsed.short,hcount ▸ count.short,hvars ▸ vars.short⟩

/-- A banner that cannot be put on has a number of too many digits. -/
theorem wrap_eq_error {e : Text.Unwritable} (h : wrap kind c body = .error e) :
    e.value ∈ [c.elapsed,c.count,c.vars] ∧
      Text.maxDecimalDigits < Text.decimalLength e.value := by
  have hnumber : ∃ n ∈ [c.elapsed,c.count,c.vars], Text.writable n = .error e := by
    obtain h | ⟨elapsed,-,h⟩ := bind_eq_error.mp h
    · exact ⟨c.elapsed,by simp,h⟩
    obtain h | ⟨count,-,h⟩ := bind_eq_error.mp h
    · exact ⟨c.count,by simp,h⟩
    obtain h | ⟨vars,-,h⟩ := bind_eq_error.mp h
    · exact ⟨c.vars,by simp,h⟩
    · cases h
  obtain ⟨n,hn,hwrite⟩ := hnumber
  obtain ⟨hlong,rfl⟩ := Text.writable_eq_error.mp hwrite
  exact ⟨hn,hlong⟩

theorem wrap_of_not_writable (h : ¬Writable c) :
    ∃ e, wrap kind c body = .error e ∧ e.value ∈ [c.elapsed,c.count,c.vars] ∧
      Text.maxDecimalDigits < Text.decimalLength e.value := by
  cases hwrap : wrap kind c body with
  | ok text => exact absurd (writable_of_wrap hwrap) h
  | error e => exact ⟨e,rfl,wrap_eq_error hwrap⟩

/-! ### Lines -/

/-- The lines above the text. -/
def above (kind : BannerKind) (f : Figures) : List String := [
  s!"{kind.comment} {kind.title}",
  s!"{kind.comment} {kind.done} using M86Asm.",
  s!"{kind.comment} Dated: {f.date}.",
  s!"{kind.comment} Approx. {kind.doing} time: {f.elapsed} ms.",
  s!"{kind.comment} Number of {kind.units}: {f.count}.",
  s!"{kind.comment} Number of memory units allocated: {f.vars}.",
  "",
  s!"{kind.comment} === CODE === {kind.comment}",
  ""]

/-- The lines below the text. -/
def below (kind : BannerKind) : List String := ["",s!"{kind.comment} === EOF === {kind.comment}"]

theorem frame_unlines (kind : BannerKind) (f : Figures) (ls : List String) :
    frame kind f (Text.unlines ls) = Text.unlines (above kind f ++ ls ++ below kind) := by
  rw [← String.toList_inj]
  simp [frame,header,opening,closing,Text.toList_unlines,above,below,Text.toString_string]

theorem unbroken_moment (m : Moment) : Text.Unbroken m.render := by
  have htwo : ∀ n, Text.Unbroken (Text.decimalPadded 2 n) := fun _ =>
    Text.unbroken_of_not_blank fun _ => Text.not_blank_of_mem_decimalPadded
  have hyear : Text.Unbroken (Text.decimal m.year) :=
    Text.unbroken_of_not_blank (Text.isWord_decimal _).2
  simp only [Moment.render,Text.unbroken_append,Text.toString_string,htwo,hyear]
  decide

theorem above_unbroken (kind : BannerKind) (c : Circumstances) :
    ∀ l ∈ above kind (figures c), Text.Unbroken l := by
  have hnumber : ∀ n, Text.Unbroken (Text.decimal n) := fun n =>
    Text.unbroken_of_not_blank (Text.isWord_decimal n).2
  have hwords : Text.Unbroken kind.comment ∧ Text.Unbroken kind.title ∧
      Text.Unbroken kind.done ∧ Text.Unbroken kind.doing ∧ Text.Unbroken kind.units := by
    cases kind <;> decide
  simp only [above,figures,List.forall_mem_cons,Text.unbroken_append,Text.toString_string,hnumber,
    hwords,unbroken_moment]
  decide

theorem below_unbroken (kind : BannerKind) : ∀ l ∈ below kind, Text.Unbroken l := by
  cases kind <;> decide

/-! ### Taking a banner off -/

theorem header_eq_unlines (kind : BannerKind) (f : Figures) :
    header kind f = Text.unlines ((above kind f).take 7) := by
  rw [← String.toList_inj]
  simp [header,above,Text.toList_unlines,Text.toString_string]

theorem getLast?_header (kind : BannerKind) (f : Figures) :
    (header kind f).toList.getLast? = some '\n' := by
  rw [header_eq_unlines]
  exact Text.getLast?_unlines (by simp [above])

/-- The marks around the text are the only place of a banner with an equals sign. -/
theorem notMem_header (kind : BannerKind) (c : Circumstances) :
    '=' ∉ (header kind (figures c)).toList := by
  have hpadded : ∀ width n, '=' ∉ (Text.decimalPadded width n).toList := by
    intro width n hmem
    exact absurd (Text.mem_decimalPadded hmem) (by decide)
  have hnumber : ∀ n, '=' ∉ (Text.decimal n).toList := by
    intro n
    rw [← Text.decimalPadded_zero]
    exact hpadded 0 n
  have hwords : '=' ∉ kind.comment.toList ∧ '=' ∉ kind.title.toList ∧ '=' ∉ kind.done.toList ∧
      '=' ∉ kind.doing.toList ∧ '=' ∉ kind.units.toList := by
    cases kind <;> decide
  have hlines : ∀ l ∈ (above kind (figures c)).take 7, '=' ∉ l.toList := by
    simp only [above,figures,Moment.render,List.take_succ_cons,List.take_zero,List.forall_mem_cons,
      List.not_mem_nil,false_implies,implies_true,String.toList_append,List.mem_append,not_or,
      Text.toString_string,hpadded,hnumber,hwords,not_false_eq_true,true_and,and_true]
    simp
  rw [header_eq_unlines,Text.toList_unlines]
  intro hmem
  obtain ⟨l,hl,hc⟩ := List.mem_flatMap.mp hmem
  obtain hc | hc := List.mem_append.mp hc
  · exact hlines l hl hc
  · exact absurd hc (by decide)

/-- The first opening in a bannered text is the banner's own, and the last closing too. -/
theorem inner?_frame (kind : BannerKind) (c : Circumstances) (body : String) :
    inner? kind (frame kind (figures c) body).toList = some body.toList := by
  have htext : (frame kind (figures c) body).toList = (header kind (figures c)).toList ++
      ((opening kind).toList ++ (body.toList ++ (closing kind).toList)) := by
    simp [frame]
  have hclosed : (closing kind).toList.isSuffixOf (frame kind (figures c) body).toList = true := by
    rw [List.isSuffixOf_iff_suffix,htext,← List.append_assoc,← List.append_assoc]
    exact List.suffix_append _ _
  have hmark : (kind.comment ++ " =").toList <+: (opening kind).toList := by
    cases kind <;> decide
  have hbreak : '\n' ∉ (kind.comment ++ " =").toList := by
    cases kind <;> decide
  have hafter : Text.after? (opening kind).toList ((header kind (figures c)).toList ++
      ((opening kind).toList ++ (body.toList ++ (closing kind).toList))) =
        some (body.toList ++ (closing kind).toList) :=
    Text.after?_append hmark (by simp) (notMem_header kind c) (getLast?_header kind _) hbreak
  simp only [inner?,hclosed,if_true]
  rw [htext,hafter]
  simp

/-- A text that ends as code does is not taken for words. -/
theorem inner?_words_frame_code (f : Figures) (body : String) :
    inner? .words (frame .code f body).toList = none := by
  have hopen : (closing .words).toList.isSuffixOf (frame .code f body).toList = false := by
    rw [Bool.eq_false_iff,ne_eq,List.isSuffixOf_iff_suffix,frame,String.toList_append]
    intro hclosed
    have hshort := List.suffix_of_suffix_length_le hclosed (List.suffix_append _ _) (by decide)
    exact absurd hshort (by decide)
  simp [inner?,hopen]

theorem strip_frame (kind : BannerKind) (c : Circumstances) (body : String) :
    strip (frame kind (figures c) body).toList = body.toList := by
  cases kind with
  | words =>
    rw [strip,inner?_frame]
    rfl
  | code =>
    rw [strip,inner?_words_frame_code,inner?_frame]
    rfl

end Micro86.Banner
