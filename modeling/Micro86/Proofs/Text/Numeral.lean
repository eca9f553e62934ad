import Mathlib.Algebra.Ring.Nat
import Micro86.Proofs.Text.Blank
import Micro86.Text.Numeral

/-!
Decimal and hexadecimal numbers: writing a number and reading its digits gives the number back,
with or without zeros in front.
-/
namespace Micro86.Text

theorem isDecimalDigit_of_mem_toDigits {n : Nat} {c : Char} (h : c ∈ Nat.toDigits 10 n) :
    isDecimalDigit c := Nat.isDigit_of_mem_toDigits (b := 10) (by decide) (by decide) h

theorem decimalValue_toDigits (n : Nat) : decimalValue (Nat.toDigits 10 n) = n := by
  have h := Nat.ofDigitChars_toDigits (b := 10) (n := n) (by decide) (by decide)
  rw [Nat.ofDigitChars_eq_foldl] at h
  rw [decimalValue,ofDigits,List.foldl_map]
  simpa [Nat.mul_comm] using h

theorem toList_decimal (n : Int) :
    (decimal n).toList = (if n < 0 then ['-'] else []) ++ Nat.toDigits 10 n.natAbs := by
  rw [decimal,String.toList_ofList]

theorem splitSign_toDigits (n : Nat) :
    splitSign (Nat.toDigits 10 n) = (false,Nat.toDigits 10 n) := by
  unfold splitSign
  split
  · next rest h =>
    have hplus : '+' ∈ Nat.toDigits 10 n := by simp [h]
    exact absurd (isDecimalDigit_of_mem_toDigits hplus) (by decide)
  · next rest h =>
    have hminus : '-' ∈ Nat.toDigits 10 n := by simp [h]
    exact absurd (isDecimalDigit_of_mem_toDigits hminus) (by decide)
  · rfl

theorem toString_int (n : Int) : toString n = decimal n := by
  rw [← String.toList_inj,toList_decimal]
  cases n with
  | ofNat n =>
    have hn : toString (Int.ofNat n) = toString n := rfl
    rw [hn,Nat.toString_eq_ofList_toDigits,String.toList_ofList]
    rfl
  | negSucc n =>
    have hn : toString (Int.negSucc n) = "-" ++ toString (n+1) := rfl
    rw [hn,Nat.toString_eq_ofList_toDigits]
    simp

theorem toNat_of_isDecimalDigit {c : Char} (h : isDecimalDigit c = true) :
    48 ≤ c.toNat ∧ c.toNat ≤ 57 := by
  simp only [isDecimalDigit,Bool.and_eq_true,decide_eq_true_eq] at h
  have hlo := UInt32.le_iff_toNat_le.mp h.1
  have hhi := UInt32.le_iff_toNat_le.mp h.2
  simp only [UInt32.reduceToNat,Char.reduceVal,Char.toNat_val] at hlo hhi
  exact ⟨hlo,hhi⟩

theorem isBlank_of_isDecimalDigit {c : Char} (h : isDecimalDigit c = true) :
    isBlank c = false := by
  have hrange := toNat_of_isDecimalDigit h
  exact isBlank_of_ascii (by omega) (by omega)

theorem mem_decimalPadded {width : Nat} {n : Int} {c : Char}
    (h : c ∈ (decimalPadded width n).toList) : c = '-' ∨ isDecimalDigit c = true := by
  have hdigits : ∀ k, c ∈ zeroPadded k (Nat.toDigits 10 n.natAbs) → isDecimalDigit c = true := by
    intro k hc
    obtain hc | hc := List.mem_append.mp hc
    · rw [List.eq_of_mem_replicate hc]
      decide
    · exact isDecimalDigit_of_mem_toDigits hc
  rw [decimalPadded,String.toList_ofList] at h
  split at h
  · exact (List.mem_cons.mp h).imp_right (hdigits _)
  · exact .inr (hdigits _ h)

/-- A number is one word, with zeros in front or without. -/
theorem not_blank_of_mem_decimalPadded {width : Nat} {n : Int} {c : Char}
    (h : c ∈ (decimalPadded width n).toList) : isBlank c = false := by
  obtain rfl | hc := mem_decimalPadded h
  · decide
  · exact isBlank_of_isDecimalDigit hc

theorem decimalPadded_zero (n : Int) : decimalPadded 0 n = decimal n := by
  rw [decimalPadded,decimal]
  split <;> simp [zeroPadded]

theorem isWord_decimal (n : Int) : IsWord (decimal n).toList := by
  refine ⟨by simp [toList_decimal,Nat.toDigits_ne_nil],?_⟩
  intro c hc
  rw [← decimalPadded_zero] at hc
  exact not_blank_of_mem_decimalPadded hc

/-- The sign and the digits of a written number stand for the number. -/
theorem withSign_splitSign_decimal (n : Int) :
    withSign (splitSign (decimal n).toList).1 (decimalValue (splitSign (decimal n).toList).2) =
      n := by
  rw [toList_decimal]
  by_cases hneg : n < 0
  · simp only [hneg,if_true,List.cons_append,List.nil_append,splitSign,withSign,
      decimalValue_toDigits]
    omega
  · simp only [hneg,if_false,List.nil_append,splitSign_toDigits,withSign,decimalValue_toDigits,
      Bool.false_eq_true]
    omega

/-! ### Numerals of too many digits -/

theorem dropFinalBreak_sublist (text : List Char) : (dropFinalBreak text).Sublist text := by
  unfold dropFinalBreak
  split
  · exact List.dropLast_sublist text
  · exact List.Sublist.refl text

theorem splitSign_sublist (text : List Char) : (splitSign text).2.Sublist text := by
  unfold splitSign
  split
  · exact List.sublist_cons_self _ _
  · exact List.sublist_cons_self _ _
  · exact List.Sublist.refl text

/-- A numeral is refused for digits that stand in the text around it. -/
theorem countP_of_readDecimal {digits text : List Char} {e : TooManyDigits}
    (h : readDecimal digits = .error e) (hdigits : digits.all isDecimalDigit = true)
    (hsub : digits.Sublist text) : maxDecimalDigits < text.countP isDecimalDigit := by
  unfold readDecimal at h
  split at h
  · next hmany =>
    have hcount : digits.countP isDecimalDigit = digits.length :=
      List.countP_eq_length.mpr (List.all_eq_true.mp hdigits)
    exact Nat.lt_of_lt_of_le (hcount ▸ hmany) hsub.countP_le
  · simp at h

theorem countP_of_readLiteral {text : List Char} {e : TooManyDigits}
    (h : readLiteral text = .error e) : maxDecimalDigits < text.countP isDecimalDigit := by
  unfold readLiteral at h
  dsimp only at h
  split at h
  · simp at h
  · next hdigits =>
    simp only [Bool.or_eq_true,Bool.not_eq_true',not_or,Bool.not_eq_false] at hdigits
    have hread : readDecimal (splitSign (dropFinalBreak text)).2 = .error e := by
      cases hr : readDecimal (splitSign (dropFinalBreak text)).2 with
      | error d =>
        rw [hr] at h
        cases h
        rfl
      | ok n =>
        rw [hr] at h
        cases h
    exact countP_of_readDecimal hread hdigits.2
      ((splitSign_sublist _).trans (dropFinalBreak_sublist text))

/-! ### Numbers that can be written -/

theorem decimalLength_le_iff {n : Int} :
    decimalLength n ≤ maxDecimalDigits ↔ n.natAbs < 10^maxDecimalDigits :=
  Nat.length_toDigits_le_iff (by decide) (by decide)

theorem writable_eq_ok {n : Int} {w : Writable} : writable n = .ok w ↔ w.value = n := by
  unfold writable
  split
  · next hshort =>
    constructor
    · intro h
      cases h
      rfl
    · rintro rfl
      rfl
  · next hlong =>
    constructor
    · intro h
      cases h
    · rintro rfl
      exact absurd w.short hlong

theorem writable_eq_error {n : Int} {e : Unwritable} :
    writable n = .error e ↔ maxDecimalDigits < decimalLength n ∧ e = ⟨n⟩ := by
  unfold writable
  split
  · next hshort => simp [Nat.not_lt.mpr hshort]
  · next hlong => simp [Nat.lt_of_not_le hlong,eq_comm]

/-! ### Words that are no literals -/

theorem mem_dropFinalBreak {text : List Char} {c : Char} (h : c ∈ text) :
    c ∈ dropFinalBreak text ∨ c = '\n' := by
  unfold dropFinalBreak
  split
  · next hlast =>
    obtain ⟨front,rfl⟩ := List.getLast?_eq_some_iff.mp hlast
    simpa using h
  · exact .inl h

theorem mem_splitSign {text : List Char} {c : Char} (h : c ∈ text) (hplus : c ≠ '+')
    (hminus : c ≠ '-') : c ∈ (splitSign text).2 := by
  unfold splitSign
  split
  · simpa [hplus] using h
  · simpa [hminus] using h
  · exact h

/-- One character that no literal has is enough. -/
theorem readLiteral_of_mem {text : List Char} {c : Char} (h : c ∈ text)
    (hdigit : isDecimalDigit c = false) (hplus : c ≠ '+') (hminus : c ≠ '-') (hbreak : c ≠ '\n') :
    readLiteral text = .ok none := by
  have hmem : c ∈ (splitSign (dropFinalBreak text)).2 :=
    mem_splitSign ((mem_dropFinalBreak h).resolve_right hbreak) hplus hminus
  have hall : (splitSign (dropFinalBreak text)).2.all isDecimalDigit = false := by
    rw [List.all_eq_false]
    exact ⟨c,hmem,by simp [hdigit]⟩
  simp [readLiteral,hall]

/-! ### Hexadecimal numbers -/

theorem exists_digitChar_of_mem_toDigits {base n : Nat} (hbase : 1 < base) {c : Char}
    (h : c ∈ Nat.toDigits base n) : ∃ d < base, c = Nat.digitChar d := by
  induction n using Nat.strongRecOn with
  | ind n ih =>
    by_cases hlt : n < base
    · rw [Nat.toDigits_of_lt_base hlt] at h
      exact ⟨n,hlt,List.mem_singleton.mp h⟩
    · rw [Nat.toDigits_of_base_le hbase (by omega)] at h
      obtain h | h := List.mem_append.mp h
      · exact ih (n/base) (Nat.div_lt_self (by omega) hbase) h
      · exact ⟨n % base,Nat.mod_lt _ (by omega),List.mem_singleton.mp h⟩

theorem hexDigit?_digitChar : ∀ d < 16, hexDigit? (Nat.digitChar d).toUpper = some d := by
  decide

theorem hexValue_concat {text : List Char} {c : Char} {d : Nat} (h : hexDigit? c = some d) :
    hexValue (text ++ [c]) = hexValue text*16+d := by
  simp [hexValue,ofDigits,h]

theorem hexValue_hexDigits (n : Nat) : hexValue (hexDigits n) = n := by
  induction n using Nat.strongRecOn with
  | ind n ih =>
    rw [hexDigits]
    by_cases hlt : n < 16
    · rw [Nat.toDigits_of_lt_base hlt]
      simp [hexValue,ofDigits,hexDigit?_digitChar n hlt]
    · have hrest := ih (n/16) (by omega)
      rw [hexDigits] at hrest
      rw [Nat.toDigits_of_base_le (by decide) (by omega),List.map_append,List.map_singleton,
        hexValue_concat (hexDigit?_digitChar (n % 16) (by omega)),hrest]
      omega

/-- Zeros in front do not count. -/
theorem hexValue_zeroPadded (width : Nat) (text : List Char) :
    hexValue (zeroPadded width text) = hexValue text := by
  have hzero : hexDigit? '0' = some 0 := by decide
  rw [zeroPadded]
  induction width - text.length with
  | zero => rfl
  | succ k ih => simpa [hexValue,ofDigits,List.replicate_succ,hzero] using ih

/-- The digits of a number and the zeros in front of them, in any form that they are written in. -/
theorem forall_mem_zeroPadded (p : Char → Prop) {base : Nat} (hbase : 1 < base)
    {form : Char → Char} (hzero : p '0') (hdigit : ∀ d < base, p (form (Nat.digitChar d)))
    (width n : Nat) : ∀ c ∈ zeroPadded width ((Nat.toDigits base n).map form), p c := by
  intro c h
  obtain h | h := List.mem_append.mp h
  · rw [List.eq_of_mem_replicate h]
    exact hzero
  · obtain ⟨digit,hmem,rfl⟩ := List.mem_map.mp h
    obtain ⟨d,hd,rfl⟩ := exists_digitChar_of_mem_toDigits hbase hmem
    exact hdigit d hd

theorem isHexDigit_of_mem_zeroPadded {width n : Nat} {c : Char}
    (h : c ∈ zeroPadded width (hexDigits n)) : isHexDigit c = true := by
  refine forall_mem_zeroPadded (isHexDigit · = true) (by decide) (by decide) ?_ width n c h
  intro d hd
  rw [isHexDigit,hexDigit?_digitChar d hd]
  rfl

theorem length_zeroPadded {width : Nat} {text : List Char} (h : text.length ≤ width) :
    (zeroPadded width text).length = width := by
  simp only [zeroPadded,List.length_append,List.length_replicate]
  omega

/-- A number of thirty-two bits has eight digits. -/
theorem length_zeroPadded_hexDigits {n : Nat} (h : n < 0x100000000) :
    (zeroPadded 8 (hexDigits n)).length = 8 := by
  apply length_zeroPadded
  rw [hexDigits,List.length_map]
  exact (Nat.length_toDigits_le_iff (by decide) (by decide)).mpr h

theorem toNat_of_isHexDigit {c : Char} (h : isHexDigit c = true) :
    48 ≤ c.toNat ∧ c.toNat ≤ 102 := by
  have hrange : ('0' ≤ c ∧ c ≤ '9') ∨ ('A' ≤ c ∧ c ≤ 'F') ∨ ('a' ≤ c ∧ c ≤ 'f') := by
    unfold isHexDigit hexDigit? at h
    split at h
    · next hc => exact .inl hc
    · split at h
      · next hc => exact .inr (.inl hc)
      · split at h
        · next hc => exact .inr (.inr hc)
        · simp at h
  obtain ⟨hlo,hhi⟩ | ⟨hlo,hhi⟩ | ⟨hlo,hhi⟩ := hrange
  all_goals
    have hlo' := UInt32.le_iff_toNat_le.mp hlo
    have hhi' := UInt32.le_iff_toNat_le.mp hhi
    simp only [UInt32.reduceToNat,Char.reduceVal] at hlo' hhi'
    rw [← Char.toNat_val]
    omega

theorem exists_code_of_isHexDigit {c : Char} (h : isHexDigit c = true) :
    ∃ n < 103, c = Char.ofNat n := by
  have hrange := toNat_of_isHexDigit h
  exact ⟨c.toNat,by omega,(Char.ofNat_toNat c).symm⟩

theorem isBlank_of_isHexDigit {c : Char} (h : isHexDigit c = true) : isBlank c = false := by
  have hrange := toNat_of_isHexDigit h
  exact isBlank_of_ascii (by omega) (by omega)

theorem toList_hexPadded (width n : Nat) :
    (hexPadded width n).toList = zeroPadded width (hexDigits n) := by
  have hnonneg : ¬(n : Int) < 0 := by omega
  simp [hexPadded,hnonneg]

theorem isWord_hexPadded (width n : Nat) : IsWord (hexPadded width n).toList := by
  rw [toList_hexPadded]
  refine ⟨?_,fun c hc => isBlank_of_isHexDigit (isHexDigit_of_mem_zeroPadded hc)⟩
  simp [zeroPadded,hexDigits,Nat.toDigits_ne_nil]

/-! ### Loose numbers -/

/-- The digits of all scripts agree with the hexadecimal ones on these. -/
theorem looseDigit?_of_isHexDigit {c : Char} (h : isHexDigit c = true) :
    looseDigit? 16 c = hexDigit? c := by
  have hcodes : ∀ n < 103, isHexDigit (Char.ofNat n) = true →
      looseDigit? 16 (Char.ofNat n) = hexDigit? (Char.ofNat n) := by decide +kernel
  obtain ⟨n,hn,rfl⟩ := exists_code_of_isHexDigit h
  exact hcodes n hn h

section
variable {text : List Char} (h : ∀ c ∈ text, isHexDigit c = true)
include h

/-- Digits alone have no underscore between them. -/
theorem groupedDigits?_of_hexDigits (hne : text ≠ []) :
    groupedDigits? 16 text = some (text.filterMap hexDigit?) := by
  induction text with
  | nil => exact absurd rfl hne
  | cons c text ih =>
    obtain ⟨hc,hrest⟩ := List.forall_mem_cons.mp h
    obtain ⟨digit,hdigit⟩ := Option.isSome_iff_exists.mp hc
    have hloose := (looseDigit?_of_isHexDigit hc).trans hdigit
    cases text with
    | nil => simp [groupedDigits?,hloose,hdigit]
    | cons d text =>
      have hd : d ≠ '_' := by
        rintro rfl
        exact absurd (hrest '_' List.mem_cons_self) (by decide)
      have htail := ih hrest (List.cons_ne_nil d text)
      rw [groupedDigits?,htail,hloose,List.filterMap_cons_some hdigit]
      · rfl
      · simp
      · simpa using hd

theorem splitSign_of_hexDigits : splitSign text = (false,text) := by
  unfold splitSign
  split
  · exact absurd (h '+' List.mem_cons_self) (by decide)
  · exact absurd (h '-' List.mem_cons_self) (by decide)
  · rfl

theorem dropBaseMark_of_hexDigits : dropBaseMark 16 text = text := by
  unfold dropBaseMark
  split
  · next zero x rest =>
    have hx : ¬(x = 'x' ∨ x = 'X') := by
      rintro (rfl | rfl)
      · exact absurd (h 'x' (by simp)) (by decide)
      · exact absurd (h 'X' (by simp)) (by decide)
    simp [hx]
  · rfl

theorem dropWhile_isPadding_of_hexDigits : text.dropWhile isPadding = text := by
  cases text with
  | nil => rfl
  | cons c text =>
    have hc := isBlank_of_isHexDigit (h c List.mem_cons_self)
    simp [isPadding,hc]

end

/-- A loose number that is made of hexadecimal digits only has their value. -/
theorem looseHex?_of_hexDigits {text : List Char} (hne : text ≠ [])
    (h : ∀ c ∈ text, isHexDigit c = true) : looseHex? text = some (hexValue text : Int) := by
  have hreverse : ∀ c ∈ text.reverse, isHexDigit c = true := by simpa using h
  simp only [looseHex?,looseNumber?,dropWhile_isPadding_of_hexDigits h,
    dropWhile_isPadding_of_hexDigits hreverse,List.reverse_reverse,splitSign_of_hexDigits h,
    dropBaseMark_of_hexDigits h,groupedDigits?_of_hexDigits h hne]
  rfl

end Micro86.Text
