import Mathlib.Data.Int.Bitwise
import Mathlib.Data.Int.ModEq
import Micro86.Proofs.Text.Numeral
import Micro86.Proofs.Word

/-!
Words as halves and as digits. Remainders of integers are what masks, shifts and unions of bits
make of them; halves are joined and taken apart without loss, and so are the digits of a word
written and read. Two integers have the same digits exactly if they stand for the same word.
-/
namespace Micro86.Word

/-! ### Bits -/

/-- A mask of ones leaves the remainder, of a negative number too. -/
theorem land_mask (w : Int) (bits : Nat) :
    Int.land w ((2^bits-1 : Nat) : Int) = w % ((2^bits : Nat) : Int) := by
  cases w with
  | ofNat n =>
    have hmask : Int.land (Int.ofNat n) ((2^bits-1 : Nat) : Int) = (n &&& 2^bits-1 : Nat) := rfl
    rw [hmask,Nat.and_two_pow_sub_one_eq_mod]
    rfl
  | negSucc n =>
    have hlt : n % 2^bits < 2^bits := Nat.mod_lt n (Nat.two_pow_pos bits)
    have hmask : Int.land (Int.negSucc n) ((2^bits-1 : Nat) : Int) = (2^bits-1).ldiff n := rfl
    -- the bits of `-(n+1)` are those of `n`, turned over
    have hbits : (2^bits-1).ldiff n = 2^bits-(n % 2^bits+1) := by
      apply Nat.eq_of_testBit_eq
      intro i
      rw [Nat.testBit_ldiff,Nat.testBit_two_pow_sub_one,Nat.testBit_two_pow_sub_succ hlt,
        Nat.testBit_mod_two_pow]
      cases decide (i < bits) <;> rfl
    rw [hmask,hbits,Int.negSucc_emod n (by omega)]
    omega

theorem land_half (w : Int) : Int.land w 0xFFFF = w % 0x10000 := land_mask w 16

theorem unsigned_eq_land (w : Int) : (unsigned w : Int) = Int.land w 0xFFFFFFFF := by
  have hmask : Int.land w 0xFFFFFFFF = w % 0x100000000 := land_mask w 32
  rw [hmask,natCast_unsigned]

/-- The bits of a shifted number and of a half do not meet. -/
theorem lor_shiftLeft {high low : Nat} (h : low < 0x10000) :
    Int.lor (Int.shiftLeft high 16) low = (high*0x10000+low : Nat) := by
  have hbits : Int.lor (Int.shiftLeft high 16) low = (high <<< 16 ||| low : Nat) := rfl
  rw [hbits,← Nat.shiftLeft_add_eq_or_of_lt h,Nat.shiftLeft_eq]

/-- Joining halves is a shift and a union of bits. -/
theorem encode_eq_lor {opcode : Int} {operand : Option Int} {w : Nat}
    (h : encode opcode operand = .ok w) :
    (w : Int) = Int.lor (Int.shiftLeft opcode 16) (Int.land (operand.getD 0) 0xFFFF) := by
  obtain ⟨⟨hlow,-⟩,-,rfl⟩ := encode_eq_ok.mp h
  obtain ⟨high,rfl⟩ := Int.eq_ofNat_of_zero_le hlow
  have hoperand : operand.getD 0 % 0x10000 = ((operand.getD 0 % 0x10000).toNat : Nat) := by omega
  rw [land_half,hoperand,lor_shiftLeft (by omega)]
  rfl

/-- Taking them apart is a shift and a mask. -/
theorem decode_eq_shiftRight (w : Int) :
    ((decode w).1 : Int) = Int.shiftRight (Int.land w 0xFFFFFFFF) 16 ∧
      ((decode w).2 : Int) = Int.land (Int.land w 0xFFFFFFFF) 0xFFFF := by
  rw [← unsigned_eq_land,land_half,decode]
  constructor
  · have hshift : Int.shiftRight (unsigned w : Int) 16 = (unsigned w >>> 16 : Nat) := rfl
    rw [hshift,Nat.shiftRight_eq_div_pow]
  · omega

/-! ### Halves -/

theorem unsigned_eq_iff {v w : Int} : unsigned v = unsigned w ↔ v ≡ w [ZMOD 0x100000000] := by
  unfold unsigned Int.ModEq
  omega

/-- Words with one opcode differ where their operands do, up to a sign. -/
theorem encode_eq_iff {opcode x y : Int} {v w : Nat} (hv : encode opcode (some x) = .ok v)
    (hw : encode opcode (some y) = .ok w) : v = w ↔ x ≡ y [ZMOD 0x10000] := by
  obtain ⟨-,-,rfl⟩ := encode_eq_ok.mp hv
  obtain ⟨-,-,rfl⟩ := encode_eq_ok.mp hw
  simp only [Option.getD_some,Int.ModEq]
  omega

/-- The halves of a word have a place in a word, and make it again. -/
theorem encode_decode (w : Int) :
    encode (decode w).1 (some ((decode w).2 : Int)) = .ok (unsigned w) := by
  have hlt := unsigned_lt w
  simp only [encode_eq_ok,decode,Option.some.injEq,forall_eq',Option.getD_some]
  omega

/-! ### Digits -/

namespace Radix

/-- The digits, in their order. -/
def digits : Radix → List Char
  | hex => "0123456789ABCDEF".toList
  | bin => "01".toList

/-- How many digits a word has. -/
def width : Radix → Nat
  | hex => 8
  | bin => 32

end Radix

theorem toList_format_hex (w : Int) :
    (format .hex w).toList = Text.zeroPadded 8 (Text.hexDigits (unsigned w)) := by
  rw [format,String.toList_ofList]

theorem toList_format_bin (w : Int) :
    (format .bin w).toList = Text.zeroPadded 32 (Nat.toDigits 2 (unsigned w)) := by
  rw [format,String.toList_ofList]

theorem length_format (radix : Radix) (w : Int) :
    (format radix w).toList.length = radix.width := by
  have hlt := unsigned_lt w
  cases radix with
  | hex =>
    rw [toList_format_hex]
    exact Text.length_zeroPadded_hexDigits hlt
  | bin =>
    rw [toList_format_bin]
    apply Text.length_zeroPadded
    exact (Nat.length_toDigits_le_iff (by decide) (by decide)).mpr hlt

theorem format_ne_nil (radix : Radix) (w : Int) : (format radix w).toList ≠ [] := by
  rw [← List.length_pos_iff,length_format]
  cases radix <;> decide

theorem mem_digits_of_mem_format {radix : Radix} {w : Int} {c : Char}
    (h : c ∈ (format radix w).toList) : c ∈ radix.digits := by
  have hzero : '0' ∈ radix.digits := by
    cases radix <;> decide
  cases radix with
  | hex =>
    have hdigits : ∀ d < 16, (Nat.digitChar d).toUpper ∈ Radix.hex.digits := by decide
    rw [toList_format_hex] at h
    exact Text.forall_mem_zeroPadded _ (by decide) hzero hdigits 8 _ c h
  | bin =>
    have hdigits : ∀ d < 2, id (Nat.digitChar d) ∈ Radix.bin.digits := by decide
    rw [toList_format_bin,← List.map_id (Nat.toDigits 2 _)] at h
    exact Text.forall_mem_zeroPadded _ (by decide) hzero hdigits 32 _ c h

/-- The digits of either radix are hexadecimal digits. -/
theorem isHexDigit_of_mem_format {radix : Radix} {w : Int} {c : Char}
    (h : c ∈ (format radix w).toList) : Text.isHexDigit c = true := by
  have hdigits : radix.digits.all Text.isHexDigit = true := by
    cases radix <;> decide
  exact List.all_eq_true.mp hdigits c (mem_digits_of_mem_format h)

theorem unbroken_format (radix : Radix) (w : Int) : Text.Unbroken (format radix w) := by
  apply Text.unbroken_of_not_blank
  intro c hc
  exact Text.isBlank_of_isHexDigit (isHexDigit_of_mem_format hc)

theorem hexValue_format_hex (w : Int) : Text.hexValue (format .hex w).toList = unsigned w := by
  rw [toList_format_hex,Text.hexValue_zeroPadded,Text.hexValue_hexDigits]

theorem ofDigitChars_format_bin (w : Int) :
    Nat.ofDigitChars 2 (format .bin w).toList 0 = unsigned w := by
  rw [toList_format_bin,Text.zeroPadded,Nat.ofDigitChars_append,Nat.ofDigitChars_replicate_zero,
    Nat.mul_zero,Nat.ofDigitChars_toDigits (by decide) (by decide)]

/-- A word has the same digits as another exactly if it is the same. -/
theorem format_eq_iff {radix : Radix} {v w : Int} :
    format radix v = format radix w ↔ unsigned v = unsigned w := by
  constructor
  · intro h
    cases radix with
    | hex => rw [← hexValue_format_hex v,h,hexValue_format_hex]
    | bin => rw [← ofDigitChars_format_bin v,h,ofDigitChars_format_bin]
  · intro h
    unfold format
    rw [h]

/-- The loose reader takes hexadecimal digits for what they are. -/
theorem parse_of_hexDigits {text : List Char} (hne : text ≠ [])
    (h : ∀ c ∈ text, Text.isHexDigit c = true) : parse text = .ok (Text.hexValue text) := by
  have htrim : Text.trim text = text :=
    Text.trim_of_not_blank fun c hc => Text.isBlank_of_isHexDigit (h c hc)
  rw [parse,htrim,Text.looseHex?_of_hexDigits hne h]

theorem parse_format_hex (w : Int) : parse (format .hex w).toList = .ok (unsigned w) := by
  rw [parse_of_hexDigits (format_ne_nil .hex w) fun _ => isHexDigit_of_mem_format,
    hexValue_format_hex]

/-- Words are joined, taken apart, written and read without loss, for all integers. -/
theorem codec_is_exact :
    (∀ (opcode : Int) (operand : Option Int), (∃ w, encode opcode operand = .ok w) ↔
      (0 ≤ opcode ∧ opcode ≤ 0xFFFF) ∧ ∀ x, operand = some x → -0x8000 ≤ x ∧ x ≤ 0xFFFF) ∧
    (∀ (opcode : Int) (operand : Option Int) (w : Nat), encode opcode operand = .ok w →
      (w : Int) = Int.lor (Int.shiftLeft opcode 16) (Int.land (operand.getD 0) 0xFFFF) ∧
      ((decode w).1 : Int) = opcode ∧ ((decode w).2 : Int) = operand.getD 0 % 0x10000) ∧
    (∀ (opcode x y : Int) (v w : Nat), encode opcode (some x) = .ok v →
      encode opcode (some y) = .ok w → (v = w ↔ x ≡ y [ZMOD 0x10000])) ∧
    (∀ w : Int, ((decode w).1 : Int) = Int.shiftRight (Int.land w 0xFFFFFFFF) 16 ∧
      ((decode w).2 : Int) = Int.land (Int.land w 0xFFFFFFFF) 0xFFFF ∧
      ∃ v, encode (decode w).1 (some ((decode w).2 : Int)) = .ok v ∧ (v : Int) = w % 0x100000000) ∧
    (∀ w : Int, parse (format .hex w).toList = .ok (w % 0x100000000)) ∧
    (∀ (radix : Radix) (w : Int), (format radix w).toList.length = radix.width ∧
      ∀ c ∈ (format radix w).toList, c ∈ radix.digits) ∧
    ∀ (radix : Radix) (v w : Int),
      format radix v = format radix w ↔ v ≡ w [ZMOD 0x100000000] := by
  refine ⟨fun _ _ => exists_encode_iff,?_,fun _ _ _ _ _ => encode_eq_iff,?_,?_,?_,?_⟩
  · intro opcode operand w h
    obtain ⟨⟨hlow,-⟩,-⟩ := encode_eq_ok.mp h
    rw [decode_encode h]
    exact ⟨encode_eq_lor h,Int.toNat_of_nonneg hlow,Int.toNat_of_nonneg (by omega)⟩
  · intro w
    obtain ⟨hopcode,hoperand⟩ := decode_eq_shiftRight w
    exact ⟨hopcode,hoperand,unsigned w,encode_decode w,natCast_unsigned w⟩
  · intro w
    rw [parse_format_hex,natCast_unsigned]
  · intro radix w
    exact ⟨length_format radix w,fun _ => mem_digits_of_mem_format⟩
  · intro radix v w
    rw [format_eq_iff,unsigned_eq_iff]

end Micro86.Word
