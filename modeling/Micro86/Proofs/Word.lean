import Micro86.Word

/-!
Words as numbers. The signed reading stays between `-2^31` and `2^31-1` and keeps what is
there already; joining and taking apart the halves loses nothing but the sign of an operand,
and the signed reading of the operand half restores that.
-/
namespace Micro86.Word

/-- The numbers that a word can hold with a sign. -/
def InRange (w : Int) : Prop := -0x80000000 ≤ w ∧ w ≤ 0x7FFFFFFF

instance (w : Int) : Decidable (InRange w) := inferInstanceAs (Decidable (_ ∧ _))

theorem signed_eq (w : Int) :
    signed w = if w % 0x100000000 < 0x80000000 then w % 0x100000000
      else w % 0x100000000 - 0x100000000 := rfl

theorem signed_inRange (w : Int) : InRange (signed w) := by
  rw [signed_eq]
  unfold InRange
  split <;> omega

theorem signed_of_inRange {w : Int} (h : InRange w) : signed w = w := by
  obtain ⟨hlo,hhi⟩ := h
  rw [signed_eq]
  split <;> omega

theorem zero_inRange : InRange 0 := by decide

/-- A remainder has the sign of the dividend and is not larger. -/
theorem tmod_inRange {a b : Int} (h : InRange a) : InRange (a.tmod b) := by
  obtain ⟨hlo,hhi⟩ := h
  have habs : (a.tmod b).natAbs ≤ a.natAbs := by
    rw [Int.natAbs_tmod]
    exact Nat.mod_le _ _
  unfold InRange
  obtain hpos | hneg := Int.le_total 0 a
  · have hsign : 0 ≤ a.tmod b := Int.tmod_nonneg b hpos
    omega
  · have hsign : 0 ≤ (-a).tmod b := Int.tmod_nonneg b (by omega)
    rw [Int.neg_tmod] at hsign
    omega

theorem natCast_unsigned (w : Int) : (unsigned w : Int) = w % 0x100000000 := by
  unfold unsigned
  omega

/-- Both readings of a word stand for the same word. -/
theorem signed_unsigned (w : Int) : signed (unsigned w) = signed w := by
  rw [natCast_unsigned,signed_eq,signed_eq,Int.emod_emod]

theorem unsigned_signed (w : Int) : unsigned (signed w) = unsigned w := by
  unfold unsigned
  rw [signed_eq]
  split <;> omega

theorem decode_signed (w : Int) : decode (signed w) = decode w := by
  rw [decode,unsigned_signed,decode]

/-- The operand half cannot exceed sixteen bits. -/
theorem decode_operand_le (w : Int) : (decode w).2 ≤ 0xFFFF := by
  unfold decode
  omega

theorem signExtend_eq (w : Int) :
    signExtend w = if w % 0x10000 < 0x8000 then w % 0x10000 else w % 0x10000 - 0x10000 := rfl

theorem signExtend_of_range {x : Int} (hlo : -0x8000 ≤ x) (hhi : x ≤ 0x7FFF) :
    signExtend x = x := by
  rw [signExtend_eq]
  split <;> omega

theorem signExtend_emod (x : Int) : signExtend (x % 0x10000) = signExtend x := by
  rw [signExtend_eq,signExtend_eq,Int.emod_emod]

/-- Halves are joined exactly if each has its place: the opcode without a sign, the operand with
one or without. -/
theorem encode_eq_ok {opcode : Int} {operand : Option Int} {w : Nat} :
    encode opcode operand = .ok w ↔ (0 ≤ opcode ∧ opcode ≤ 0xFFFF) ∧
      (∀ x, operand = some x → -0x8000 ≤ x ∧ x ≤ 0xFFFF) ∧
      w = opcode.toNat*0x10000+(operand.getD 0 % 0x10000).toNat := by
  unfold encode
  split
  · next hout =>
    simp only [reduceCtorEq,false_iff]
    omega
  · next hin =>
    have hopcode : 0 ≤ opcode ∧ opcode ≤ 0xFFFF := by omega
    cases operand with
    | none => simp [hopcode,eq_comm]
    | some x =>
      simp only [hopcode,true_and,Option.some.injEq,forall_eq',Option.getD_some]
      split
      · simp only [reduceCtorEq,false_iff]
        omega
      · simp only [Except.ok.injEq,eq_comm]
        omega

/-- What was joined is taken apart again; the operand comes back without its sign. -/
theorem decode_encode {opcode : Int} {operand : Option Int} {w : Nat}
    (h : encode opcode operand = .ok w) :
    decode w = (opcode.toNat,((operand.getD 0) % 0x10000).toNat) := by
  obtain ⟨hopcode,-,rfl⟩ := encode_eq_ok.mp h
  simp only [decode,unsigned,Prod.mk.injEq]
  omega

theorem unsigned_lt (w : Int) : unsigned w < 0x100000000 := by
  unfold unsigned
  omega

theorem unsigned_of_lt {w : Nat} (h : w < 0x100000000) : unsigned w = w := by
  unfold unsigned
  omega

theorem encode_lt {opcode : Int} {operand : Option Int} {w : Nat}
    (h : encode opcode operand = .ok w) : w < 0x100000000 := by
  obtain ⟨hopcode,-,rfl⟩ := encode_eq_ok.mp h
  omega

/-- An operand that was joined has sixteen bits, with or without a sign. -/
theorem operand_of_encode {opcode x : Int} {w : Nat} (h : encode opcode (some x) = .ok w) :
    -0x8000 ≤ x ∧ x ≤ 0xFFFF :=
  (encode_eq_ok.mp h).2.1 x rfl

/-- Halves that can be joined. -/
theorem exists_encode_iff {opcode : Int} {operand : Option Int} :
    (∃ w, encode opcode operand = .ok w) ↔ (0 ≤ opcode ∧ opcode ≤ 0xFFFF) ∧
      ∀ x, operand = some x → -0x8000 ≤ x ∧ x ≤ 0xFFFF := by
  simp only [encode_eq_ok]
  constructor
  · rintro ⟨w,hopcode,hoperand,-⟩
    exact ⟨hopcode,hoperand⟩
  · rintro ⟨hopcode,hoperand⟩
    exact ⟨_,hopcode,hoperand,rfl⟩

end Micro86.Word
