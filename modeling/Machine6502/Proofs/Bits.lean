import Machine6502.Arithmetic
import Machine6502.Status
import Machine6502.Word

/-!
# Bits and signs of bytes

The machine computes with wrapping arithmetic.  These lemmas read its values as
bits and as signed numbers: the sign bit, the bits that a shift moves out, signed
overflow, displacements, and the status byte that is pushed and pulled.
-/

namespace Machine6502

/-- What holds of the 256 numbers of a byte holds of every byte. -/
theorem forall_byte {property : UInt8 → Prop}
    (hall : ∀ index : Fin 256, property (UInt8.ofNat index)) (byte : UInt8) :
    property byte := by
  have hbyte := hall ⟨byte.toNat, byte.toNat_lt⟩
  simpa using hbyte

theorem testBit_seven (byte : UInt8) : byte.toNat.testBit 7 = decide (128 ≤ byte) := by
  revert byte
  exact forall_byte (by decide +kernel)

theorem testBit_zero (byte : UInt8) : byte.toNat.testBit 0 = (byte % 2 == 1) := by
  revert byte
  exact forall_byte (by decide +kernel)

/-- The number that a byte stands for in two's complement. -/
theorem toInt_toInt8 (byte : UInt8) :
    byte.toInt8.toInt = if 128 ≤ byte then (byte.toNat : Int) - 256 else byte.toNat := by
  revert byte
  exact forall_byte (by decide +kernel)

theorem displacement_eq_ofInt (byte : UInt8) :
    displacement byte = UInt16.ofInt byte.toInt8.toInt := by
  revert byte
  exact forall_byte (by decide +kernel)

theorem one_add_displacement_eq_zero_iff (byte : UInt8) :
    1 + displacement byte = 0 ↔ byte = 0xFF := by
  revert byte
  exact forall_byte (by decide +kernel)

section SignedOverflow

/-- Whether the sum of two signed bytes and a carry is no signed byte. -/
def signedOverflow (left right : UInt8) (carry : Bool) : Bool :=
  let sum : Int := left.toInt8.toInt + right.toInt8.toInt + carry.toNat
  decide (sum < -128 ∨ 127 < sum)

private theorem and_sign_ne_zero (byte : UInt8) :
    (byte &&& 0x80 != 0) = decide (128 ≤ byte) := by
  revert byte
  exact forall_byte (by decide +kernel)

private theorem sign_xor (left right : UInt8) :
    decide (128 ≤ left ^^^ right) = (decide (128 ≤ left) != decide (128 ≤ right)) := by
  simp only [← testBit_seven, UInt8.toNat_xor, Nat.testBit_xor]

private theorem sign_and (left right : UInt8) :
    decide (128 ≤ left &&& right) = (decide (128 ≤ left) && decide (128 ≤ right)) := by
  simp only [← testBit_seven, UInt8.toNat_and, Nat.testBit_and]

/-- The overflow that an addition reports, by the signs of operands and result, is
that of the signed sum. -/
theorem overflow_addWithCarry (left right : UInt8) (carry : Bool) :
    (addWithCarry left right carry).overflow = signedOverflow left right carry := by
  have hleft := left.toNat_lt
  have hright := right.toNat_lt
  have hcarry := carry.toNat_le
  obtain ⟨value, hvalue⟩ : ∃ value, value = UInt8.ofNat (left.toNat + right.toNat + carry.toNat) :=
    ⟨_, rfl⟩
  have hsum : value.toNat = (left.toNat + right.toNat + carry.toNat) % 256 := by
    rw [hvalue, UInt8.toNat_ofNat']
  have hsigns : (addWithCarry left right carry).overflow =
      ((decide (128 ≤ right) != decide (128 ≤ value)) &&
        (decide (128 ≤ value) != decide (128 ≤ left))) := by
    rw [← sign_xor, ← sign_xor, ← sign_and, ← and_sign_ne_zero, hvalue]
    rfl
  rw [hsigns, Bool.eq_iff_iff]
  simp only [signedOverflow, toInt_toInt8, UInt8.le_iff_toNat_le, UInt8.reduceToNat,
    Bool.and_eq_true, bne_iff_ne, ne_eq, decide_eq_decide, decide_eq_true_eq]
  split <;> split <;> omega

end SignedOverflow

section Words

/-- A byte below the high byte of a word. -/
private theorem or_high (word low : Nat) (hword : word < 65536) (hlow : low < 256) :
    (word &&& 0xFF00) ||| low = 256 * (word / 256) + low := by
  have hmask : 0xFF00 = 2 ^ 8 * (2 ^ 8 - 1) := rfl
  have hhigh : word &&& 0xFF00 = 2 ^ 8 * (word / 2 ^ 8) := by
    apply Nat.eq_of_testBit_eq
    intro bit
    rw [Nat.testBit_and, hmask, Nat.testBit_two_pow_mul, Nat.testBit_two_pow_mul,
      Nat.testBit_two_pow_sub_one, Nat.testBit_div_two_pow]
    by_cases habove : 8 ≤ bit
    · by_cases hinside : bit < 16
      · have hmasked : bit - 8 < 8 := by omega
        simp [habove, hmasked]
      · have hlt : word < 2 ^ bit := by
          apply Nat.lt_of_lt_of_le hword
          exact Nat.pow_le_pow_right (Nat.succ_pos 1) (Nat.le_of_not_lt hinside)
        simp [habove, Nat.testBit_lt_two_pow hlt]
    · simp [habove]
  calc
    (word &&& 0xFF00) ||| low = 2 ^ 8 * (word / 2 ^ 8) ||| low := by rw [hhigh]
    _ = 2 ^ 8 * (word / 2 ^ 8) + low := (Nat.two_pow_add_eq_or_of_lt hlow _).symm
    _ = 256 * (word / 256) + low := rfl

/-- The address after a pointer, without leaving the pointer's page. -/
theorem wordOf_pageWrap (pointer : UInt16) :
    wordOf (lowByte pointer + 1) (highByte pointer) =
      (pointer &&& 0xFF00) ||| ((pointer + 1) &&& 0x00FF) := by
  apply UInt16.toNat_inj.mp
  have hpointer := pointer.toNat_lt
  have hmask : (0xFF00 : UInt16).toNat = 0xFF00 := rfl
  have hlow : (0x00FF : UInt16).toNat = 2 ^ 8 - 1 := rfl
  rw [toNat_wordOf, UInt16.toNat_or, UInt16.toNat_and, UInt16.toNat_and, hmask, hlow,
    Nat.and_two_pow_sub_one_eq_mod, or_high _ _ hpointer (Nat.mod_lt _ (by decide))]
  simp only [lowByte, highByte, UInt16.toNat_add, UInt8.toNat_add, UInt16.toNat_toUInt8,
    UInt16.toNat_div, UInt8.reduceToNat, UInt16.reduceToNat]
  omega

/-- Adding a displacement to the address behind a branch adds a signed number to
the address of the branch. -/
theorem add_displacement (address : UInt16) (byte : UInt8) :
    address + 1 + 1 + displacement byte =
      UInt16.ofInt (address.toNat + 2 + byte.toInt8.toInt) := by
  have haddress : UInt16.ofInt address.toNat = address := by
    apply UInt16.toNat_inj.mp
    have hlt := address.toNat_lt
    rw [UInt16.ofInt, UInt16.toNat_ofNat']
    omega
  have htwo : UInt16.ofInt 2 = 1 + 1 := rfl
  rw [displacement_eq_ofInt, UInt16.ofInt_add, UInt16.ofInt_add, haddress, htwo,
    UInt16.add_assoc address]

end Words

end Machine6502
