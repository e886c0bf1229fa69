import Machine6502.Proofs.Bits
import Machine6502.Proofs.LittleEndian

/-!
# Moving the bits of numbers of several bytes

A byte and the carry hold nine bits, and a rotation moves them round.  When the carry is handed
on from byte to byte, the bits of a whole number move by one place: up when the lowest byte
comes first, down when the highest one does.  So shifts and rotations double and halve numbers,
and both ways of rotating undo each other.
-/

namespace Machine6502

namespace Shift

/-- Moves the bits of each byte in turn.  Every operation finds the carry that the one before it
left. -/
def chain : List Shift → List UInt8 → Bool → List UInt8 × Bool
  | operation :: operations, byte :: bytes, carry =>
      let rest := chain operations bytes (operation.carry byte)
      (operation.value byte carry :: rest.1, rest.2)
  | _, _, carry => ([], carry)

/-- A shift of the first byte and rotations of the others. -/
def series (shift rotation : Shift) (count : Nat) : List Shift :=
  shift :: List.replicate (count - 1) rotation

/-- What doubles a number of some bytes from its lowest byte on. -/
def doubling : Nat → List Shift :=
  series .left .rotateLeft

/-- What halves a number of some bytes from its highest byte on. -/
def halving : Nat → List Shift :=
  series .right .rotateRight

/-- Bytes and a carry hold the double of a number. -/
structure Doubled (bytes moved : List UInt8) (carry : Bool) : Prop where
  length : moved.length = bytes.length
  value : littleEndian moved = 2 * littleEndian bytes % 256 ^ bytes.length
  top : carry = (littleEndian bytes).testBit (8 * bytes.length - 1)

/-- Bytes and a carry hold the half of a number. -/
structure Halved (bytes moved : List UInt8) (carry : Bool) : Prop where
  length : moved.length = bytes.length
  value : littleEndian moved = littleEndian bytes / 2
  parity : carry.toNat = littleEndian bytes % 2

theorem toNat_bit_inj {first second : Bool} : first.toNat = second.toNat ↔ first = second := by
  revert first second
  decide

section Bytes

theorem rotateLeft_byte (byte : UInt8) (carry : Bool) :
    (value .rotateLeft byte carry).toNat + 256 * (Shift.carry .rotateLeft byte).toNat =
      2 * byte.toNat + carry.toNat := by
  revert byte
  cases carry <;> exact forall_byte (by decide +kernel)

theorem rotateRight_byte (byte : UInt8) (carry : Bool) :
    2 * (value .rotateRight byte carry).toNat + (Shift.carry .rotateRight byte).toNat =
      byte.toNat + 256 * carry.toNat := by
  revert byte
  cases carry <;> exact forall_byte (by decide +kernel)

/-- A shift is a rotation that finds no carry. -/
theorem left_eq_rotateLeft (byte : UInt8) (carry : Bool) :
    value .left byte carry = value .rotateLeft byte false := by
  rw [value, value, if_neg Bool.false_ne_true, UInt8.add_zero]

theorem right_eq_rotateRight (byte : UInt8) (carry : Bool) :
    value .right byte carry = value .rotateRight byte false := by
  rw [value, value, if_neg Bool.false_ne_true, UInt8.add_zero]

end Bytes

variable {operations : List Shift} {bytes moved up down : List UInt8} {carry middle last : Bool}

theorem length_series (shift rotation : Shift) {count : Nat} (hcount : count ≠ 0) :
    (series shift rotation count).length = count := by
  rw [series, List.length_cons, List.length_replicate]
  omega

theorem chain_cons_eq_iff {operation : Shift} {byte : UInt8} :
    chain (operation :: operations) (byte :: bytes) carry = (moved, last) ↔
      ∃ rest, moved = operation.value byte carry :: rest ∧
        chain operations bytes (operation.carry byte) = (rest, last) := by
  constructor
  · intro hchain
    obtain ⟨hmoved, hlast⟩ := Prod.mk.inj hchain
    exact ⟨_, hmoved.symm, Prod.ext rfl hlast⟩
  · rintro ⟨rest, rfl, hrest⟩
    rw [chain, hrest]

theorem length_chain (hlength : operations.length = bytes.length)
    (hchain : chain operations bytes carry = (moved, last)) : moved.length = bytes.length := by
  induction operations generalizing bytes moved carry with
  | nil =>
      obtain ⟨rfl, -⟩ := Prod.mk.inj hchain
      exact hlength
  | cons operation operations ih =>
      obtain ⟨byte, bytes, rfl⟩ := List.exists_cons_of_length_eq_add_one hlength.symm
      obtain ⟨rest, rfl, hrest⟩ := chain_cons_eq_iff.mp hchain
      exact congrArg Nat.succ (ih (Nat.succ.inj hlength) hrest)

/-- When a shift is a rotation without a carry, so is the whole series. -/
theorem chain_series {shift rotation : Shift}
    (hvalue : ∀ byte carry, shift.value byte carry = rotation.value byte false)
    (hcarry : ∀ byte, Shift.carry shift byte = Shift.carry rotation byte) (hbytes : bytes ≠ [])
    (carry : Bool) :
    chain (series shift rotation bytes.length) bytes carry =
      chain (.replicate bytes.length rotation) bytes false := by
  obtain ⟨byte, bytes, rfl⟩ := List.exists_cons_of_ne_nil hbytes
  rw [series, List.length_cons, Nat.add_sub_cancel, List.replicate_succ, chain, chain, hvalue,
    hcarry]

/-- Rotated to the left from the lowest byte on, a number is doubled and takes in the carry. -/
theorem chain_rotateLeft
    (hchain : chain (.replicate bytes.length .rotateLeft) bytes carry = (moved, last)) :
    littleEndian moved + 256 ^ bytes.length * last.toNat =
      2 * littleEndian bytes + carry.toNat := by
  induction bytes generalizing carry moved with
  | nil =>
      obtain ⟨rfl, rfl⟩ := Prod.mk.inj hchain
      simp
  | cons byte bytes ih =>
      obtain ⟨rest, rfl, hrest⟩ := chain_cons_eq_iff.mp hchain
      have hbyte := rotateLeft_byte byte carry
      have hnumber := ih hrest
      rw [littleEndian_cons, littleEndian_cons, List.length_cons, Nat.pow_succ']
      calc
        (value .rotateLeft byte carry).toNat + 256 * littleEndian rest +
              256 * 256 ^ bytes.length * last.toNat
            = (value .rotateLeft byte carry).toNat +
                256 * (littleEndian rest + 256 ^ bytes.length * last.toNat) := by ring
        _ = (value .rotateLeft byte carry).toNat + 256 * (Shift.carry .rotateLeft byte).toNat +
              256 * (2 * littleEndian bytes) := by
              rw [hnumber]
              ring
        _ = 2 * (byte.toNat + 256 * littleEndian bytes) + carry.toNat := by
              rw [hbyte]
              ring

/-- Rotated to the right from the highest byte on, a number takes in the carry and is halved. -/
theorem chain_rotateRight
    (hchain : chain (.replicate bytes.length .rotateRight) bytes carry = (moved, last)) :
    2 * littleEndian moved.reverse + last.toNat =
      littleEndian bytes.reverse + 256 ^ bytes.length * carry.toNat := by
  induction bytes generalizing carry moved with
  | nil =>
      obtain ⟨rfl, rfl⟩ := Prod.mk.inj hchain
      simp
  | cons byte bytes ih =>
      obtain ⟨rest, rfl, hrest⟩ := chain_cons_eq_iff.mp hchain
      have hbyte := rotateRight_byte byte carry
      have hnumber := ih hrest
      have hlength := length_chain List.length_replicate hrest
      rw [List.reverse_cons, List.reverse_cons, littleEndian_concat, littleEndian_concat,
        List.length_reverse, List.length_reverse, List.length_cons, Nat.pow_succ, hlength]
      calc
        2 * (littleEndian rest.reverse +
              256 ^ bytes.length * (value .rotateRight byte carry).toNat) + last.toNat
            = 2 * littleEndian rest.reverse + last.toNat +
                256 ^ bytes.length * (2 * (value .rotateRight byte carry).toNat) := by ring
        _ = littleEndian bytes.reverse + 256 ^ bytes.length *
              (2 * (value .rotateRight byte carry).toNat +
                (Shift.carry .rotateRight byte).toNat) := by
              rw [hnumber]
              ring
        _ = littleEndian bytes.reverse + 256 ^ bytes.length * byte.toNat +
              256 ^ bytes.length * 256 * carry.toNat := by
              rw [hbyte]
              ring

theorem width_eq {count : Nat} (hcount : 0 < count) :
    256 ^ count = 2 * 2 ^ (8 * count - 1) := by
  have hbits : 8 * count - 1 + 1 = 8 * count := by omega
  calc
    256 ^ count = 2 ^ (8 * count) := (Nat.pow_mul 2 8 count).symm
    _ = 2 ^ (8 * count - 1 + 1) := by rw [hbits]
    _ = 2 * 2 ^ (8 * count - 1) := Nat.pow_succ'

/-- The highest bit of a number tells whether its double needs another byte. -/
theorem toNat_top (hbytes : bytes ≠ []) :
    ((littleEndian bytes).testBit (8 * bytes.length - 1)).toNat =
      2 * littleEndian bytes / 256 ^ bytes.length := by
  have hlt := littleEndian_lt bytes
  have hwidth := width_eq (List.length_pos_iff.mpr hbytes)
  rw [Nat.toNat_testBit, hwidth, Nat.mul_div_mul_left _ _ (by decide)]
  apply Nat.mod_eq_of_lt
  rw [Nat.div_lt_iff_lt_mul (by positivity)]
  rwa [hwidth] at hlt

theorem doubled_of_chain (hbytes : bytes ≠ [])
    (hchain : chain (doubling bytes.length) bytes carry = (moved, last)) :
    Doubled bytes moved last := by
  have hlength := length_chain (length_series _ _ (by simpa using hbytes)) hchain
  rw [doubling, chain_series left_eq_rotateLeft (fun _ => rfl) hbytes] at hchain
  have hnumber := chain_rotateLeft hchain
  have hmoved : littleEndian moved < 256 ^ bytes.length := hlength ▸ littleEndian_lt moved
  rw [Bool.toNat_false, Nat.add_zero] at hnumber
  refine ⟨hlength, ?_, ?_⟩
  · rw [← hnumber, Nat.add_mul_mod_self_left, Nat.mod_eq_of_lt hmoved]
  · apply toNat_bit_inj.mp
    rw [toNat_top hbytes, ← hnumber, Nat.add_mul_div_left _ _ (by positivity),
      Nat.div_eq_of_lt hmoved, Nat.zero_add]

theorem halved_of_chain (hbytes : bytes ≠ [])
    (hchain : chain (halving bytes.length) bytes.reverse carry = (moved, last)) :
    Halved bytes moved.reverse last := by
  rw [← List.length_reverse] at hchain
  have hlength := length_chain (length_series _ _ (by simpa using hbytes)) hchain
  rw [halving, chain_series right_eq_rotateRight (fun _ => rfl) (by simpa using hbytes)] at hchain
  have hnumber := chain_rotateRight hchain
  have hlast := last.toNat_le
  rw [List.reverse_reverse, Bool.toNat_false, Nat.mul_zero, Nat.add_zero] at hnumber
  refine ⟨by rw [List.length_reverse, hlength, List.length_reverse], ?_, ?_⟩
  · omega
  · omega

/-- Rotated to the left and back to the right, bytes and carry are what they were. -/
theorem chain_rotated_back
    (hup : chain (.replicate bytes.length .rotateLeft) bytes carry = (up, middle))
    (hdown : chain (.replicate bytes.length .rotateRight) up.reverse middle = (down, last)) :
    down.reverse = bytes ∧ last = carry := by
  have hlengthUp := length_chain List.length_replicate hup
  rw [← hlengthUp, ← List.length_reverse] at hdown
  have hlengthDown := length_chain List.length_replicate hdown
  have hdoubled := chain_rotateLeft hup
  have hhalved := chain_rotateRight hdown
  have hcarry := carry.toNat_le
  have hlast := last.toNat_le
  rw [List.reverse_reverse, List.length_reverse, hlengthUp, hdoubled] at hhalved
  constructor
  · apply (littleEndian_inj (by simp [hlengthUp, hlengthDown])).mp
    omega
  · apply toNat_bit_inj.mp
    omega

end Shift

end Machine6502
