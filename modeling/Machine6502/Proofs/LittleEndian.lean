import Mathlib.Data.Nat.Digits.Defs
import Machine6502.Memory

/-!
# Numbers of several bytes

The number that a list of bytes stands for, its lowest byte first.  A number and its width
determine the bytes.
-/

namespace Machine6502

def littleEndian (bytes : List UInt8) : Nat :=
  Nat.ofDigits 256 (bytes.map UInt8.toNat)

@[simp]
theorem littleEndian_nil : littleEndian [] = 0 :=
  rfl

@[simp]
theorem littleEndian_cons (byte : UInt8) (bytes : List UInt8) :
    littleEndian (byte :: bytes) = byte.toNat + 256 * littleEndian bytes := by
  rw [littleEndian, List.map_cons, Nat.ofDigits_cons, littleEndian]

theorem littleEndian_concat (bytes : List UInt8) (byte : UInt8) :
    littleEndian (bytes ++ [byte]) = littleEndian bytes + 256 ^ bytes.length * byte.toNat := by
  rw [littleEndian, List.map_append, Nat.ofDigits_append, List.length_map, List.map_singleton,
    Nat.ofDigits_singleton, littleEndian]

theorem digit_lt (bytes : List UInt8) : ∀ digit ∈ bytes.map UInt8.toNat, digit < 256 := by
  intro digit hdigit
  obtain ⟨byte, -, rfl⟩ := List.mem_map.mp hdigit
  exact byte.toNat_lt

theorem littleEndian_lt (bytes : List UInt8) : littleEndian bytes < 256 ^ bytes.length := by
  have hlt := Nat.ofDigits_lt_base_pow_length (by decide) (digit_lt bytes)
  rwa [List.length_map] at hlt

theorem littleEndian_inj {first second : List UInt8} (hlength : first.length = second.length) :
    littleEndian first = littleEndian second ↔ first = second := by
  refine ⟨fun hnumber => ?_, congrArg littleEndian⟩
  have hdigits : first.map UInt8.toNat = second.map UInt8.toNat :=
    Nat.ofDigits_inj_of_len_eq (by decide) (by simpa using hlength) (digit_lt first)
      (digit_lt second) hnumber
  exact (List.map_inj_right fun _ _ => UInt8.toNat_inj.mp).mp hdigits

end Machine6502
