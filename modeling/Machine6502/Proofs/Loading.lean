import Mathlib.Data.List.GetD
import Machine6502.Proofs.FullMemory
import Machine6502.Proofs.Storage

/-!
# Loaded programs

A program that is loaded below the reset vector stands in memory byte by byte, and a
reset starts at its origin.
-/

namespace Machine6502

namespace Memory

variable {memory : Memory} {address : UInt16}

/-- The cells from an address on hold some bytes. -/
def HoldsAt (memory : Memory) (address : UInt16) (bytes : List UInt8) : Prop :=
  ∀ index < bytes.length, memory.read (address + UInt16.ofNat index) = bytes.getD index 0

theorem HoldsAt.head {byte : UInt8} {bytes : List UInt8}
    (hholds : memory.HoldsAt address (byte :: bytes)) : memory.read address = byte := by
  have hfirst := hholds 0 (Nat.succ_pos bytes.length)
  have hhere : address + UInt16.ofNat 0 = address := UInt16.add_zero address
  rwa [hhere] at hfirst

theorem HoldsAt.behind {before bytes : List UInt8}
    (hholds : memory.HoldsAt address (before ++ bytes)) :
    memory.HoldsAt (address + UInt16.ofNat before.length) bytes := by
  intro index hindex
  have hlater := hholds (before.length + index) (by rw [List.length_append]; omega)
  rw [UInt16.ofNat_add, ← UInt16.add_assoc] at hlater
  rw [hlater, List.getD_append_right _ _ _ _ (Nat.le_add_right _ _), Nat.add_sub_cancel_left]

/-- An address that does not go around the top. -/
theorem toNat_add_ofNat {index : Nat} (hfits : address.toNat + index < addressCount) :
    (address + UInt16.ofNat index).toNat = address.toNat + index := by
  rw [addressCount] at hfits
  rw [UInt16.toNat_add, UInt16.toNat_ofNat']
  omega

/-- Changes behind bytes that do not go around the top leave them in place. -/
theorem HoldsAt.congr {other : Memory} {bytes : List UInt8} (hholds : memory.HoldsAt address bytes)
    (hfits : address.toNat + bytes.length ≤ addressCount)
    (hsame : ∀ cell : UInt16, cell.toNat < address.toNat + bytes.length →
      other.read cell = memory.read cell) : other.HoldsAt address bytes := by
  intro index hindex
  have hcell := @toNat_add_ofNat address index (by omega)
  rw [hsame _ (by omega), hholds index hindex]

/-- A program that ends below the top is copied in one block. -/
theorem copy_of_fits {start : UInt16} {bytes : List UInt8}
    (hfits : start.toNat + bytes.length ≤ addressCount) :
    memory.copy start bytes = memory.place start.toNat bytes := by
  have hblock : blockLength start bytes.length = bytes.length :=
    Nat.min_eq_left (Nat.le_sub_of_add_le (Nat.add_comm _ _ ▸ hfits))
  simp only [copy, hblock, List.take_length, List.drop_length, writeAll]

theorem holdsAt_copy {start : UInt16} {bytes : List UInt8} (hfull : memory.size = addressCount)
    (hfits : start.toNat + bytes.length ≤ addressCount) :
    (memory.copy start bytes).HoldsAt start bytes := by
  intro index hindex
  have hcell := @toNat_add_ofNat start index (by omega)
  rw [copy_of_fits hfits, read_place _ _ _ _ (hfull ▸ hfits), hcell,
    if_pos ⟨Nat.le_add_right _ _, Nat.add_lt_add_left hindex _⟩, Nat.add_sub_cancel_left]

/-- A copy finds all cells there, and leaves their number. -/
theorem size_copy_of_full (hfull : memory.size = addressCount) (start : UInt16)
    (bytes : List UInt8) : (memory.copy start bytes).size = addressCount := by
  rw [size_copy _ _ _ (coversCopy_of_full (Nat.le_of_eq hfull.symm) _ _), hfull]

section WriteWord

variable (hfull : memory.size = addressCount) (address word : UInt16)

include hfull

theorem read_writeWord (other : UInt16) :
    (memory.writeWord address word).read other =
      if other = address + 1 then highByte word
      else if other = address then lowByte word else memory.read other := by
  have hwritten : (memory.write address (lowByte word)).size = addressCount :=
    (size_write memory address _).trans hfull
  rw [writeWord, read_write_eq_update hwritten, read_write_eq_update hfull,
    Function.update_apply, Function.update_apply]

theorem readWord_writeWord : (memory.writeWord address word).readWord address = word := by
  have hnext : address ≠ address + 1 := by simp
  rw [readWord, read_writeWord hfull, read_writeWord hfull, if_neg hnext, if_pos rfl, if_pos rfl,
    wordOf_bytes]

end WriteWord

end Memory

namespace Cpu

variable {cpu : Cpu} (hfull : cpu.memory.size = Memory.addressCount) {program : List UInt8}
variable {origin : UInt16}

include hfull

/-- A reset after loading starts at the origin, even if the program runs over the reset
vector. -/
theorem pc_reset_loadAt : (cpu.loadAt program origin).reset.pc = origin :=
  Memory.readWord_writeWord (Memory.size_copy_of_full hfull origin program) resetVector origin

/-- The origin is written over the copy of the program. -/
theorem read_loadAt (address : UInt16) : (cpu.loadAt program origin).memory.read address =
    if address = resetVector + 1 then highByte origin
    else if address = resetVector then lowByte origin
    else (cpu.memory.copy origin program).read address :=
  Memory.read_writeWord (Memory.size_copy_of_full hfull origin program) resetVector origin address

theorem holdsAt_loadAt (hfits : origin.toNat + program.length ≤ resetVector.toNat) :
    (cpu.loadAt program origin).memory.HoldsAt origin program := by
  have hvector : resetVector.toNat < Memory.addressCount := by decide
  refine (Memory.holdsAt_copy hfull (by omega)).congr (by omega) fun cell hcell => ?_
  have hlow : cell ≠ resetVector := fun h => by rw [h] at hcell; omega
  have hhigh : cell ≠ resetVector + 1 := fun h => by
    have hnext : (resetVector + 1).toNat = resetVector.toNat + 1 := rfl
    rw [h, hnext] at hcell
    omega
  rw [read_loadAt hfull, if_neg hhigh, if_neg hlow]

end Cpu

end Machine6502
