import Mathlib.Order.Interval.Set.Defs
import Machine6502.Proofs.Sessions
import Machine6502.Proofs.SnapshotFormat

/-!
# Restored machines

A snapshot tells how many cells its machine has, and no number of them is refused.  So
a machine that is read from a snapshot may lack cells.  Whether a session can come to
lack one is told by their number alone.
-/

namespace Machine6502

/-- The session that reads one cell. -/
def Session.reading (address : UInt16) : Session Reply :=
  .perform (.read address) rfl .finish

namespace Cpu

/-- No session lacks a cell, whatever it does with the machine, with another one that has
all cells, and with a screen. -/
def Usable (cpu : Cpu) : Prop :=
  ∀ (saved : Cpu), Memory.addressCount ≤ saved.memory.size →
    ∀ (screen : Screen) (α : Type) (session : Session α),
      ∃ result final, session.play ⟨cpu, saved, screen⟩ = some (result, final)

variable {cpu : Cpu}

theorem usable_of_full (hfull : Memory.addressCount ≤ cpu.memory.size) : cpu.Usable := by
  intro saved hsaved screen α session
  have hsizes : Sufficient (Set.Ici Memory.addressCount) :=
    ⟨fun _ hsize => hsize, Nat.le_refl Memory.addressCount⟩
  have hsized : Monitor.Sized (Set.Ici Memory.addressCount) ⟨cpu, saved, screen⟩ := ⟨hfull, hsaved⟩
  obtain ⟨result, final, hplay, -⟩ := session.play_of_sized hsizes hsized
  exact ⟨result, final, hplay⟩

theorem play_reading_of_lack {address : UInt16} (hlack : cpu.memory.size ≤ address.toNat)
    (saved : Cpu) (screen : Screen) :
    (Session.reading address).play ⟨cpu, saved, screen⟩ = none := by
  have hcovers : ¬cpu.memory.covers [address] = true := by
    simp [Memory.covers, Memory.has, hlack]
  have hperform : Monitor.perform ⟨cpu, saved, screen⟩ (.read address) = none := if_neg hcovers
  simp only [Session.reading, Session.play, hperform, Option.bind_none]

/-- A machine can be used for anything exactly when it has a cell for every address. -/
theorem usable_iff_full : cpu.Usable ↔ Memory.addressCount ≤ cpu.memory.size := by
  refine ⟨fun husable => ?_, usable_of_full⟩
  by_contra hshort
  -- The first address without a cell.
  obtain ⟨address, haddress⟩ : ∃ address : UInt16, address.toNat = cpu.memory.size :=
    ⟨UInt16.ofNat cpu.memory.size, UInt16.toNat_ofNat_of_lt' (Nat.lt_of_not_le hshort)⟩
  have hnew : Memory.addressCount ≤ initial.memory.size := Nat.le_of_eq Memory.size_blank.symm
  obtain ⟨result, final, hplay⟩ := husable initial hnew .blank Reply (.reading address)
  rw [play_reading_of_lack (Nat.le_of_eq haddress.symm)] at hplay
  cases hplay

/-- A machine that is read from bytes has the cells that the bytes say it has, any number
of them.  It can be used for anything exactly when it has one for every address, and if
it has exactly these cells, it keeps them. -/
theorem usable_of_decode {bytes : List UInt8} {cpu : Cpu}
    (hdecode : Snapshot.decode bytes = .ok cpu) :
    ∃ count, Snapshot.announcedCells bytes = .ok count ∧ cpu.memory.size = count ∧
      count < 2 ^ 64 ∧ (cpu.Usable ↔ Memory.addressCount ≤ count) ∧
      (count = Memory.addressCount →
        ∀ (screen : Screen) (α : Type) (session : Session α), ∃ result final,
          session.play ⟨cpu, initial, screen⟩ = some (result, final) ∧
            final.cpu.memory.size = Memory.addressCount) := by
  obtain ⟨hannounced, hbound⟩ := Snapshot.size_of_decode hdecode
  refine ⟨cpu.memory.size, hannounced, rfl, hbound, usable_iff_full, ?_⟩
  intro hfull screen α session
  have hsized : Monitor.Sized {Memory.addressCount} ⟨cpu, initial, screen⟩ :=
    ⟨hfull, (Monitor.sized_initial .singleton).cpu⟩
  obtain ⟨result, final, hplay, hfinal⟩ := session.play_of_sized .singleton hsized
  exact ⟨result, final, hplay, hfinal.cpu⟩

/-- A new machine is read from its snapshot and can be used for anything. -/
theorem usable_of_decode_initial :
    Snapshot.decode (Snapshot.encode initial ++ []) = .ok initial ∧ initial.Usable := by
  have hsize : initial.memory.size = Memory.addressCount := Memory.size_blank
  have hdecode := @Snapshot.decode_encode_append initial (hsize ▸ by decide) []
  obtain ⟨count, -, hcount, -, husable, -⟩ := usable_of_decode hdecode
  exact ⟨hdecode, husable.mpr (Nat.le_of_eq (hsize.symm.trans hcount))⟩

/-- Eight zero bytes are the snapshot of a machine without any cells, on which not even
the cell of address 0 can be read. -/
theorem decode_without_cells :
    ∃ cpu, Snapshot.decode (List.replicate 8 0) = .ok cpu ∧
      cpu.memory.size ≠ Memory.addressCount ∧
      Monitor.perform ⟨cpu, initial, .blank⟩ (.read 0) = none ∧ cpu.step? = none := by
  refine ⟨⟨0, 0, 0, 0, 0, .ofByte 0, false, ⟨#[]⟩⟩, rfl, by decide, rfl, rfl⟩

end Cpu

end Machine6502
