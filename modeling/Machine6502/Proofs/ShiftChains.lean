import Mathlib.Data.List.Nodup
import Machine6502.Proofs.BitMoves
import Machine6502.Proofs.EffectiveAddress
import Machine6502.Proofs.Flags

/-!
# Shifting numbers of several bytes

The shift and rotate instructions are called one after the other on the bytes of a number, which
a client brings into the accumulator or which stand in memory.  Either way the carry that a call
leaves is what the next one finds, so that the calls move the bits of the number as a whole.
Nothing else is changed: no register but the accumulator, no cell but those of the bytes, and of
the flags only carry, zero and negative.
-/

namespace Machine6502

/-- The flags that a shift sets, from one status, and the others from another. -/
def Status.withShift (status shifted : Status) : Status :=
  { status with carry := shifted.carry, zero := shifted.zero, negative := shifted.negative }

/-- A cell, the mode that names it, and the registers that the mode reads. -/
structure Place where
  address : UInt16
  mode : Mode
  pc : UInt16
  x : UInt8
  y : UInt8

/-- Gets the registers ready for a call that works on the cell. -/
def Place.prepare (place : Place) (cpu : Cpu) : Cpu :=
  { cpu with pc := place.pc, x := place.x, y := place.y }

/-- Which cells are there is told by their number. -/
theorem Memory.covers_congr {first second : Memory} (hsize : first.size = second.size)
    (addresses : List UInt16) : first.covers addresses = second.covers addresses := by
  have hhas : first.has = second.has := funext fun address => by rw [has, has, hsize]
  rw [covers, covers, hhas]

namespace Cpu

section Accumulator

/-- Only the accumulator and the flags of a shift differ. -/
def ChangesA (before after : Cpu) : Prop :=
  after = { before with a := after.a, status := before.status.withShift after.status }

/-- The accumulator forms are called on some bytes in turn.  Before each call a client brings the
byte into the accumulator, in any way that keeps the carry, and what the call leaves there is
the byte it saves.  What else the client may do is told by `loads`. -/
inductive ShiftsLoaded (loads : Cpu → Cpu → Prop) :
    Cpu → List Shift → List UInt8 → List UInt8 → Cpu → Prop
  | done (cpu : Cpu) : ShiftsLoaded loads cpu [] [] [] cpu
  | call {cpu ready next last : Cpu} {operation : Shift} {operations : List Shift} {byte : UInt8}
      {bytes moved : List UInt8} {mode : Mode} (hloads : loads cpu ready)
      (hcarry : ready.status.carry = cpu.status.carry) (hloaded : ready.a = byte)
      (hcall : ready.execute? (.implied (.shift operation)) mode = some (none, next))
      (hrest : ShiftsLoaded loads next operations bytes moved last) :
      ShiftsLoaded loads cpu (operation :: operations) (byte :: bytes) (next.a :: moved) last

/-- What the accumulator forms do with numbers, whatever a client does between the calls. -/
structure MovesThroughA (cpu : Cpu) : Prop where
  runs : ∀ (operations : List Shift) (bytes : List UInt8), operations.length = bytes.length →
    ∃ moved last, cpu.ShiftsLoaded ChangesA operations bytes moved last
  changes : ∀ {loads operations bytes moved last},
    (∀ before after, loads before after → before.ChangesA after) →
    cpu.ShiftsLoaded loads operations bytes moved last → cpu.ChangesA last
  doubles : ∀ {loads bytes moved last}, bytes ≠ [] →
    cpu.ShiftsLoaded loads (Shift.doubling bytes.length) bytes moved last →
    Shift.Doubled bytes moved last.status.carry
  halves : ∀ {loads bytes moved last}, bytes ≠ [] →
    cpu.ShiftsLoaded loads (Shift.halving bytes.length) bytes.reverse moved last →
    Shift.Halved bytes moved.reverse last.status.carry
  restores : ∀ {loads bytes up middle down last},
    cpu.ShiftsLoaded loads (.replicate bytes.length .rotateLeft) bytes up middle →
    middle.ShiftsLoaded loads (.replicate bytes.length .rotateRight) up.reverse down last →
    down.reverse = bytes ∧ last.status.carry = cpu.status.carry

variable {loads : Cpu → Cpu → Prop} {before middle after cpu last : Cpu}
  {operations : List Shift} {bytes moved : List UInt8}

theorem ChangesA.trans (hfirst : before.ChangesA middle) (hsecond : middle.ChangesA after) :
    before.ChangesA after := by
  rw [ChangesA, hsecond, hfirst]
  rfl

/-- The accumulator form of a shift has a result whatever the mode it is called with. -/
theorem execute?_shift_eq_some_iff {cpu next : Cpu} {operation : Shift} {mode : Mode} :
    cpu.execute? (.implied (.shift operation)) mode = some (none, next) ↔
      next = (Implied.shift operation).apply cpu := by
  have hcall : cpu.execute? (.implied (.shift operation)) mode =
      some (none, (Implied.shift operation).apply cpu) := rfl
  rw [hcall, Option.some.injEq, Prod.mk.injEq, eq_self, true_and, eq_comm]

theorem changesA_shift (cpu : Cpu) (operation : Shift) :
    cpu.ChangesA ((Implied.shift operation).apply cpu) :=
  rfl

/-- A byte is brought into the accumulator and recorded as a result. -/
theorem changesA_load (cpu : Cpu) (byte : UInt8) : cpu.ChangesA (cpu.setResult .a byte) :=
  rfl

theorem ShiftsLoaded.chain (hshifts : cpu.ShiftsLoaded loads operations bytes moved last) :
    Shift.chain operations bytes cpu.status.carry = (moved, last.status.carry) := by
  induction hshifts with
  | done cpu => rfl
  | call _ hcarry hloaded hcall _ ih =>
      obtain rfl := execute?_shift_eq_some_iff.mp hcall
      rw [← hcarry, ← hloaded]
      exact Shift.chain_cons_eq_iff.mpr ⟨_, rfl, ih⟩

theorem ShiftsLoaded.changesA (hloads : ∀ before after, loads before after → before.ChangesA after)
    (hshifts : cpu.ShiftsLoaded loads operations bytes moved last) : cpu.ChangesA last := by
  induction hshifts with
  | done cpu => rfl
  | call hload _ _ hcall _ ih =>
      obtain rfl := execute?_shift_eq_some_iff.mp hcall
      exact ((hloads _ _ hload).trans (changesA_shift _ _)).trans ih

theorem exists_shiftsLoaded (hlength : operations.length = bytes.length) :
    ∃ moved last, cpu.ShiftsLoaded ChangesA operations bytes moved last := by
  induction operations generalizing cpu bytes with
  | nil =>
      obtain rfl := List.length_eq_zero_iff.mp hlength.symm
      exact ⟨[], cpu, .done cpu⟩
  | cons operation operations ih =>
      obtain ⟨byte, bytes, rfl⟩ := List.exists_cons_of_length_eq_add_one hlength.symm
      let ready := cpu.setResult .a byte
      have hcall : ready.execute? (.implied (.shift operation)) .implied =
          some (none, (Implied.shift operation).apply ready) := execute?_shift_eq_some_iff.mpr rfl
      obtain ⟨moved, last, hrest⟩ := ih (Nat.succ.inj hlength)
      exact ⟨_, last, .call (changesA_load cpu byte) rfl rfl hcall hrest⟩

theorem movesThroughA (cpu : Cpu) : cpu.MovesThroughA where
  runs _ _ := exists_shiftsLoaded
  changes := ShiftsLoaded.changesA
  doubles hbytes hshifts := Shift.doubled_of_chain hbytes hshifts.chain
  halves hbytes hshifts := Shift.halved_of_chain hbytes hshifts.chain
  restores hup hdown := Shift.chain_rotated_back hup.chain hdown.chain

end Accumulator

section Cells

/-- Calls the memory forms on some cells in turn, each call with its registers made ready. -/
def shiftCells : List Shift → List Place → Cpu → Option Cpu
  | operation :: operations, place :: places, cpu =>
      match (place.prepare cpu).execute? (.addressed (.shift operation)) place.mode with
      | some (none, next) => shiftCells operations places next
      | _ => none
  | _, _, cpu => some cpu

def bytesAt (cpu : Cpu) (places : List Place) : List UInt8 :=
  places.map fun place => cpu.read place.address

/-- What getting the registers ready for each cell in turn leaves by itself. -/
def prepared (cpu : Cpu) (places : List Place) : Cpu :=
  places.foldl (fun cpu place => place.prepare cpu) cpu

/-- The places name their cells, and no cell that a call looks at is missing, as none is when
there is one for every address.  The cells of the places are distinct, and none of them decides
where one of them is. -/
structure Finds (cpu : Cpu) (places : List Place) : Prop where
  named : ∀ place ∈ places, (place.prepare cpu).operandAddress place.mode = .ok place.address
  present : ∀ place ∈ places,
    cpu.memory.covers (place.mode.needed (place.prepare cpu) ++ [place.address]) = true
  distinct : (places.map Place.address).Nodup
  apart : ∀ place ∈ places, ∀ other ∈ places,
    place.address ∉ other.mode.consulted (other.prepare cpu)

/-- The machine with the memory and the flags of a shift from another one. -/
def withShifted (cpu shifted : Cpu) : Cpu :=
  { cpu with memory := shifted.memory, status := cpu.status.withShift shifted.status }

/-- But for the registers that are made ready, only the cells of the places and the flags of a
shift differ. -/
structure ChangesCells (before : Cpu) (places : List Place) (after : Cpu) : Prop where
  registers : after = (before.prepared places).withShifted after
  cells : ∀ address, address ∉ places.map Place.address → after.read address = before.read address
  size : after.memory.size = before.memory.size

/-- What the memory forms do with the number in some cells. -/
structure MovesCells (cpu : Cpu) (places : List Place) : Prop where
  doubles : ∃ last, cpu.shiftCells (Shift.doubling places.length) places = some last ∧
    Shift.Doubled (cpu.bytesAt places) (last.bytesAt places) last.status.carry ∧
    cpu.ChangesCells places last
  halves : ∃ last, cpu.shiftCells (Shift.halving places.length) places.reverse = some last ∧
    Shift.Halved (cpu.bytesAt places) (last.bytesAt places) last.status.carry ∧
    cpu.ChangesCells places.reverse last
  restores : ∃ up down,
    cpu.shiftCells (.replicate places.length .rotateLeft) places = some up ∧
    up.shiftCells (.replicate places.length .rotateRight) places.reverse = some down ∧
    down.bytesAt places = cpu.bytesAt places ∧ down.status.carry = cpu.status.carry ∧
    cpu.ChangesCells (places ++ places.reverse) down

variable {before middle after cpu : Cpu} {place : Place} {places others : List Place}
  {operations : List Shift}

/-- What is made ready for a cell does not depend on memory and flags. -/
theorem prepared_withShifted (cpu shifted : Cpu) (places : List Place) :
    (cpu.withShifted shifted).prepared places = (cpu.prepared places).withShifted shifted := by
  induction places generalizing cpu with
  | nil => rfl
  | cons place places ih => exact ih (place.prepare cpu)

theorem prepared_append (cpu : Cpu) (places others : List Place) :
    cpu.prepared (places ++ others) = (cpu.prepared places).prepared others :=
  List.foldl_append

theorem ChangesCells.trans (hfirst : before.ChangesCells places middle)
    (hsecond : middle.ChangesCells others after) :
    before.ChangesCells (places ++ others) after where
  registers := by
    calc
      after = (middle.prepared others).withShifted after := hsecond.registers
      _ = (((before.prepared places).withShifted middle).prepared others).withShifted after := by
            rw [← hfirst.registers]
      _ = (before.prepared (places ++ others)).withShifted after := by
            rw [prepared_withShifted, prepared_append]
            rfl
  cells address haddress := by
    rw [List.map_append, List.mem_append, not_or] at haddress
    rw [hsecond.cells address haddress.2, hfirst.cells address haddress.1]
  size := hsecond.size.trans hfirst.size

/-- Changing cells of the places does not change where the places are found. -/
theorem Finds.of_changes (hfinds : before.Finds places)
    (hchanges : before.ChangesCells others after) (hothers : others ⊆ places) :
    after.Finds places := by
  have hread : ∀ place ∈ places, ∀ address ∈ place.mode.consulted (place.prepare before),
      (place.prepare after).read address = (place.prepare before).read address := by
    intro place hplace address haddress
    refine hchanges.cells address fun hmem => ?_
    obtain ⟨other, hother, rfl⟩ := List.mem_map.mp hmem
    exact hfinds.apart other (hothers hother) place hplace haddress
  have hsame : ∀ place ∈ places,
      place.mode.consulted (place.prepare after) = place.mode.consulted (place.prepare before) ∧
        place.mode.needed (place.prepare after) = place.mode.needed (place.prepare before) :=
    fun place hplace => consulted_congr rfl rfl (hread place hplace)
  refine ⟨fun place hplace => ?_, fun place hplace => ?_, hfinds.distinct,
    fun place hplace other hother => ?_⟩
  · have hnamed : (place.prepare after).operandAddress place.mode =
        (place.prepare before).operandAddress place.mode :=
      operandAddress_congr rfl rfl rfl (hread place hplace)
    exact hnamed.trans (hfinds.named place hplace)
  · rw [(hsame place hplace).2, Memory.covers_congr hchanges.size]
    exact hfinds.present place hplace
  · rw [(hsame other hother).1]
    exact hfinds.apart place hplace other hother

theorem Finds.tail (hfinds : cpu.Finds (place :: places)) : cpu.Finds places where
  named other hother := hfinds.named other (.tail _ hother)
  present other hother := hfinds.present other (.tail _ hother)
  distinct := (List.nodup_cons.mp hfinds.distinct).2
  apart other hother another hanother :=
    hfinds.apart other (.tail _ hother) another (.tail _ hanother)

theorem Finds.reverse (hfinds : cpu.Finds places) : cpu.Finds places.reverse where
  named place hplace := hfinds.named place (List.mem_reverse.mp hplace)
  present place hplace := hfinds.present place (List.mem_reverse.mp hplace)
  distinct := by
    rw [List.map_reverse]
    exact List.nodup_reverse.mpr hfinds.distinct
  apart place hplace other hother :=
    hfinds.apart place (List.mem_reverse.mp hplace) other (List.mem_reverse.mp hother)

/-- One call moves the bits of its cell and changes no other. -/
theorem exists_shiftCell (hfinds : cpu.Finds places) (hplace : place ∈ places)
    (operation : Shift) :
    ∃ next, (place.prepare cpu).execute? (.addressed (.shift operation)) place.mode =
        some (none, next) ∧
      next.read place.address = operation.value (cpu.read place.address) cpu.status.carry ∧
      next.status.carry = operation.carry (cpu.read place.address) ∧
      cpu.ChangesCells [place] next := by
  have hpresent := hfinds.present place hplace
  have hcell : place.address.toNat < cpu.memory.size := by
    simpa [Memory.has] using List.all_eq_true.mp hpresent place.address (by simp)
  have hread := cpu.memory.read_write place.address
  refine ⟨_, execute?_of_covers (hfinds.named place hplace) hpresent (.shift operation), ?_, rfl,
    ⟨rfl, fun address haddress => ?_, Memory.size_write cpu.memory place.address _⟩⟩
  · exact (hread place.address _ hcell).trans (if_pos rfl)
  · exact (hread address _ hcell).trans (if_neg (by simpa using haddress))

theorem ChangesCells.bytesAt (hchanges : before.ChangesCells others after)
    (hdisjoint : ∀ place ∈ places, place.address ∉ others.map Place.address) :
    after.bytesAt places = before.bytesAt places :=
  List.map_congr_left fun place hplace => hchanges.cells place.address (hdisjoint place hplace)

theorem shiftCells_cons {next : Cpu} {operation : Shift}
    (hcall : (place.prepare cpu).execute? (.addressed (.shift operation)) place.mode =
      some (none, next)) :
    cpu.shiftCells (operation :: operations) (place :: places) =
      next.shiftCells operations places := by
  rw [shiftCells, hcall]

/-- The calls move the bits of the bytes in the cells, and change nothing else. -/
theorem exists_shiftCells (hfinds : cpu.Finds places)
    (hlength : operations.length = places.length) :
    ∃ last, cpu.shiftCells operations places = some last ∧
      Shift.chain operations (cpu.bytesAt places) cpu.status.carry =
        (last.bytesAt places, last.status.carry) ∧
      cpu.ChangesCells places last := by
  induction operations generalizing cpu places with
  | nil =>
      obtain rfl := List.length_eq_zero_iff.mp hlength.symm
      exact ⟨cpu, rfl, rfl, rfl, fun _ _ => rfl, rfl⟩
  | cons operation operations ih =>
      obtain ⟨place, places, rfl⟩ := List.exists_cons_of_length_eq_add_one hlength.symm
      obtain ⟨hfirst, -⟩ := List.nodup_cons.mp hfinds.distinct
      obtain ⟨next, hcall, hmoved, hcarry, hnext⟩ :=
        exists_shiftCell hfinds List.mem_cons_self operation
      have hfound : next.Finds (place :: places) :=
        hfinds.of_changes hnext (List.cons_subset_cons place (List.nil_subset places))
      obtain ⟨last, hcalls, hchain, hlast⟩ := ih hfound.tail (Nat.succ.inj hlength)
      -- The first call leaves the other cells, and the other calls leave the first cell.
      have hbytes : next.bytesAt places = cpu.bytesAt places := by
        refine hnext.bytesAt fun other hother hmem => hfirst ?_
        rw [← List.mem_singleton.mp hmem]
        exact List.mem_map_of_mem hother
      have hcell : last.read place.address = next.read place.address :=
        hlast.cells place.address hfirst
      refine ⟨last, (shiftCells_cons hcall).trans hcalls, ?_, hnext.trans hlast⟩
      rw [bytesAt, bytesAt, List.map_cons, List.map_cons, hcell, hmoved]
      rw [hbytes, hcarry] at hchain
      exact Shift.chain_cons_eq_iff.mpr ⟨_, rfl, hchain⟩

theorem length_bytesAt (cpu : Cpu) (places : List Place) :
    (cpu.bytesAt places).length = places.length :=
  List.length_map _

theorem bytesAt_reverse (cpu : Cpu) (places : List Place) :
    cpu.bytesAt places.reverse = (cpu.bytesAt places).reverse :=
  List.map_reverse

theorem bytesAt_ne_nil (hplaces : places ≠ []) (cpu : Cpu) : cpu.bytesAt places ≠ [] :=
  mt List.map_eq_nil_iff.mp hplaces

theorem exists_doubled (hplaces : places ≠ []) (hfinds : cpu.Finds places) :
    ∃ last, cpu.shiftCells (Shift.doubling places.length) places = some last ∧
      Shift.Doubled (cpu.bytesAt places) (last.bytesAt places) last.status.carry ∧
      cpu.ChangesCells places last := by
  have hlength := Shift.length_series .left .rotateLeft (mt List.length_eq_zero_iff.mp hplaces)
  obtain ⟨last, hcalls, hchain, hchanges⟩ := exists_shiftCells hfinds hlength
  rw [← length_bytesAt cpu places] at hchain
  exact ⟨last, hcalls, Shift.doubled_of_chain (bytesAt_ne_nil hplaces cpu) hchain, hchanges⟩

theorem exists_halved (hplaces : places ≠ []) (hfinds : cpu.Finds places) :
    ∃ last, cpu.shiftCells (Shift.halving places.length) places.reverse = some last ∧
      Shift.Halved (cpu.bytesAt places) (last.bytesAt places) last.status.carry ∧
      cpu.ChangesCells places.reverse last := by
  have hlength := Shift.length_series .right .rotateRight (mt List.length_eq_zero_iff.mp hplaces)
  obtain ⟨last, hcalls, hchain, hchanges⟩ :=
    exists_shiftCells hfinds.reverse (hlength.trans List.length_reverse.symm)
  rw [← length_bytesAt cpu places, bytesAt_reverse] at hchain
  have hhalved := Shift.halved_of_chain (bytesAt_ne_nil hplaces cpu) hchain
  rw [bytesAt_reverse, List.reverse_reverse] at hhalved
  exact ⟨last, hcalls, hhalved, hchanges⟩

/-- On the way back the cells are found where they were on the way up. -/
theorem exists_rotated_back (hfinds : cpu.Finds places) :
    ∃ up down, cpu.shiftCells (.replicate places.length .rotateLeft) places = some up ∧
      up.shiftCells (.replicate places.length .rotateRight) places.reverse = some down ∧
      down.bytesAt places = cpu.bytesAt places ∧ down.status.carry = cpu.status.carry ∧
      cpu.ChangesCells (places ++ places.reverse) down := by
  obtain ⟨up, hup, hchainUp, hchangesUp⟩ := exists_shiftCells hfinds List.length_replicate
  have hback := (hfinds.of_changes hchangesUp (List.Subset.refl places)).reverse
  obtain ⟨down, hdown, hchainDown, hchangesDown⟩ :=
    exists_shiftCells hback (List.length_replicate.trans List.length_reverse.symm)
  rw [← length_bytesAt cpu places] at hchainUp
  rw [← length_bytesAt cpu places, bytesAt_reverse] at hchainDown
  obtain ⟨hrestored, hcarry⟩ := Shift.chain_rotated_back hchainUp hchainDown
  rw [bytesAt_reverse, List.reverse_reverse] at hrestored
  exact ⟨up, down, hup, hdown, hrestored, hcarry, hchangesUp.trans hchangesDown⟩

/-- Called on the bytes of a number in turn, the shift and rotate instructions double it from its
lowest byte on and halve it from its highest byte on, and the rotations to the left and back to
the right restore it.  This holds of bytes that are loaded into the accumulator, whatever else is
done between the calls, and of bytes in distinct cells none of which is looked at to find one of
them. -/
theorem shift_chains (cpu : Cpu) :
    cpu.MovesThroughA ∧
      ∀ places : List Place, places ≠ [] → cpu.Finds places → cpu.MovesCells places :=
  ⟨movesThroughA cpu, fun _ hplaces hfinds =>
    ⟨exists_doubled hplaces hfinds, exists_halved hplaces hfinds, exists_rotated_back hfinds⟩⟩

/-- Two cells of page zero that hold 32896.  Its double is 256 and a carry. -/
theorem shift_chains_of_two_cells :
    ∃ places : List Place, places ≠ [] ∧
      (holding [0x03, 0x04, 0x00, 0x80, 0x80]).Finds places ∧
      ∃ last, (holding [0x03, 0x04, 0x00, 0x80, 0x80]).shiftCells [.left, .rotateLeft] places =
          some last ∧
        littleEndian (last.bytesAt places) = 256 ∧ last.status.carry = true := by
  have hread := read_holding [0x03, 0x04, 0x00, 0x80, 0x80] (by decide)
  have hsize := size_holding [0x03, 0x04, 0x00, 0x80, 0x80] (by decide)
  let places : List Place := [⟨3, .zeroPage, 0, 0, 0⟩, ⟨4, .zeroPage, 1, 0, 0⟩]
  have hfinds : (holding [0x03, 0x04, 0x00, 0x80, 0x80]).Finds places := by
    refine ⟨?_, fun place _ => Memory.covers_of_full _ _ (Nat.le_of_eq hsize.symm), by decide, ?_⟩
    · simp [places, operandAddress, read, Place.prepare, hread]
    · simp [places, Mode.consulted, Mode.needed, Place.prepare]
  obtain ⟨-, hmoves⟩ := shift_chains (holding [0x03, 0x04, 0x00, 0x80, 0x80])
  obtain ⟨last, hcalls, hdoubled, -⟩ := (hmoves places (by simp [places]) hfinds).doubles
  have hnumber : (holding [0x03, 0x04, 0x00, 0x80, 0x80]).bytesAt places = [0x80, 0x80] := by
    simp [places, bytesAt, read, hread]
  rw [hnumber] at hdoubled
  exact ⟨places, by simp [places], hfinds, last, hcalls, hdoubled.value, hdoubled.top⟩

end Cells

end Cpu

end Machine6502
