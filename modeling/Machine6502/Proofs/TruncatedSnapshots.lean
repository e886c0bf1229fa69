import Machine6502.Monitor
import Machine6502.Proofs.SnapshotGrammar

/-!
# Truncated snapshots

A snapshot that is cut off is never read as a machine, wherever the cut is, and what is wrong with
it is always that bytes are missing.  So no snapshot is the beginning of another.
-/

namespace Machine6502

namespace Snapshot

theorem Spells.decode_cut {spelling : List UInt8} {cpu : Cpu} (hspells : Spells spelling cpu)
    {cut : List UInt8} (hcut : cut <+: spelling) (hshort : cut.length < spelling.length) :
    decode cut = .error .endOfBuffer :=
  decode_eq_error_iff.mpr (hspells.takes.misses cut hcut hshort)

theorem spells_encode {cpu : Cpu} (hsize : cpu.memory.size < 2 ^ 64) : Spells (encode cpu) cpu := by
  obtain ⟨spelling, hbytes, hspells⟩ :=
    decodeWithRest_eq_ok_iff.mp (decodeWithRest_encode_append hsize [])
  rwa [List.append_cancel_right hbytes]

theorem eq_of_encode_begins {cpu other : Cpu} (hsize : cpu.memory.size < 2 ^ 64)
    (hother : other.memory.size < 2 ^ 64) (hbegins : encode other <+: encode cpu) :
    other = cpu := by
  obtain ⟨rest, hrest⟩ := hbegins
  have hread := decode_encode_append hsize []
  rw [List.append_nil, ← hrest, decode_encode_append hother] at hread
  exact Except.ok.inj hread

/-- A snapshot that is cut off anywhere is refused because bytes are missing, and the machine at
hand stays as it is.  No snapshot is the beginning of another, and different machines have
different snapshots. -/
theorem cut_is_refused {cpu : Cpu} (hsize : cpu.memory.size < 2 ^ 64) :
    (∀ count < (encode cpu).length,
      (decode ((encode cpu).take count)).mapError SnapshotError.message =
          .error "Hit the end of buffer, expected more data" ∧
        ∀ monitor : Monitor, monitor.perform (.restoreSnapshot ((encode cpu).take count)) =
          some (.restored (some .endOfBuffer), monitor)) ∧
      ∀ other : Cpu, other.memory.size < 2 ^ 64 →
        (encode other <+: encode cpu → encode other = encode cpu) ∧
          (encode other = encode cpu → other = cpu) := by
  refine ⟨fun count hcount => ?_, fun other hother => ⟨fun hbegins => ?_, fun hsame => ?_⟩⟩
  · have hshort : ((encode cpu).take count).length < (encode cpu).length := by
      rwa [List.length_take_of_le (Nat.le_of_lt hcount)]
    have hdecode := (spells_encode hsize).decode_cut (List.take_prefix count _) hshort
    refine ⟨by rw [hdecode]; rfl, fun monitor => ?_⟩
    rw [Monitor.perform, hdecode]
  · rw [eq_of_encode_begins hsize hother hbegins]
  · exact eq_of_encode_begins hsize hother (hsame ▸ List.prefix_rfl)

/-- A stopped machine with one cell, whose counter takes two bytes. -/
def stopped : Cpu := ⟨1, 2, 3, 4, 300, .ofByte 0xFF, true, ⟨#[7]⟩⟩

theorem encode_stopped : encode stopped = [1, 2, 3, 4, 0xAC, 0x02, 0xFF, 1, 7, 1] := by
  have hcounter : writeNumber 300 = [0xAC, 0x02] := by
    rw [writeNumber_of_le (by decide), writeNumber_of_lt (by decide)]
    rfl
  have hlength : writeNumber 1 = [1] := writeNumber_of_lt (by decide)
  simp [encode, stopped, Memory.size, hcounter, hlength]

/-- The snapshot is cut off between the two bytes of the counter; and the same machine before it
was stopped has another snapshot, which differs in the last byte only. -/
theorem cut_is_refused_inside_counter :
    stopped.memory.size < 2 ^ 64 ∧
      (decode [1, 2, 3, 4, 0xAC]).mapError SnapshotError.message =
        .error "Hit the end of buffer, expected more data" ∧
      encode { stopped with halted := false } ≠ encode stopped := by
  have hsize : stopped.memory.size < 2 ^ 64 := by decide
  obtain ⟨hcut, hother⟩ := cut_is_refused hsize
  refine ⟨hsize, ?_, fun hsame => ?_⟩
  · have hrefused := (hcut 5 (by rw [encode_stopped]; decide)).1
    rwa [encode_stopped] at hrefused
  · have heq := (hother { stopped with halted := false } hsize).2 hsame
    exact absurd (congrArg Cpu.halted heq) (by decide)

end Snapshot

end Machine6502
