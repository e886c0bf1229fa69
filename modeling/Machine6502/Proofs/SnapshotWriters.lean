import Machine6502.Monitor
import Machine6502.Proofs.SnapshotFormat

/-!
# Writers of snapshots

A snapshot is sent byte by byte to where it is counted, gathered or put over a buffer.  All three go
through the fields of a machine in the same order, so the size is that of the bytes, and a buffer is
long enough when it has room for them.
-/

namespace Machine6502

namespace Snapshot

section Sending

variable {σ : Type} (push : σ → UInt8 → Except SnapshotError σ)

/-- Sends a number of variable length. -/
def sendNumber (value : Nat) (state : σ) : Except SnapshotError σ :=
  if value < 128 then push state (UInt8.ofNat value)
  else do
    let next ← push state (UInt8.ofNat (value % 128 + 128))
    sendNumber (value / 128) next
termination_by value
decreasing_by omega

/-- Sends the fields of a machine one after the other, until one of their bytes is refused. -/
def send (cpu : Cpu) (state : σ) : Except SnapshotError σ := do
  let state ← push state cpu.a
  let state ← push state cpu.x
  let state ← push state cpu.y
  let state ← push state cpu.s
  let state ← sendNumber push cpu.pc.toNat state
  let state ← push state cpu.status.toByte
  let state ← sendNumber push cpu.memory.size state
  let state ← cpu.memory.cells.toList.foldlM push state
  push state (if cpu.halted then 1 else 0)

theorem sendNumber_eq (value : Nat) (state : σ) :
    sendNumber push value state = (writeNumber value).foldlM push state := by
  fun_induction sendNumber push value state with
  | case1 value state hvalue => simp [writeNumber_of_lt hvalue]
  | case2 value state hvalue ih =>
      rw [writeNumber_of_le (Nat.not_lt.mp hvalue), List.foldlM_cons]
      simp only [ih]

theorem send_eq (cpu : Cpu) (state : σ) : send push cpu state = (encode cpu).foldlM push state := by
  simp [send, sendNumber_eq, encode]

end Sending

/-- Counts bytes. -/
def count (size : Nat) (_byte : UInt8) : Except SnapshotError Nat :=
  .ok (size + 1)

/-- Gathers bytes behind those that were sent before. -/
def gather (bytes : List UInt8) (byte : UInt8) : Except SnapshotError (List UInt8) :=
  .ok (bytes ++ [byte])

/-- Puts bytes over a buffer, of which a part is written. -/
def overwrite : List UInt8 × List UInt8 → UInt8 → Except SnapshotError (List UInt8 × List UInt8)
  | (_, []), _ => .error .bufferFull
  | (written, _ :: room), byte => .ok (written ++ [byte], room)

section Writers

theorem foldlM_count (bytes : List UInt8) (size : Nat) :
    bytes.foldlM count size = .ok (size + bytes.length) := by
  induction bytes generalizing size with
  | nil => rfl
  | cons byte bytes ih =>
      have hnext : (byte :: bytes).foldlM count size = bytes.foldlM count (size + 1) := rfl
      rw [hnext, ih, List.length_cons, Nat.add_assoc, Nat.add_comm 1]

theorem foldlM_gather (bytes before : List UInt8) :
    bytes.foldlM gather before = .ok (before ++ bytes) := by
  induction bytes generalizing before with
  | nil =>
      rw [List.append_nil]
      rfl
  | cons byte bytes ih =>
      have hnext : (byte :: bytes).foldlM gather before = bytes.foldlM gather (before ++ [byte]) :=
        rfl
      rw [hnext, ih, List.append_assoc, List.singleton_append]

theorem foldlM_overwrite (bytes written room : List UInt8) :
    bytes.foldlM overwrite (written, room) =
      if bytes.length ≤ room.length then .ok (written ++ bytes, room.drop bytes.length)
      else .error .bufferFull := by
  induction bytes generalizing written room with
  | nil =>
      rw [List.append_nil]
      rfl
  | cons byte bytes ih =>
      cases room with
      | nil => rfl
      | cons first room =>
          have hnext : (byte :: bytes).foldlM overwrite (written, first :: room) =
              bytes.foldlM overwrite (written ++ [byte], room) := rfl
          simp only [hnext, ih, List.length_cons, Nat.add_le_add_iff_right, List.append_assoc,
            List.singleton_append, List.drop_succ_cons]

theorem writeOver_eq (written bytes buffer : List UInt8) :
    writeOver written bytes buffer =
      if bytes.length ≤ buffer.length then
        .ok (written.reverse ++ bytes ++ buffer.drop bytes.length)
      else .error .bufferFull := by
  fun_induction writeOver written bytes buffer with
  | case1 written buffer =>
      rw [List.append_nil]
      rfl
  | case2 written byte bytes => rfl
  | case3 written byte bytes first buffer ih =>
      simp only [ih, List.reverse_cons, List.length_cons, Nat.add_le_add_iff_right,
        List.append_assoc, List.cons_append, List.nil_append, List.drop_succ_cons]

theorem numberSize_eq (value : Nat) : numberSize value = (writeNumber value).length := by
  fun_induction numberSize value with
  | case1 value hvalue => rw [writeNumber_of_lt hvalue, List.length_singleton]
  | case2 value hvalue ih =>
      rw [writeNumber_of_le (Nat.not_lt.mp hvalue), List.length_cons, ih, Nat.add_comm]

theorem size_eq (cpu : Cpu) : size cpu = (encode cpu).length := by
  have hcells : cpu.memory.cells.toList.length = cpu.memory.size := Array.length_toList
  simp only [size, numberSize_eq, encode, List.length_append, List.length_cons, List.length_nil,
    hcells]
  omega

theorem encodeInto_eq (cpu : Cpu) (buffer : List UInt8) :
    encodeInto cpu buffer =
      if size cpu ≤ buffer.length then .ok (encode cpu ++ buffer.drop (size cpu))
      else .error .bufferFull := by
  rw [encodeInto, writeOver_eq, ← size_eq]
  rfl

theorem encodeInto_eq_ok_iff {cpu : Cpu} {buffer after : List UInt8} :
    encodeInto cpu buffer = .ok after ↔
      size cpu ≤ buffer.length ∧ after = encode cpu ++ buffer.drop (size cpu) := by
  rw [encodeInto_eq]
  by_cases hroom : size cpu ≤ buffer.length
  · rw [if_pos hroom, Except.ok.injEq, eq_comm]
    exact (and_iff_right hroom).symm
  · rw [if_neg hroom]
    exact iff_of_false (fun hsame => by cases hsame) fun h => hroom h.1

theorem eq_bufferFull_of_encodeInto {cpu : Cpu} {buffer : List UInt8} {error : SnapshotError}
    (herror : encodeInto cpu buffer = .error error) : error = .bufferFull := by
  rw [encodeInto_eq] at herror
  split at herror
  · cases herror
  · exact (Except.error.inj herror).symm

end Writers

/-- The three writers agree on a machine and a buffer.  Each goes through all fields on its own; the
size is that of the bytes, and the buffer takes them at its start or is found too short. -/
structure WritersAgree (cpu : Cpu) (buffer : List UInt8) (size : Nat) (bytes : List UInt8)
    (result : Except SnapshotError (List UInt8)) : Prop where
  counted : send count cpu 0 = .ok size
  gathered : send gather cpu [] = .ok bytes
  overwritten : (send overwrite cpu ([], buffer)).map (fun (written, room) => written ++ room) =
    result
  size_eq : size = bytes.length
  succeeds_iff : (∃ after, result = .ok after) ↔ size ≤ buffer.length
  written : ∀ after, result = .ok after →
    after.length = buffer.length ∧ after.take size = bytes ∧ after.drop size = buffer.drop size
  refused : ∀ error, result = .error error → error.message = "The serialize buffer is full"

theorem writersAgree (cpu : Cpu) (buffer : List UInt8) :
    WritersAgree cpu buffer (size cpu) (encode cpu) (encodeInto cpu buffer) where
  counted := by rw [send_eq, foldlM_count, size_eq, Nat.zero_add]
  gathered := by rw [send_eq, foldlM_gather, List.nil_append]
  overwritten := by
    rw [send_eq, foldlM_overwrite, encodeInto_eq, size_eq]
    split <;> rfl
  size_eq := size_eq cpu
  succeeds_iff := by
    simp only [encodeInto_eq_ok_iff, exists_and_left, exists_eq, and_true]
  written after hafter := by
    obtain ⟨hroom, rfl⟩ := encodeInto_eq_ok_iff.mp hafter
    rw [List.length_append, List.length_drop, size_eq] at *
    refine ⟨Nat.add_sub_cancel' hroom, List.take_left, List.drop_left⟩
  refused error herror := by
    rw [eq_bufferFull_of_encodeInto herror]
    rfl

end Snapshot

namespace Monitor

/-- Asked for the size of a snapshot, for the snapshot, and to put it over a buffer, a machine gives
answers that agree.  Whatever the rest of the buffer holds, any machine becomes this one when the
buffer is given to it. -/
theorem snapshots_agree {monitor : Monitor} (hsize : monitor.cpu.memory.size < 2 ^ 64)
    (buffer : List UInt8) :
    ∃ size bytes result, monitor.perform .snapshotSize = some (.size size, monitor) ∧
      monitor.perform .snapshot = some (.snapshot bytes, monitor) ∧
      monitor.perform (.snapshotInto buffer) = some (.written result, monitor) ∧
      Snapshot.WritersAgree monitor.cpu buffer size bytes result ∧
      ∀ after, result = .ok after → Snapshot.decode after = .ok monitor.cpu ∧
        ∀ other : Monitor, other.perform (.restoreSnapshot after) =
          some (.restored none, other.withCpu monitor.cpu) := by
  refine ⟨_, _, _, rfl, rfl, rfl, Snapshot.writersAgree monitor.cpu buffer, fun after hafter => ?_⟩
  obtain ⟨-, rfl⟩ := Snapshot.encodeInto_eq_ok_iff.mp hafter
  have hdecode := Snapshot.decode_encode_append hsize
    (buffer.drop (Snapshot.size monitor.cpu))
  refine ⟨hdecode, fun other => ?_⟩
  rw [perform, hdecode]

/-- A machine with one cell, at hand. -/
def oneCell : Monitor :=
  { initial with cpu := { Cpu.initial with memory := ⟨#[7]⟩ } }

/-- A buffer that is one byte too short is refused, and in one that is longer by a byte the last
byte is kept. -/
theorem snapshots_agree_of_one_cell :
    oneCell.cpu.memory.size < 2 ^ 64 ∧
      oneCell.perform .snapshotSize = some (.size 9, oneCell) ∧
      (∃ error, oneCell.perform (.snapshotInto (List.replicate 8 0xAA)) =
        some (.written (.error error), oneCell) ∧
        error.message = "The serialize buffer is full") ∧
      ∃ after, oneCell.perform (.snapshotInto (List.replicate 10 0xAA)) =
          some (.written (.ok after), oneCell) ∧
        after.drop 9 = [0xAA] ∧ Snapshot.decode after = .ok oneCell.cpu := by
  have hcells : oneCell.cpu.memory.size < 2 ^ 64 := by decide
  have hnine : oneCell.perform .snapshotSize = some (.size 9, oneCell) := by
    have hsize : Snapshot.size oneCell.cpu = 9 := by
      simp [Snapshot.size, Snapshot.numberSize, oneCell, Cpu.initial, Memory.size]
    rw [perform, hsize]
  refine ⟨hcells, hnine, ?_, ?_⟩
  · obtain ⟨size, bytes, result, hcount, -, hwritten, hagree, -⟩ :=
      snapshots_agree hcells (List.replicate 8 0xAA)
    obtain rfl : size = 9 := by simpa [hnine, eq_comm] using hcount
    cases hresult : result with
    | ok after => exact absurd (hagree.succeeds_iff.mp ⟨after, hresult⟩) (by decide)
    | error error => exact ⟨error, hresult ▸ hwritten, hagree.refused error hresult⟩
  · obtain ⟨size, bytes, result, hcount, -, hwritten, hagree, hrestored⟩ :=
      snapshots_agree hcells (List.replicate 10 0xAA)
    obtain rfl : size = 9 := by simpa [hnine, eq_comm] using hcount
    obtain ⟨after, hafter⟩ := hagree.succeeds_iff.mpr (by decide)
    exact ⟨after, hafter ▸ hwritten, (hagree.written after hafter).2.2, (hrestored after hafter).1⟩

end Monitor

end Machine6502
