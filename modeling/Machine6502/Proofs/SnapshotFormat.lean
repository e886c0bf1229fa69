import Mathlib.Algebra.Group.Nat.Defs
import Machine6502.Snapshot

/-!
# Reading back snapshots

Each field of a snapshot is read back from the bytes that it was written as, whatever
follows them.  From the fields, a whole machine is read back from its snapshot, and a
machine read from any bytes has a memory whose length a snapshot can tell.
-/

namespace Machine6502

namespace Snapshot

section Numbers

/-- The least number that does not fit a width. -/
def NumberWidth.bound (width : NumberWidth) : Nat :=
  (width.lastByte + 1) * 128 ^ (width.bytes - 1)

theorem bound_wordWidth : wordWidth.bound = 65536 :=
  rfl

theorem bound_lengthWidth : lengthWidth.bound = 2 ^ 64 :=
  rfl

theorem writeNumber_of_lt {value : Nat} (hvalue : value < 128) :
    writeNumber value = [UInt8.ofNat value] := by
  rw [writeNumber, if_pos hvalue]

theorem writeNumber_of_le {value : Nat} (hvalue : 128 ≤ value) :
    writeNumber value = UInt8.ofNat (value % 128 + 128) :: writeNumber (value / 128) := by
  rw [writeNumber, if_neg (Nat.not_lt.mpr hvalue)]

variable {lastByte : Nat}

/-- A byte without its top bit is the last one of its number. -/
theorem readNumberFrom_of_lt {byte : UInt8} (hbyte : byte < 128) (count : Nat)
    (rest : List UInt8) (hfits : count = 0 → byte.toNat ≤ lastByte) :
    readNumberFrom lastByte (count + 1) (byte :: rest) = .ok (byte.toNat, rest) := by
  have hsmall : ¬(count = 0 ∧ lastByte < byte.toNat) := by omega
  rw [readNumberFrom, if_pos hbyte, if_neg hsmall]

/-- A byte with its top bit has seven bits for the number that goes on behind it. -/
theorem readNumberFrom_of_le {byte : UInt8} (hbyte : 128 ≤ byte) {count high : Nat}
    {bytes rest : List UInt8} (hhigh : readNumberFrom lastByte count bytes = .ok (high, rest)) :
    readNumberFrom lastByte (count + 1) (byte :: bytes) =
      .ok (byte.toNat - 128 + 128 * high, rest) := by
  rw [readNumberFrom, if_neg (UInt8.not_lt.mpr hbyte), hhigh]

theorem readNumberFrom_small {value : Nat} (hvalue : value < 128) (count : Nat)
    (rest : List UInt8) (hfits : count = 0 → value ≤ lastByte) :
    readNumberFrom lastByte (count + 1) (writeNumber value ++ rest) = .ok (value, rest) := by
  have hbyte : (UInt8.ofNat value).toNat = value := by
    rw [UInt8.toNat_ofNat']
    omega
  have htop : UInt8.ofNat value < 128 := by
    rw [UInt8.lt_iff_toNat_lt, hbyte]
    exact hvalue
  rw [writeNumber_of_lt hvalue, List.singleton_append,
    readNumberFrom_of_lt htop count rest (by rwa [hbyte]), hbyte]

theorem readNumberFrom_writeNumber (hlast : lastByte < 128) (count value : Nat)
    (rest : List UInt8) (hvalue : value < (lastByte + 1) * 128 ^ count) :
    readNumberFrom lastByte (count + 1) (writeNumber value ++ rest) = .ok (value, rest) := by
  induction count generalizing value with
  | zero =>
      have hsmall : value < 128 := by omega
      have hfits : value ≤ lastByte := by omega
      exact readNumberFrom_small hsmall 0 rest fun _ => hfits
  | succ count ih =>
      by_cases hsmall : value < 128
      · exact readNumberFrom_small hsmall _ rest fun hzero => absurd hzero (Nat.succ_ne_zero count)
      · have hhigh : value / 128 < (lastByte + 1) * 128 ^ count := by
          rw [Nat.div_lt_iff_lt_mul (by decide), Nat.mul_assoc, ← Nat.pow_succ]
          exact hvalue
        have hbyte : (UInt8.ofNat (value % 128 + 128)).toNat = value % 128 + 128 := by
          rw [UInt8.toNat_ofNat']
          omega
        have htop : 128 ≤ UInt8.ofNat (value % 128 + 128) := by
          rw [UInt8.le_iff_toNat_le, hbyte]
          exact Nat.le_add_left 128 _
        rw [writeNumber_of_le (Nat.not_lt.mp hsmall), List.cons_append,
          readNumberFrom_of_le htop (ih _ hhigh), hbyte, Nat.add_sub_cancel, Nat.mod_add_div]

/-- A number that fits a width is read back, and what follows it is left. -/
theorem readNumber_writeNumber {width : NumberWidth} (hbytes : width.bytes ≠ 0)
    (hlast : width.lastByte < 128) {value : Nat} (hvalue : value < width.bound)
    (rest : List UInt8) :
    readNumber width (writeNumber value ++ rest) = .ok (value, rest) := by
  obtain ⟨count, hcount⟩ := Nat.exists_eq_succ_of_ne_zero hbytes
  rw [NumberWidth.bound, hcount] at hvalue
  rw [readNumber, hcount]
  exact readNumberFrom_writeNumber hlast count value rest hvalue

/-- A number that is read begins with a byte, which is all of it or has its top bit. -/
theorem readNumberFrom_eq_ok {count value : Nat} {bytes rest : List UInt8}
    (hread : readNumberFrom lastByte (count + 1) bytes = .ok (value, rest)) :
    ∃ byte tail, bytes = byte :: tail ∧
      (byte < 128 ∧ (count = 0 → byte.toNat ≤ lastByte) ∧ value = byte.toNat ∧ rest = tail ∨
        128 ≤ byte ∧ ∃ high, readNumberFrom lastByte count tail = .ok (high, rest) ∧
          value = byte.toNat - 128 + 128 * high) := by
  cases bytes with
  | nil => simp [readNumberFrom] at hread
  | cons byte tail =>
      refine ⟨byte, tail, rfl, ?_⟩
      rw [readNumberFrom] at hread
      by_cases hbyte : byte < 128
      · rw [if_pos hbyte] at hread
        by_cases hlarge : count = 0 ∧ lastByte < byte.toNat
        · simp [hlarge] at hread
        · rw [if_neg hlarge] at hread
          simp only [Except.ok.injEq, Prod.mk.injEq] at hread
          obtain ⟨rfl, rfl⟩ := hread
          exact .inl ⟨hbyte, fun hzero => by omega, rfl, rfl⟩
      · rw [if_neg hbyte] at hread
        cases hhigh : readNumberFrom lastByte count tail with
        | error error => simp [hhigh] at hread
        | ok result =>
            obtain ⟨high, left⟩ := result
            simp only [hhigh, Except.ok.injEq, Prod.mk.injEq] at hread
            obtain ⟨rfl, rfl⟩ := hread
            exact .inr ⟨UInt8.not_lt.mp hbyte, high, rfl, rfl⟩

theorem lt_of_readNumberFrom {count value : Nat} {bytes rest : List UInt8}
    (hread : readNumberFrom lastByte (count + 1) bytes = .ok (value, rest)) :
    value < (lastByte + 1) * 128 ^ count := by
  induction count generalizing bytes value with
  | zero =>
      obtain ⟨byte, tail, -, ⟨-, hfits, rfl, -⟩ | ⟨-, high, hhigh, -⟩⟩ := readNumberFrom_eq_ok hread
      · have := hfits rfl
        omega
      · simp [readNumberFrom] at hhigh
  | succ count ih =>
      have hpower : 128 ≤ (lastByte + 1) * 128 ^ (count + 1) := by
        calc
          128 ≤ 128 ^ (count + 1) := Nat.le_self_pow (Nat.succ_ne_zero count) 128
          _ ≤ (lastByte + 1) * 128 ^ (count + 1) := Nat.le_mul_of_pos_left _ (Nat.succ_pos _)
      obtain ⟨byte, tail, -, ⟨hbyte, -, rfl, -⟩ | ⟨-, high, hhigh, rfl⟩⟩ :=
        readNumberFrom_eq_ok hread
      · exact Nat.lt_of_lt_of_le (UInt8.lt_iff_toNat_lt.mp hbyte) hpower
      · have hlt := ih hhigh
        have hbyte := byte.toNat_lt
        rw [Nat.pow_succ, ← Nat.mul_assoc]
        omega

/-- A number that is read fits its width. -/
theorem lt_of_readNumber {width : NumberWidth} {value : Nat} {bytes rest : List UInt8}
    (hread : readNumber width bytes = .ok (value, rest)) : value < width.bound := by
  rw [readNumber] at hread
  cases hcount : width.bytes with
  | zero => simp [hcount, readNumberFrom] at hread
  | succ count =>
      rw [hcount] at hread
      rw [NumberWidth.bound, hcount]
      exact lt_of_readNumberFrom hread

end Numbers

section Fields

theorem readBytes_append (block rest : List UInt8) :
    readBytes block.length (block ++ rest) = .ok (block, rest) := by
  rw [readBytes, if_pos (by simp), List.take_left, List.drop_left]

theorem readFlag_cons (flag : Bool) (rest : List UInt8) :
    readFlag ((if flag then 1 else 0) :: rest) = .ok (flag, rest) := by
  cases flag <;> rfl

theorem length_of_readBytes {count : Nat} {bytes block rest : List UInt8}
    (hread : readBytes count bytes = .ok (block, rest)) : block.length = count := by
  rw [readBytes] at hread
  split at hread
  · simp only [Except.ok.injEq, Prod.mk.injEq] at hread
    rw [← hread.1, List.length_take]
    omega
  · simp at hread

end Fields

section Machines

/-- A machine whose memory length a snapshot can tell is read back from its snapshot. -/
theorem decodeWithRest_encode_append {cpu : Cpu} (hsize : cpu.memory.size < 2 ^ 64)
    (rest : List UInt8) : decodeWithRest (encode cpu ++ rest) = .ok (cpu, rest) := by
  have hpc : cpu.pc.toNat < wordWidth.bound := bound_wordWidth ▸ cpu.pc.toNat_lt
  have hlength : cpu.memory.size < lengthWidth.bound := bound_lengthWidth ▸ hsize
  have hcells : cpu.memory.cells.toList.length = cpu.memory.size := cpu.memory.cells.length_toList
  simp only [encode, List.append_assoc, List.cons_append, List.nil_append, decodeWithRest,
    readByte, bind, Except.bind, pure, Except.pure]
  rw [readNumber_writeNumber (by decide) (by decide) hpc]
  dsimp only
  rw [readNumber_writeNumber (by decide) (by decide) hlength]
  simp only [← hcells, readBytes_append, readFlag_cons, UInt16.ofNat_toNat, Status.ofByte_toByte,
    Array.toArray_toList]

theorem decode_encode_append {cpu : Cpu} (hsize : cpu.memory.size < 2 ^ 64)
    (rest : List UInt8) : decode (encode cpu ++ rest) = .ok cpu := by
  rw [decode, decodeWithRest_encode_append hsize]
  rfl

private theorem bind_eq_ok {α β : Type} {result : Except SnapshotError α}
    {next : α → Except SnapshotError β} {value : β} :
    (result >>= next) = .ok value ↔ ∃ first, result = .ok first ∧ next first = .ok value := by
  cases result <;> simp [bind, Except.bind]

/-- The bytes behind registers, program counter and status. -/
def afterStatus (bytes : List UInt8) : Except SnapshotError (List UInt8) := do
  let (_, bytes) ← readByte bytes
  let (_, bytes) ← readByte bytes
  let (_, bytes) ← readByte bytes
  let (_, bytes) ← readByte bytes
  let (_, bytes) ← readNumber wordWidth bytes
  let (_, bytes) ← readByte bytes
  return bytes

/-- The number of cells that bytes say their machine has. -/
def announcedCells (bytes : List UInt8) : Except SnapshotError Nat := do
  let bytes ← afterStatus bytes
  let (count, _) ← readNumber lengthWidth bytes
  return count

/-- The memory of a machine that is read is a block of bytes behind its length. -/
theorem memory_of_decode {bytes : List UInt8} {cpu : Cpu} (hdecode : decode bytes = .ok cpu) :
    ∃ before count behind block rest, afterStatus bytes = .ok before ∧
      readNumber lengthWidth before = .ok (count, behind) ∧
      readBytes count behind = .ok (block, rest) ∧ cpu.memory = ⟨block.toArray⟩ := by
  rw [decode] at hdecode
  cases hread : decodeWithRest bytes with
  | error error => simp [hread, Except.map] at hdecode
  | ok result =>
      rw [hread, Except.map, Except.ok.injEq] at hdecode
      obtain ⟨⟨a, second⟩, ha, hread⟩ := bind_eq_ok.mp hread
      obtain ⟨⟨x, third⟩, hx, hread⟩ := bind_eq_ok.mp hread
      obtain ⟨⟨y, fourth⟩, hy, hread⟩ := bind_eq_ok.mp hread
      obtain ⟨⟨s, fifth⟩, hs, hread⟩ := bind_eq_ok.mp hread
      obtain ⟨⟨pc, sixth⟩, hpc, hread⟩ := bind_eq_ok.mp hread
      obtain ⟨⟨status, before⟩, hstatus, hread⟩ := bind_eq_ok.mp hread
      obtain ⟨⟨count, behind⟩, hcount, hread⟩ := bind_eq_ok.mp hread
      obtain ⟨⟨block, rest⟩, hblock, hread⟩ := bind_eq_ok.mp hread
      obtain ⟨⟨halted, last⟩, -, hread⟩ := bind_eq_ok.mp hread
      simp only [pure, Except.pure, Except.ok.injEq] at hread
      refine ⟨before, count, behind, block, rest, ?_, hcount, hblock, ?_⟩
      · simp only [afterStatus, ha, hx, hy, hs, hpc, hstatus, bind, Except.bind, pure, Except.pure]
      · rw [← hdecode, ← hread]

/-- A machine that is read has the cells that its bytes say it has, and no more than a
length can tell. -/
theorem size_of_decode {bytes : List UInt8} {cpu : Cpu} (hdecode : decode bytes = .ok cpu) :
    announcedCells bytes = .ok cpu.memory.size ∧ cpu.memory.size < 2 ^ 64 := by
  obtain ⟨before, count, behind, block, rest, hbefore, hcount, hblock, hmemory⟩ :=
    memory_of_decode hdecode
  have hlength : cpu.memory.size = count := by
    rw [hmemory, Memory.size, List.size_toArray, length_of_readBytes hblock]
  rw [hlength, ← bound_lengthWidth]
  refine ⟨?_, lt_of_readNumber hcount⟩
  simp only [announcedCells, hbefore, hcount, bind, Except.bind, pure, Except.pure]

end Machines

end Snapshot

end Machine6502
