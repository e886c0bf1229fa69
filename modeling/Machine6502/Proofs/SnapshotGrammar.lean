import Machine6502.Proofs.SnapshotReaders

/-!
# The grammar of snapshots

Which bytes spell a machine is said here field by field and apart from the reader, and so
is what can be wrong with bytes that spell none.  Every row of bytes either begins with the
spelling of a machine or has a first field that is misspelled, and the reader tells which.
A number may be spelled with more bytes than it needs, so a machine has many spellings; its
snapshot is the shortest of them.
-/

namespace Machine6502

namespace Snapshot

/-- The number that bytes make with seven bits each, the low ones first. -/
def sevenBitValue : List UInt8 → Nat
  | [] => 0
  | byte :: bytes => byte.toNat % 128 + 128 * sevenBitValue bytes

/-- All bytes have their top bit, so a number goes on behind each of them. -/
def Continues (bytes : List UInt8) : Prop :=
  ∀ byte ∈ bytes, 128 ≤ byte

/-- The bytes spell a number of a width: only the last one lacks the top bit, and it is not
too big if it is the last that the number may have. -/
def SpellsNumber (width : NumberWidth) (spelling : List UInt8) (value : Nat) : Prop :=
  ∃ before last, spelling = before ++ [last] ∧ Continues before ∧ last < 128 ∧
    spelling.length ≤ width.bytes ∧
    (spelling.length = width.bytes → last.toNat ≤ width.lastByte) ∧
    value = sevenBitValue spelling

/-- The bytes do not begin with a number of a width, for a reason. -/
inductive MisspellsNumber (width : NumberWidth) : List UInt8 → SnapshotError → Prop where
  /-- The bytes end where the number still goes on. -/
  | cutOff {bytes : List UInt8} (hcontinues : Continues bytes)
      (hshort : bytes.length < width.bytes) : MisspellsNumber width bytes .endOfBuffer
  /-- The number goes on behind the last byte that it may have. -/
  | unterminated {before : List UInt8} (hcontinues : Continues before)
      (hlength : before.length = width.bytes) (rest : List UInt8) :
      MisspellsNumber width (before ++ rest) .badNumber
  /-- The last byte that the number may have is too big. -/
  | tooBig {before : List UInt8} {last : UInt8} (hcontinues : Continues before)
      (hlength : before.length + 1 = width.bytes) (hlast : last < 128)
      (hbig : width.lastByte < last.toNat) (rest : List UInt8) :
      MisspellsNumber width (before ++ last :: rest) .badNumber

/-- The bytes spell a machine: its registers, program counter, status, number of cells and
cells, and a byte that is 0 or 1 for the halted flag. -/
def Spells (spelling : List UInt8) (cpu : Cpu) : Prop :=
  ∃ counter length, spelling = [cpu.a, cpu.x, cpu.y, cpu.s] ++ counter ++ [cpu.status.toByte] ++
      length ++ cpu.memory.cells.toList ++ [if cpu.halted then 1 else 0] ∧
    SpellsNumber wordWidth counter cpu.pc.toNat ∧
    SpellsNumber lengthWidth length cpu.memory.size

/-- The bytes spell what stands before the number of cells. -/
def SpellsHead (head : List UInt8) : Prop :=
  ∃ a x y s counter pc status, head = [a, x, y, s] ++ counter ++ [status] ∧
    SpellsNumber wordWidth counter pc

/-- The bytes do not begin with the spelling of a machine.  The fields before one field are
spelled, and this one is not, for a reason. -/
inductive Misspells : List UInt8 → SnapshotError → Prop where
  | registers {bytes : List UInt8} (hshort : bytes.length < 4) : Misspells bytes .endOfBuffer
  | counter (a x y s : UInt8) {bytes : List UInt8} {error : SnapshotError}
      (hcounter : MisspellsNumber wordWidth bytes error) :
      Misspells ([a, x, y, s] ++ bytes) error
  | status (a x y s : UInt8) {counter : List UInt8} {pc : Nat}
      (hcounter : SpellsNumber wordWidth counter pc) :
      Misspells ([a, x, y, s] ++ counter) .endOfBuffer
  | length {head bytes : List UInt8} {error : SnapshotError} (hhead : SpellsHead head)
      (hlength : MisspellsNumber lengthWidth bytes error) : Misspells (head ++ bytes) error
  | cells {head length cells : List UInt8} {count : Nat} (hhead : SpellsHead head)
      (hlength : SpellsNumber lengthWidth length count) (hshort : cells.length < count) :
      Misspells (head ++ length ++ cells) .endOfBuffer
  | missingFlag {head length cells : List UInt8} (hhead : SpellsHead head)
      (hlength : SpellsNumber lengthWidth length cells.length) :
      Misspells (head ++ length ++ cells) .endOfBuffer
  | badFlag {head length cells : List UInt8} {byte : UInt8} (hhead : SpellsHead head)
      (hlength : SpellsNumber lengthWidth length cells.length) (hzero : byte ≠ 0)
      (hone : byte ≠ 1) (rest : List UInt8) :
      Misspells (head ++ length ++ cells ++ byte :: rest) .badFlag

section Numbers

variable {width : NumberWidth} {lastByte : Nat}

theorem sevenBitValue_append (before bytes : List UInt8) :
    sevenBitValue (before ++ bytes) =
      sevenBitValue before + 128 ^ before.length * sevenBitValue bytes := by
  induction before with
  | nil => simp [sevenBitValue]
  | cons byte before ih =>
      simp only [List.cons_append, sevenBitValue, ih, List.length_cons, Nat.pow_succ', Nat.mul_add,
        Nat.mul_assoc, Nat.add_assoc]

theorem sevenBitValue_singleton {byte : UInt8} (hbyte : byte < 128) :
    sevenBitValue [byte] = byte.toNat := by
  simp only [sevenBitValue, Nat.mul_zero, Nat.add_zero]
  exact Nat.mod_eq_of_lt (UInt8.lt_iff_toNat_lt.mp hbyte)

/-- The reader goes through bytes behind which the number goes on, and multiplies what it
finds there. -/
theorem readNumberFrom_append {before : List UInt8} (hcontinues : Continues before)
    (count : Nat) (bytes : List UInt8) :
    readNumberFrom lastByte (before.length + count) (before ++ bytes) =
      (readNumberFrom lastByte count bytes).map fun (high, rest) =>
        (sevenBitValue before + 128 ^ before.length * high, rest) := by
  induction before with
  | nil =>
      rw [List.length_nil, Nat.zero_add, List.nil_append]
      cases readNumberFrom lastByte count bytes with
      | error error => rfl
      | ok result => simp [Except.map, sevenBitValue]
  | cons byte before ih =>
      have hbyte : 128 ≤ byte := hcontinues byte List.mem_cons_self
      have hbits : byte.toNat - 128 = byte.toNat % 128 := by
        have hlow := UInt8.le_iff_toNat_le.mp hbyte
        have hhigh := byte.toNat_lt
        simp only [UInt8.reduceToNat] at hlow
        omega
      have htail := ih fun later hlater => hcontinues later (List.mem_cons_of_mem _ hlater)
      rw [List.length_cons, Nat.add_right_comm, List.cons_append, readNumberFrom,
        if_neg (UInt8.not_lt.mpr hbyte), htail]
      cases readNumberFrom lastByte count bytes with
      | error error => rfl
      | ok result =>
          simp only [Except.map, sevenBitValue, hbits, Nat.pow_succ', Nat.mul_add, Nat.mul_assoc,
            Nat.add_assoc]

theorem readNumber_of_spells {spelling : List UInt8} {value : Nat}
    (hspells : SpellsNumber width spelling value) (rest : List UInt8) :
    readNumber width (spelling ++ rest) = .ok (value, rest) := by
  obtain ⟨before, last, rfl, hcontinues, hlast, hlength, hfits, rfl⟩ := hspells
  rw [List.length_append, List.length_singleton] at hlength hfits
  obtain ⟨count, hcount⟩ := Nat.exists_eq_add_of_le hlength
  have hwidth : width.bytes = before.length + (count + 1) := by omega
  have hread : readNumberFrom width.lastByte (count + 1) (last :: rest) = .ok (last.toNat, rest) :=
    readNumberFrom_of_lt hlast count rest fun hzero => hfits (by omega)
  rw [readNumber, hwidth, List.append_assoc, List.singleton_append,
    readNumberFrom_append hcontinues, hread, sevenBitValue_append, sevenBitValue_singleton hlast]
  rfl

theorem readNumber_of_misspells {bytes : List UInt8} {error : SnapshotError}
    (hmisspells : MisspellsNumber width bytes error) : readNumber width bytes = .error error := by
  cases hmisspells with
  | cutOff hcontinues hshort =>
      obtain ⟨count, hcount⟩ := Nat.exists_eq_add_of_lt hshort
      have hread := @readNumberFrom_append width.lastByte _ hcontinues (count + 1) []
      rw [List.append_nil] at hread
      rw [readNumber, hcount, Nat.add_assoc, hread]
      rfl
  | unterminated hcontinues hlength rest =>
      have hread := @readNumberFrom_append width.lastByte _ hcontinues 0 rest
      rw [readNumber, ← hlength, ← Nat.add_zero (List.length _), hread]
      rfl
  | tooBig hcontinues hlength hlast hbig rest =>
      rw [readNumber, ← hlength, readNumberFrom_append hcontinues, readNumberFrom, if_pos hlast,
        if_pos ⟨rfl, hbig⟩]
      rfl

/-- What is left of a number when it is cut off has only bytes behind which it goes on. -/
theorem SpellsNumber.takes {width : NumberWidth} {spelling : List UInt8} {value : Nat}
    (hspells : SpellsNumber width spelling value) : Takes (readNumber width) spelling value where
  reads rest := readNumber_of_spells hspells rest
  misses cut hcut hshort := by
    obtain ⟨before, last, rfl, hcontinues, -, hlength, -⟩ := hspells
    have hbefore : cut <+: before := by
      rw [List.length_append, List.length_singleton] at hshort
      exact List.prefix_of_prefix_length_le hcut (List.prefix_append before [last])
        (Nat.le_of_lt_succ hshort)
    have hcut : Continues cut := fun byte hbyte => hcontinues byte (hbefore.subset hbyte)
    exact readNumber_of_misspells (.cutOff hcut (Nat.lt_of_lt_of_le hshort hlength))

/-- The first byte without its top bit, if there is one, has only bytes before it behind
which a number goes on. -/
theorem continues_or_ends (bytes : List UInt8) :
    Continues bytes ∨
      ∃ before last rest, bytes = before ++ last :: rest ∧ Continues before ∧ last < 128 := by
  cases hfirst : bytes.find? (· < 128) with
  | none =>
      refine .inl fun byte hbyte => UInt8.not_lt.mp ?_
      simpa using List.find?_eq_none.mp hfirst byte hbyte
  | some last =>
      obtain ⟨hlast, before, rest, hbytes, hbefore⟩ := List.find?_eq_some_iff_append.mp hfirst
      refine .inr ⟨before, last, rest, hbytes, fun byte hbyte => UInt8.not_lt.mp ?_, ?_⟩
      · simpa using hbefore byte hbyte
      · simpa using hlast

theorem misspells_of_continues {before : List UInt8} (hcontinues : Continues before)
    (hlength : width.bytes ≤ before.length) (rest : List UInt8) :
    MisspellsNumber width (before ++ rest) .badNumber := by
  have hfirst : Continues (before.take width.bytes) :=
    fun byte hbyte => hcontinues byte (List.mem_of_mem_take hbyte)
  have hmisspells := MisspellsNumber.unterminated hfirst (List.length_take_of_le hlength)
    (before.drop width.bytes ++ rest)
  rwa [← List.append_assoc, List.take_append_drop] at hmisspells

theorem spells_or_misspells_number (width : NumberWidth) (bytes : List UInt8) :
    (∃ spelling value rest, bytes = spelling ++ rest ∧ SpellsNumber width spelling value) ∨
      ∃ error, MisspellsNumber width bytes error := by
  rcases continues_or_ends bytes with hcontinues | ⟨before, last, rest, rfl, hcontinues, hlast⟩
  · rcases Nat.lt_or_ge bytes.length width.bytes with hshort | hlong
    · exact .inr ⟨_, .cutOff hcontinues hshort⟩
    · have hmisspells := misspells_of_continues hcontinues hlong []
      rw [List.append_nil] at hmisspells
      exact .inr ⟨_, hmisspells⟩
  · rcases Nat.lt_or_ge before.length width.bytes with hshort | hlong
    · by_cases hbig : before.length + 1 = width.bytes ∧ width.lastByte < last.toNat
      · exact .inr ⟨_, .tooBig hcontinues hbig.1 hlast hbig.2 rest⟩
      · have hlength : (before ++ [last]).length = before.length + 1 := List.length_append
        refine .inl ⟨before ++ [last], _, rest, by rw [List.append_assoc, List.singleton_append],
          before, last, rfl, hcontinues, hlast, by omega, fun hwidth => ?_, rfl⟩
        exact Nat.le_of_not_lt fun hlarge => hbig ⟨hlength ▸ hwidth, hlarge⟩
    · exact .inr ⟨_, misspells_of_continues hcontinues hlong (last :: rest)⟩

/-- No spelling of a number is shorter than the one that is written. -/
theorem length_writeNumber_le {bytes : List UInt8} (hbytes : bytes ≠ []) :
    (writeNumber (sevenBitValue bytes)).length ≤ bytes.length := by
  induction bytes with
  | nil => exact absurd rfl hbytes
  | cons byte bytes ih =>
      rcases Nat.lt_or_ge (sevenBitValue (byte :: bytes)) 128 with hsmall | hlarge
      · rw [writeNumber_of_lt hsmall]
        exact Nat.succ_pos bytes.length
      · have hrest : bytes ≠ [] := by
          rintro rfl
          simp only [sevenBitValue] at hlarge
          omega
        have hhigh : sevenBitValue (byte :: bytes) / 128 = sevenBitValue bytes := by
          rw [sevenBitValue]
          omega
        rw [writeNumber_of_le hlarge, hhigh]
        exact Nat.succ_le_succ (ih hrest)

theorem SpellsNumber.length_writeNumber_le {spelling : List UInt8} {value : Nat}
    (hspells : SpellsNumber width spelling value) :
    (writeNumber value).length ≤ spelling.length := by
  obtain ⟨before, last, rfl, -, -, -, -, rfl⟩ := hspells
  exact Snapshot.length_writeNumber_le (List.append_ne_nil_of_right_ne_nil before (by simp))

theorem SpellsNumber.lt_bound {spelling : List UInt8} {value : Nat}
    (hspells : SpellsNumber width spelling value) : value < width.bound :=
  lt_of_readNumber (readNumber_of_spells hspells [])

end Numbers

section Machines

/-- Reads the number of cells, the cells and the halted flag. -/
def readMemory (bytes : List UInt8) : Except SnapshotError ((List UInt8 × Bool) × List UInt8) := do
  let (count, bytes) ← readNumber lengthWidth bytes
  let (cells, bytes) ← readBytes count bytes
  let (halted, bytes) ← readFlag bytes
  return ((cells, halted), bytes)

theorem readMemory_of_spells {length : List UInt8} {count : Nat}
    (hlength : SpellsNumber lengthWidth length count) (bytes : List UInt8) :
    readMemory (length ++ bytes) = do
      let (cells, bytes) ← readBytes count bytes
      let (halted, bytes) ← readFlag bytes
      return ((cells, halted), bytes) := by
  rw [readMemory, readNumber_of_spells hlength]
  rfl

/-- Behind the number of cells and that many cells the halted flag is read. -/
theorem readMemory_of_cells {length cells : List UInt8}
    (hlength : SpellsNumber lengthWidth length cells.length) (bytes : List UInt8) :
    readMemory (length ++ cells ++ bytes) =
      (readFlag bytes).map fun (halted, rest) => ((cells, halted), rest) := by
  rw [List.append_assoc, readMemory_of_spells hlength, readBytes_append]
  cases hflag : readFlag bytes <;> simp [hflag, bind, Except.bind, pure, Except.pure, Except.map]

/-- Behind registers, program counter and status the memory is read. -/
theorem decodeWithRest_of_head (a x y s : UInt8) {counter : List UInt8} {pc : Nat}
    (hcounter : SpellsNumber wordWidth counter pc) (status : UInt8) (bytes : List UInt8) :
    decodeWithRest ([a, x, y, s] ++ counter ++ [status] ++ bytes) =
      (readMemory bytes).map fun ((cells, halted), rest) =>
        (⟨a, x, y, s, UInt16.ofNat pc, .ofByte status, halted, ⟨cells.toArray⟩⟩, rest) := by
  simp only [List.append_assoc, List.cons_append, List.nil_append, decodeWithRest, readByte, bind,
    Except.bind, pure, Except.pure, readNumber_of_spells hcounter, readMemory]
  cases readNumber lengthWidth bytes with
  | error error => rfl
  | ok counted =>
      cases hcells : readBytes counted.1 counted.2 with
      | error error => simp only [hcells, Except.map]
      | ok read =>
          cases hflag : readFlag read.2 <;> simp only [hcells, hflag, Except.map]

theorem Spells.takes {spelling : List UInt8} {cpu : Cpu} (hspells : Spells spelling cpu) :
    Takes decodeWithRest spelling cpu := by
  obtain ⟨counter, length, rfl, hcounter, hlength⟩ := hspells
  have hcells : Takes (readBytes cpu.memory.size) cpu.memory.cells.toList
      cpu.memory.cells.toList := by
    rw [Memory.size, ← Array.length_toList]
    exact takes_block _
  have hcpu : (⟨cpu.a, cpu.x, cpu.y, cpu.s, UInt16.ofNat cpu.pc.toNat,
      .ofByte cpu.status.toByte, cpu.halted, ⟨cpu.memory.cells.toList.toArray⟩⟩ : Cpu) = cpu := by
    rw [UInt16.ofNat_toNat, Status.ofByte_toByte, Array.toArray_toList]
  rw [decodeWithRest_eq_andThen]
  simp only [List.append_assoc, List.cons_append, List.nil_append]
  refine (takes_byte cpu.a).andThen <| (takes_byte cpu.x).andThen <| (takes_byte cpu.y).andThen <|
    (takes_byte cpu.s).andThen <| hcounter.takes.andThen <|
    (takes_byte cpu.status.toByte).andThen <| hlength.takes.andThen <| hcells.andThen <|
    (takes_flag cpu.halted).andThen ?_
  rw [hcpu]
  exact takes_giving cpu

theorem decodeWithRest_of_spells {spelling : List UInt8} {cpu : Cpu}
    (hspells : Spells spelling cpu) (rest : List UInt8) :
    decodeWithRest (spelling ++ rest) = .ok (cpu, rest) :=
  hspells.takes.reads rest

theorem decodeWithRest_of_memory {head bytes : List UInt8} {error : SnapshotError}
    (hhead : SpellsHead head) (hmemory : readMemory bytes = .error error) :
    decodeWithRest (head ++ bytes) = .error error := by
  obtain ⟨a, x, y, s, counter, pc, status, rfl, hcounter⟩ := hhead
  rw [decodeWithRest_of_head a x y s hcounter, hmemory]
  rfl

theorem decodeWithRest_of_misspells {bytes : List UInt8} {error : SnapshotError}
    (hmisspells : Misspells bytes error) : decodeWithRest bytes = .error error := by
  cases hmisspells with
  | registers hshort =>
      match bytes, hshort with
      | [], _ => rfl
      | [_], _ => rfl
      | [_, _], _ => rfl
      | [_, _, _], _ => rfl
  | counter a x y s hcounter =>
      simp only [List.cons_append, List.nil_append, decodeWithRest, readByte, bind, Except.bind,
        readNumber_of_misspells hcounter]
  | status a x y s hcounter =>
      have hread := readNumber_of_spells hcounter []
      rw [List.append_nil] at hread
      simp only [List.cons_append, List.nil_append, decodeWithRest, readByte, bind, Except.bind,
        hread]
  | length hhead hlength =>
      refine decodeWithRest_of_memory hhead ?_
      rw [readMemory, readNumber_of_misspells hlength]
      rfl
  | cells hhead hlength hshort =>
      rw [List.append_assoc]
      refine decodeWithRest_of_memory hhead ?_
      rw [readMemory_of_spells hlength, readBytes, if_neg (Nat.not_le_of_lt hshort)]
      rfl
  | missingFlag hhead hlength =>
      have hmemory := readMemory_of_cells hlength []
      rw [List.append_nil] at hmemory
      rw [List.append_assoc]
      exact decodeWithRest_of_memory hhead hmemory
  | @badFlag head length cells byte hhead hlength hzero hone rest =>
      have hmemory := readMemory_of_cells hlength (byte :: rest)
      rw [readFlag, if_neg hzero, if_neg hone] at hmemory
      have hgrouped : head ++ length ++ cells ++ byte :: rest =
          head ++ (length ++ cells ++ byte :: rest) := by
        simp only [List.append_assoc]
      rw [hgrouped]
      exact decodeWithRest_of_memory hhead hmemory

/-- Behind the head of a machine its number of cells, the cells and the halted flag decide
whether bytes spell it. -/
theorem spells_or_misspells_memory (a x y s : UInt8) {counter : List UInt8} {pc : Nat}
    (hcounter : SpellsNumber wordWidth counter pc) (status : UInt8) (bytes : List UInt8) :
    (∃ spelling cpu rest, [a, x, y, s] ++ counter ++ [status] ++ bytes = spelling ++ rest ∧
        Spells spelling cpu) ∨
      ∃ error, Misspells ([a, x, y, s] ++ counter ++ [status] ++ bytes) error := by
  have hhead : SpellsHead ([a, x, y, s] ++ counter ++ [status]) :=
    ⟨a, x, y, s, counter, pc, status, rfl, hcounter⟩
  rcases spells_or_misspells_number lengthWidth bytes with
    ⟨length, count, behind, rfl, hlength⟩ | ⟨error, hlength⟩
  · rw [← List.append_assoc]
    rcases Nat.lt_or_ge behind.length count with hshort | hlong
    · exact .inr ⟨_, .cells hhead hlength hshort⟩
    · obtain ⟨cells, rest, rfl, rfl⟩ :
          ∃ cells rest, behind = cells ++ rest ∧ cells.length = count :=
        ⟨behind.take count, behind.drop count, (List.take_append_drop count behind).symm,
          List.length_take_of_le hlong⟩
      cases rest with
      | nil =>
          rw [List.append_nil]
          exact .inr ⟨_, .missingFlag hhead hlength⟩
      | cons byte rest =>
          rw [← List.append_assoc]
          by_cases hflag : byte = 0 ∨ byte = 1
          · have hbound : pc < 65536 := bound_wordWidth ▸ hcounter.lt_bound
            have hpc : (UInt16.ofNat pc).toNat = pc := UInt16.toNat_ofNat_of_lt' hbound
            refine .inl ⟨[a, x, y, s] ++ counter ++ [status] ++ length ++ cells ++ [byte],
              ⟨a, x, y, s, UInt16.ofNat pc, .ofByte status, byte == 1, ⟨cells.toArray⟩⟩, rest,
              by simp only [List.append_assoc, List.singleton_append], counter, length, ?_, ?_,
              hlength⟩
            · rcases hflag with rfl | rfl <;> simp
            · rwa [hpc]
          · exact .inr ⟨_, .badFlag hhead hlength (fun hzero => hflag (.inl hzero))
              (fun hone => hflag (.inr hone)) rest⟩
  · exact .inr ⟨error, .length hhead hlength⟩

theorem spells_or_misspells (bytes : List UInt8) :
    (∃ spelling cpu rest, bytes = spelling ++ rest ∧ Spells spelling cpu) ∨
      ∃ error, Misspells bytes error := by
  match bytes with
  | [] => exact .inr ⟨_, .registers (by decide)⟩
  | [_] => exact .inr ⟨_, .registers (by simp)⟩
  | [_, _] => exact .inr ⟨_, .registers (by simp)⟩
  | [_, _, _] => exact .inr ⟨_, .registers (by simp)⟩
  | a :: x :: y :: s :: behind =>
      have hbytes : a :: x :: y :: s :: behind = [a, x, y, s] ++ behind := rfl
      rw [hbytes]
      rcases spells_or_misspells_number wordWidth behind with
        ⟨counter, pc, rest, rfl, hcounter⟩ | ⟨error, hcounter⟩
      · cases rest with
        | nil =>
            rw [List.append_nil]
            exact .inr ⟨_, .status a x y s hcounter⟩
        | cons status rest =>
            have hgrouped : [a, x, y, s] ++ (counter ++ status :: rest) =
                [a, x, y, s] ++ counter ++ [status] ++ rest := by
              simp only [List.append_assoc, List.singleton_append]
            rw [hgrouped]
            exact spells_or_misspells_memory a x y s hcounter status rest
      · exact .inr ⟨error, .counter a x y s hcounter⟩

/-- The reader takes exactly the spellings of machines off the front of its bytes. -/
theorem decodeWithRest_eq_ok_iff {bytes rest : List UInt8} {cpu : Cpu} :
    decodeWithRest bytes = .ok (cpu, rest) ↔
      ∃ spelling, bytes = spelling ++ rest ∧ Spells spelling cpu := by
  constructor
  · intro hread
    rcases spells_or_misspells bytes with
      ⟨spelling, spelled, behind, rfl, hspells⟩ | ⟨_, hmisspells⟩
    · rw [decodeWithRest_of_spells hspells, Except.ok.injEq, Prod.mk.injEq] at hread
      obtain ⟨rfl, rfl⟩ := hread
      exact ⟨spelling, rfl, hspells⟩
    · rw [decodeWithRest_of_misspells hmisspells] at hread
      cases hread
  · rintro ⟨spelling, rfl, hspells⟩
    exact decodeWithRest_of_spells hspells rest

theorem decodeWithRest_eq_error_iff {bytes : List UInt8} {error : SnapshotError} :
    decodeWithRest bytes = .error error ↔ Misspells bytes error := by
  refine ⟨fun hread => ?_, decodeWithRest_of_misspells⟩
  rcases spells_or_misspells bytes with ⟨spelling, cpu, rest, rfl, hspells⟩ | ⟨other, hmisspells⟩
  · rw [decodeWithRest_of_spells hspells] at hread
    cases hread
  · rw [decodeWithRest_of_misspells hmisspells] at hread
    cases hread
    exact hmisspells

theorem decode_eq_ok_iff {bytes : List UInt8} {cpu : Cpu} :
    decode bytes = .ok cpu ↔ ∃ rest, decodeWithRest bytes = .ok (cpu, rest) := by
  rw [decode]
  cases decodeWithRest bytes <;> simp [Except.map, Prod.ext_iff]

theorem decode_eq_error_iff {bytes : List UInt8} {error : SnapshotError} :
    decode bytes = .error error ↔ decodeWithRest bytes = .error error := by
  rw [decode]
  cases decodeWithRest bytes <;> simp [Except.map]

theorem mapError_eq_error_iff {ε δ α : Type} {result : Except ε α} {describe : ε → δ} {text : δ} :
    result.mapError describe = .error text ↔
      ∃ error, result = .error error ∧ describe error = text := by
  cases result with
  | ok value =>
      refine ⟨fun hmapped => ?_, fun ⟨_, herror, _⟩ => by cases herror⟩
      change Except.ok value = _ at hmapped
      cases hmapped
  | error error =>
      refine ⟨fun hmapped => ⟨error, rfl, Except.error.inj hmapped⟩, ?_⟩
      rintro ⟨_, herror, rfl⟩
      cases herror
      rfl

theorem Spells.length_encode_le {spelling : List UInt8} {cpu : Cpu}
    (hspells : Spells spelling cpu) : (encode cpu).length ≤ spelling.length := by
  obtain ⟨counter, length, rfl, hcounter, hlength⟩ := hspells
  have hshort := hcounter.length_writeNumber_le
  have hshort' := hlength.length_writeNumber_le
  simp only [encode, List.length_append]
  omega

/-- The reader accepts exactly the bytes that begin with the spelling of a machine, and it
gives that machine; for all others it gives the reason for which the first field that is
misspelled is wrong.  The snapshot of a machine that is read is no longer than the spelling
it was read from, and is read as the same machine. -/
theorem decode_iff_spelled (bytes : List UInt8) :
    (∀ cpu rest, decodeWithRest bytes = .ok (cpu, rest) ↔
        ∃ spelling, bytes = spelling ++ rest ∧ Spells spelling cpu) ∧
      (∀ cpu, decode bytes = .ok cpu ↔
        ∃ spelling rest, bytes = spelling ++ rest ∧ Spells spelling cpu) ∧
      (∀ error, decode bytes = .error error ↔ Misspells bytes error) ∧
      (∀ text, (decode bytes).mapError SnapshotError.message = .error text ↔
        ∃ error, Misspells bytes error ∧ error.message = text) ∧
      ∀ spelling rest cpu, bytes = spelling ++ rest → Spells spelling cpu →
        (encode cpu).length ≤ spelling.length ∧ decode (encode cpu) = .ok cpu := by
  have herror : ∀ error, decode bytes = .error error ↔ Misspells bytes error := fun error =>
    decode_eq_error_iff.trans decodeWithRest_eq_error_iff
  refine ⟨fun cpu rest => decodeWithRest_eq_ok_iff, fun cpu => ?_, herror, fun text => ?_, ?_⟩
  · rw [decode_eq_ok_iff]
    simp only [decodeWithRest_eq_ok_iff]
    exact exists_comm
  · simp only [← herror]
    exact mapError_eq_error_iff
  · rintro spelling rest cpu rfl hspells
    refine ⟨hspells.length_encode_le, ?_⟩
    have hread := decode_eq_ok_iff.mpr ⟨rest, decodeWithRest_of_spells hspells rest⟩
    have hwritten := decode_encode_append (size_of_decode hread).2 []
    rwa [List.append_nil] at hwritten

/-- A stopped machine with one cell, whose counter and number of cells are spelled with more
bytes than they need, and a byte behind it. -/
theorem decode_iff_spelled_of_padded :
    Spells ([1, 2, 3, 4] ++ [0x81, 0x80, 0x00] ++ [0xFF] ++ [0x81, 0x00] ++ [7] ++ [1])
        ⟨1, 2, 3, 4, 1, .ofByte 0xFF, true, ⟨#[7]⟩⟩ ∧
      decode [1, 2, 3, 4, 0x81, 0x80, 0x00, 0xFF, 0x81, 0x00, 7, 1, 99] =
        .ok ⟨1, 2, 3, 4, 1, .ofByte 0xFF, true, ⟨#[7]⟩⟩ ∧
      (encode ⟨1, 2, 3, 4, 1, .ofByte 0xFF, true, ⟨#[7]⟩⟩).length ≤ 12 ∧
      decode (encode ⟨1, 2, 3, 4, 1, .ofByte 0xFF, true, ⟨#[7]⟩⟩) =
        .ok ⟨1, 2, 3, 4, 1, .ofByte 0xFF, true, ⟨#[7]⟩⟩ := by
  have hspells : Spells
      ([1, 2, 3, 4] ++ [0x81, 0x80, 0x00] ++ [0xFF] ++ [0x81, 0x00] ++ [7] ++ [1])
      ⟨1, 2, 3, 4, 1, .ofByte 0xFF, true, ⟨#[7]⟩⟩ := by
    refine ⟨[0x81, 0x80, 0x00], [0x81, 0x00], by rw [Status.toByte_ofByte]; rfl,
      ⟨[0x81, 0x80], 0x00, rfl, ?_, by decide, by decide, by decide, rfl⟩,
      ⟨[0x81], 0x00, rfl, ?_, by decide, by decide, by decide, rfl⟩⟩
    · simp [Continues]
    · simp [Continues]
  obtain ⟨-, hok, -, -, hshort⟩ :=
    decode_iff_spelled [1, 2, 3, 4, 0x81, 0x80, 0x00, 0xFF, 0x81, 0x00, 7, 1, 99]
  exact ⟨hspells, (hok _).mpr ⟨_, [99], rfl, hspells⟩, hshort _ [99] _ rfl hspells⟩

end Machines

end Snapshot

end Machine6502
