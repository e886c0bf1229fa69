import Machine6502.Program
import Machine6502.Proofs.Loading
import Machine6502.Proofs.ViewSteps

/-!
# Steps of a program in memory

A program that stands above the stack is followed line by line: the bytes at the program
counter are looked up in the program, and the step leads to a view with the program counter
at the next line.
-/

namespace Machine6502

namespace Program

/-- The bytes of a program from an address on, at most so many. -/
def line (program : Program) (address : UInt16) (count : Nat) : List UInt8 :=
  if address < program.origin then []
  else (program.bytes.drop (address.toNat - program.origin.toNat)).take count

/-- The program stands in memory, above the stack. -/
structure Stands (program : Program) (cell : UInt16 → UInt8) : Prop where
  above : 0x0200 ≤ program.origin
  fits : program.origin.toNat + program.bytes.length ≤ Memory.addressCount
  holds : ∀ index < program.bytes.length,
    cell (program.origin + UInt16.ofNat index) = program.bytes.getD index 0

variable {program : Program} {cell : UInt16 → UInt8} {pc : UInt16}

theorem not_hostCell_of_le {address : UInt16} (habove : 0x0200 ≤ address) : ¬HostCell address := by
  rintro (rfl | rfl) <;> exact absurd habove (by decide)

theorem ne_stackCell_of_le {address : UInt16} (habove : 0x0200 ≤ address) (pointer : UInt8) :
    address ≠ Storage.stackCell pointer := by
  have hstack : ∀ pointer, Storage.stackCell pointer < 0x0200 := forall_byte (by decide +kernel)
  rintro rfl
  exact absurd habove (UInt16.not_le.mpr (hstack pointer))

/-- A byte of a line is in the cell at its place, above the stack. -/
theorem Stands.byte (hstands : program.Stands cell) {count : Nat} {bytes : List UInt8}
    (hline : program.line pc count = bytes) {index : Nat} (hindex : index < bytes.length) :
    cell (pc + UInt16.ofNat index) = bytes.getD index 0 ∧ 0x0200 ≤ pc + UInt16.ofNat index := by
  rw [line] at hline
  by_cases hbefore : pc < program.origin
  · rw [if_pos hbefore] at hline
    exact absurd hindex (by simp [← hline])
  · rw [if_neg hbefore] at hline
    have habove := UInt16.le_iff_toNat_le.mp hstands.above
    have hfits := hstands.fits
    have hpc := UInt16.le_iff_toNat_le.mp (UInt16.not_lt.mp hbefore)
    have hplace : pc.toNat - program.origin.toNat + index < program.bytes.length := by
      rw [← hline, List.length_take, List.length_drop] at hindex
      omega
    rw [Memory.addressCount] at hfits
    have haddress : pc + UInt16.ofNat index =
        program.origin + UInt16.ofNat (pc.toNat - program.origin.toNat + index) := by
      apply UInt16.toNat_inj.mp
      rw [Memory.toNat_add_ofNat (by rw [Memory.addressCount]; omega),
        Memory.toNat_add_ofNat (by rw [Memory.addressCount]; omega)]
      omega
    refine ⟨?_, UInt16.le_iff_toNat_le.mpr ?_⟩
    · rw [haddress, hstands.holds _ hplace, ← hline]
      rw [List.getD_eq_getElem?_getD, List.getD_eq_getElem?_getD, List.getElem?_take,
        List.getElem?_drop, if_pos]
      rw [← hline, List.length_take] at hindex
      omega
    · rw [Memory.toNat_add_ofNat (by rw [Memory.addressCount]; omega)]
      omega

section Line

variable (hstands : program.Stands cell) {count : Nat} {code operand high : UInt8}
variable {rest : List UInt8}

include hstands

theorem Stands.first (hline : program.line pc count = code :: rest) :
    cell pc = code ∧ 0x0200 ≤ pc := by
  have hbyte := hstands.byte hline (Nat.succ_pos rest.length)
  rwa [show pc + UInt16.ofNat 0 = pc from UInt16.add_zero pc] at hbyte

theorem Stands.second (hline : program.line pc count = code :: operand :: rest) :
    cell (pc + 1) = operand ∧ 0x0200 ≤ pc + 1 :=
  hstands.byte hline (Nat.succ_lt_succ (Nat.succ_pos rest.length))

theorem Stands.third (hline : program.line pc count = code :: operand :: high :: rest) :
    cell (pc + 2) = high ∧ 0x0200 ≤ pc + 2 :=
  hstands.byte hline (Nat.succ_lt_succ (Nat.succ_lt_succ (Nat.succ_pos rest.length)))

end Line

/-- Changes below the program leave it in memory. -/
theorem Stands.congr (hstands : program.Stands cell) {other : UInt16 → UInt8}
    (hsame : ∀ address, program.origin ≤ address → other address = cell address) :
    program.Stands other := by
  refine ⟨hstands.above, hstands.fits, fun index hindex => ?_⟩
  have hfits := hstands.fits
  have hplace : program.origin ≤ program.origin + UInt16.ofNat index := by
    rw [UInt16.le_iff_toNat_le, Memory.toNat_add_ofNat (by omega)]
    exact Nat.le_add_right _ _
  rw [hsame _ hplace]
  exact hstands.holds index hindex

theorem Stands.update (hstands : program.Stands cell) {address : UInt16}
    (hbelow : address < program.origin) (value : UInt8) :
    program.Stands (Function.update cell address value) := by
  refine hstands.congr fun other hother => Function.update_of_ne ?_ _ _
  rintro rfl
  exact absurd hbelow (UInt16.not_lt.mpr hother)

section Boot

variable (hfits : program.origin.toNat + program.bytes.length ≤ Cpu.resetVector.toNat)

include hfits

/-- A booted machine has its program in memory. -/
theorem stands_boot (habove : 0x0200 ≤ program.origin) :
    program.Stands program.boot.memory.read where
  above := habove
  fits := Nat.le_trans hfits (by decide)
  holds := Cpu.holdsAt_loadAt Memory.size_blank hfits

/-- Around the program there are zeros. -/
theorem read_boot {address : UInt16} (hbelow : address < Cpu.resetVector)
    (houtside : ¬(program.origin.toNat ≤ address.toNat ∧
      address.toNat < program.origin.toNat + program.bytes.length)) :
    program.boot.read address = 0 := by
  have hroom : program.origin.toNat + program.bytes.length ≤ Memory.addressCount :=
    Nat.le_trans hfits (by decide)
  have hplaced : program.origin.toNat + program.bytes.length ≤ Memory.blank.size := by
    rwa [Memory.size_blank]
  have hlow : address ≠ Cpu.resetVector := fun h => absurd hbelow (by rw [h]; decide)
  have hhigh : address ≠ Cpu.resetVector + 1 := fun h => absurd hbelow (by rw [h]; decide)
  calc
    program.boot.read address
        = (Cpu.initial.loadAt program.bytes program.origin).memory.read address := rfl
    _ = (Memory.blank.copy program.origin program.bytes).read address := by
        rw [Cpu.read_loadAt Memory.size_blank, if_neg hhigh, if_neg hlow]
        rfl
    _ = Memory.blank.read address := by
        rw [Memory.copy_of_fits hroom, Memory.read_place _ _ _ _ hplaced, if_neg houtside]
    _ = 0 := Memory.read_blank address

end Boot

theorem size_boot (program : Program) : program.boot.memory.size = Memory.addressCount :=
  (Cpu.size_loadAt (Nat.le_of_eq Memory.size_blank.symm) _ _).trans Memory.size_blank

theorem toUInt16_toUInt8 {address : UInt16} (haddress : address < 0xFE) :
    address.toUInt8.toUInt16 = address := by
  have hlt := UInt16.lt_iff_toNat_lt.mp haddress
  have hbound : (0xFE : UInt16).toNat = 0xFE := rfl
  apply UInt16.toNat_inj.mp
  rw [UInt8.toNat_toUInt16, UInt16.toNat_toUInt8]
  omega

theorem not_hostCell_of_lt {address : UInt16} (haddress : address < 0xFE) : ¬HostCell address := by
  rintro (rfl | rfl) <;> exact absurd haddress (by decide)

theorem toUInt16_lt {low : UInt8} (hlow : low < 0xFE) : low.toUInt16 < 0xFE := by
  have hlt := UInt8.lt_iff_toNat_lt.mp hlow
  rwa [UInt16.lt_iff_toNat_lt, UInt8.toNat_toUInt16]

section Steps

variable {status : Status} {a x y s code low high : UInt8}

theorem names_immediate : View.Names ⟨pc, status, ⟨a, x, y, s, cell⟩⟩ .immediate (pc + 1) := by
  intro input cpu hshows
  exact congrArg (· + 1) hshows.pc

variable (hstands : program.Stands cell)

include hstands

theorem Stands.fetches {count : Nat} {rest : List UInt8} {opcode : Opcode}
    (hline : program.line pc count = code :: rest) (hdecode : Opcode.decode code = some opcode) :
    View.Fetches ⟨pc, status, ⟨a, x, y, s, cell⟩⟩ opcode := by
  obtain ⟨hcode, habove⟩ := hstands.first hline
  exact ⟨not_hostCell_of_le habove, (congrArg Opcode.decode hcode).trans hdecode⟩

/-- The operand byte of a line, as every machine in the view finds it. -/
theorem Stands.read_operand {count : Nat} {rest : List UInt8}
    (hline : program.line pc count = code :: low :: rest) {input : Input} {cpu : Cpu}
    (hshows : View.Shows ⟨pc, status, ⟨a, x, y, s, cell⟩⟩ input cpu) :
    cpu.read (cpu.pc + 1) = low := by
  obtain ⟨hoperand, habove⟩ := hstands.second hline
  rw [hshows.pc, hshows.read (not_hostCell_of_le habove)]
  exact hoperand

section Names

variable {rest : List UInt8} {count : Nat} (hline : program.line pc count = code :: low :: rest)

include hline

theorem Stands.names_zeroPage :
    View.Names ⟨pc, status, ⟨a, x, y, s, cell⟩⟩ .zeroPage low.toUInt16 := by
  intro input cpu hshows
  exact congrArg UInt8.toUInt16 (hstands.read_operand hline hshows)

theorem Stands.names_zeroPageX :
    View.Names ⟨pc, status, ⟨a, x, y, s, cell⟩⟩ .zeroPageX (low + x).toUInt16 := by
  intro input cpu hshows
  exact congrArg UInt8.toUInt16
    (congrArg₂ (· + ·) (hstands.read_operand hline hshows) hshows.x)

/-- The word that a pointer in page zero points to. -/
theorem Stands.names_indirectX (hpointer : low + x < 0xFE) (hpointer' : low + x + 1 < 0xFE) :
    View.Names ⟨pc, status, ⟨a, x, y, s, cell⟩⟩ .indirectX
      (wordOf (cell (low + x).toUInt16) (cell (low + x + 1).toUInt16)) := by
  intro input cpu hshows
  have hindex : cpu.read (cpu.pc + 1) + cpu.x = low + x :=
    congrArg₂ (· + ·) (hstands.read_operand hline hshows) hshows.x
  have hlow := hshows.read (not_hostCell_of_lt (toUInt16_lt hpointer))
  have hhigh := hshows.read (not_hostCell_of_lt (toUInt16_lt hpointer'))
  calc
    cpu.effectiveAddress .indirectX
        = wordOf (cpu.read (cpu.read (cpu.pc + 1) + cpu.x).toUInt16)
            (cpu.read (cpu.read (cpu.pc + 1) + cpu.x + 1).toUInt16) := rfl
    _ = _ := by rw [hindex, hlow, hhigh]

theorem Stands.names_indirectY (hpointer : low < 0xFE) (hpointer' : low + 1 < 0xFE) :
    View.Names ⟨pc, status, ⟨a, x, y, s, cell⟩⟩ .indirectY
      (wordOf (cell low.toUInt16) (cell (low + 1).toUInt16) + y.toUInt16) := by
  intro input cpu hshows
  have hoperand := hstands.read_operand hline hshows
  have hlow := hshows.read (not_hostCell_of_lt (toUInt16_lt hpointer))
  have hhigh := hshows.read (not_hostCell_of_lt (toUInt16_lt hpointer'))
  calc
    cpu.effectiveAddress .indirectY
        = wordOf (cpu.read (cpu.read (cpu.pc + 1)).toUInt16)
            (cpu.read (cpu.read (cpu.pc + 1) + 1).toUInt16) + cpu.y.toUInt16 := rfl
    _ = _ := by rw [hoperand, hlow, hhigh, hshows.y]

end Names

section Immediate

variable {value : UInt8}

theorem Stands.lda_immediate (hline : program.line pc 2 = [0xA9, value]) :
    View.Takes ⟨pc, status, ⟨a, x, y, s, cell⟩⟩ [] fun _ =>
      ⟨pc + 2, status.recording value, ⟨value, x, y, s, cell⟩⟩ := by
  obtain ⟨hvalue, habove⟩ := hstands.second hline
  subst hvalue
  exact View.takes_load (not_hostCell_of_le habove) (hstands.fetches hline rfl) names_immediate

theorem Stands.ldx_immediate (hline : program.line pc 2 = [0xA2, value]) :
    View.Takes ⟨pc, status, ⟨a, x, y, s, cell⟩⟩ [] fun _ =>
      ⟨pc + 2, status.recording value, ⟨a, value, y, s, cell⟩⟩ := by
  obtain ⟨hvalue, habove⟩ := hstands.second hline
  subst hvalue
  exact View.takes_load (not_hostCell_of_le habove) (hstands.fetches hline rfl) names_immediate

theorem Stands.ldy_immediate (hline : program.line pc 2 = [0xA0, value]) :
    View.Takes ⟨pc, status, ⟨a, x, y, s, cell⟩⟩ [] fun _ =>
      ⟨pc + 2, status.recording value, ⟨a, x, value, s, cell⟩⟩ := by
  obtain ⟨hvalue, habove⟩ := hstands.second hline
  subst hvalue
  exact View.takes_load (not_hostCell_of_le habove) (hstands.fetches hline rfl) names_immediate

theorem Stands.and_immediate (hline : program.line pc 2 = [0x29, value]) :
    View.Takes ⟨pc, status, ⟨a, x, y, s, cell⟩⟩ [] fun _ =>
      ⟨pc + 2, status.recording (a &&& value), ⟨a &&& value, x, y, s, cell⟩⟩ := by
  obtain ⟨hvalue, habove⟩ := hstands.second hline
  subst hvalue
  exact View.takes_and (not_hostCell_of_le habove) (hstands.fetches hline rfl) names_immediate

theorem Stands.adc_immediate (hline : program.line pc 2 = [0x69, value]) :
    View.Takes ⟨pc, status, ⟨a, x, y, s, cell⟩⟩ [] fun _ =>
      ⟨pc + 2, View.added status a value, ⟨a + value + status.carry.toUInt8, x, y, s, cell⟩⟩ := by
  obtain ⟨hvalue, habove⟩ := hstands.second hline
  subst hvalue
  exact View.takes_add (not_hostCell_of_le habove) (hstands.fetches hline rfl) names_immediate

theorem Stands.sbc_immediate (hline : program.line pc 2 = [0xE9, value]) :
    View.Takes ⟨pc, status, ⟨a, x, y, s, cell⟩⟩ [] fun _ =>
      ⟨pc + 2, View.added status a (value - 1),
        ⟨a + (value - 1) + status.carry.toUInt8, x, y, s, cell⟩⟩ := by
  obtain ⟨hvalue, habove⟩ := hstands.second hline
  subst hvalue
  exact View.takes_subtract (not_hostCell_of_le habove) (hstands.fetches hline rfl) names_immediate

theorem Stands.adc_immediate_of_clear (hline : program.line pc 2 = [0x69, value])
    (hcarry : status.carry = false) :
    View.Takes ⟨pc, status, ⟨a, x, y, s, cell⟩⟩ [] fun _ =>
      ⟨pc + 2, View.added status a value, ⟨a + value, x, y, s, cell⟩⟩ := by
  have hsum : a + value + status.carry.toUInt8 = a + value := by
    rw [hcarry]
    exact UInt8.add_zero _
  rw [← hsum]
  exact hstands.adc_immediate hline

/-- With the carry set, a subtraction adds the operand. -/
theorem Stands.sbc_immediate_of_set (hline : program.line pc 2 = [0xE9, value])
    (hcarry : status.carry = true) :
    View.Takes ⟨pc, status, ⟨a, x, y, s, cell⟩⟩ [] fun _ =>
      ⟨pc + 2, View.added status a (value - 1), ⟨a + value, x, y, s, cell⟩⟩ := by
  have hsum : a + (value - 1) + status.carry.toUInt8 = a + value := by
    rw [hcarry, UInt8.add_assoc]
    exact congrArg (a + ·) (UInt8.sub_add_cancel value 1)
  rw [← hsum]
  exact hstands.sbc_immediate hline

theorem Stands.cmp_immediate (hline : program.line pc 2 = [0xC9, value]) :
    View.Takes ⟨pc, status, ⟨a, x, y, s, cell⟩⟩ [] fun _ =>
      ⟨pc + 2, View.compared status a value, ⟨a, x, y, s, cell⟩⟩ := by
  obtain ⟨hvalue, habove⟩ := hstands.second hline
  subst hvalue
  exact View.takes_compare (not_hostCell_of_le habove) (hstands.fetches hline rfl) names_immediate

end Immediate

/-- The host has a say in a load from its cell of the random byte. -/
theorem Stands.lda_random (hline : program.line pc 2 = [0xA5, 0xFE]) :
    View.Takes ⟨pc, status, ⟨a, x, y, s, cell⟩⟩ [] fun input =>
      ⟨pc + 2, status.recording input.random, ⟨input.random, x, y, s, cell⟩⟩ :=
  View.takes_load_input (hstands.fetches hline rfl) (hstands.names_zeroPage hline)
    (Storage.random_fed _)

theorem Stands.lda_key (hline : program.line pc 2 = [0xA5, 0xFF]) :
    View.Takes ⟨pc, status, ⟨a, x, y, s, cell⟩⟩ [] fun input =>
      ⟨pc + 2, status.recording input.key, ⟨input.key, x, y, s, cell⟩⟩ :=
  View.takes_load_input (hstands.fetches hline rfl) (hstands.names_zeroPage hline)
    (Storage.key_fed _)

section ZeroPage

variable (address : UInt16) (haddress : address < 0xFE)

include haddress

theorem Stands.names_cell (hline : program.line pc 2 = [code, address.toUInt8]) :
    View.Names ⟨pc, status, ⟨a, x, y, s, cell⟩⟩ .zeroPage address := by
  rw [← toUInt16_toUInt8 haddress]
  exact hstands.names_zeroPage hline

theorem Stands.lda_zeroPage (hline : program.line pc 2 = [0xA5, address.toUInt8]) :
    View.Takes ⟨pc, status, ⟨a, x, y, s, cell⟩⟩ [] fun _ =>
      ⟨pc + 2, status.recording (cell address), ⟨cell address, x, y, s, cell⟩⟩ :=
  View.takes_load (not_hostCell_of_lt haddress) (hstands.fetches hline rfl)
    (hstands.names_cell address haddress hline)

theorem Stands.ldx_zeroPage (hline : program.line pc 2 = [0xA6, address.toUInt8]) :
    View.Takes ⟨pc, status, ⟨a, x, y, s, cell⟩⟩ [] fun _ =>
      ⟨pc + 2, status.recording (cell address), ⟨a, cell address, y, s, cell⟩⟩ :=
  View.takes_load (not_hostCell_of_lt haddress) (hstands.fetches hline rfl)
    (hstands.names_cell address haddress hline)

theorem Stands.sta_zeroPage (hline : program.line pc 2 = [0x85, address.toUInt8]) :
    View.Takes ⟨pc, status, ⟨a, x, y, s, cell⟩⟩ [(address, a)] fun _ =>
      ⟨pc + 2, status, ⟨a, x, y, s, Function.update cell address a⟩⟩ :=
  View.takes_store (not_hostCell_of_lt haddress) (hstands.fetches hline rfl)
    (hstands.names_cell address haddress hline)

theorem Stands.inc_zeroPage (hline : program.line pc 2 = [0xE6, address.toUInt8]) :
    View.Takes ⟨pc, status, ⟨a, x, y, s, cell⟩⟩ [(address, cell address + 1)] fun _ =>
      ⟨pc + 2, status.recording (cell address + 1),
        ⟨a, x, y, s, Function.update cell address (cell address + 1)⟩⟩ :=
  View.takes_increment (not_hostCell_of_lt haddress) (hstands.fetches hline rfl)
    (hstands.names_cell address haddress hline)

theorem Stands.dec_zeroPage (hline : program.line pc 2 = [0xC6, address.toUInt8]) :
    View.Takes ⟨pc, status, ⟨a, x, y, s, cell⟩⟩ [(address, cell address - 1)] fun _ =>
      ⟨pc + 2, status.recording (cell address - 1),
        ⟨a, x, y, s, Function.update cell address (cell address - 1)⟩⟩ :=
  View.takes_decrement (not_hostCell_of_lt haddress) (hstands.fetches hline rfl)
    (hstands.names_cell address haddress hline)

theorem Stands.cmp_zeroPage (hline : program.line pc 2 = [0xC5, address.toUInt8]) :
    View.Takes ⟨pc, status, ⟨a, x, y, s, cell⟩⟩ [] fun _ =>
      ⟨pc + 2, View.compared status a (cell address), ⟨a, x, y, s, cell⟩⟩ :=
  View.takes_compare (not_hostCell_of_lt haddress) (hstands.fetches hline rfl)
    (hstands.names_cell address haddress hline)

theorem Stands.cpx_zeroPage (hline : program.line pc 2 = [0xE4, address.toUInt8]) :
    View.Takes ⟨pc, status, ⟨a, x, y, s, cell⟩⟩ [] fun _ =>
      ⟨pc + 2, View.compared status x (cell address), ⟨a, x, y, s, cell⟩⟩ :=
  View.takes_compare (not_hostCell_of_lt haddress) (hstands.fetches hline rfl)
    (hstands.names_cell address haddress hline)

theorem Stands.bit_zeroPage (hline : program.line pc 2 = [0x24, address.toUInt8]) :
    View.Takes ⟨pc, status, ⟨a, x, y, s, cell⟩⟩ [] fun _ =>
      ⟨pc + 2, View.tested status a (cell address), ⟨a, x, y, s, cell⟩⟩ :=
  View.takes_bitTest (not_hostCell_of_lt haddress) (hstands.fetches hline rfl)
    (hstands.names_cell address haddress hline)

end ZeroPage

section Indexed

variable {target : UInt16}

theorem Stands.lda_zeroPageX (hindex : low + x < 0xFE)
    (hline : program.line pc 2 = [0xB5, low]) :
    View.Takes ⟨pc, status, ⟨a, x, y, s, cell⟩⟩ [] fun _ =>
      ⟨pc + 2, status.recording (cell (low + x).toUInt16),
        ⟨cell (low + x).toUInt16, x, y, s, cell⟩⟩ :=
  View.takes_load (not_hostCell_of_lt (toUInt16_lt hindex)) (hstands.fetches hline rfl)
    (hstands.names_zeroPageX hline)

theorem Stands.sta_zeroPageX (hindex : low + x < 0xFE)
    (hline : program.line pc 2 = [0x95, low]) :
    View.Takes ⟨pc, status, ⟨a, x, y, s, cell⟩⟩ [((low + x).toUInt16, a)] fun _ =>
      ⟨pc + 2, status, ⟨a, x, y, s, Function.update cell (low + x).toUInt16 a⟩⟩ :=
  View.takes_store (not_hostCell_of_lt (toUInt16_lt hindex)) (hstands.fetches hline rfl)
    (hstands.names_zeroPageX hline)

theorem Stands.sta_indirectX (hindex : low + x < 0xFE) (hindex' : low + x + 1 < 0xFE)
    (htarget : wordOf (cell (low + x).toUInt16) (cell (low + x + 1).toUInt16) = target)
    (habove : 0x0200 ≤ target) (hline : program.line pc 2 = [0x81, low]) :
    View.Takes ⟨pc, status, ⟨a, x, y, s, cell⟩⟩ [(target, a)] fun _ =>
      ⟨pc + 2, status, ⟨a, x, y, s, Function.update cell target a⟩⟩ := by
  subst htarget
  exact View.takes_store (not_hostCell_of_le habove) (hstands.fetches hline rfl)
    (hstands.names_indirectX hline hindex hindex')

theorem Stands.sta_indirectY (hlow : low < 0xFE) (hlow' : low + 1 < 0xFE)
    (htarget : wordOf (cell low.toUInt16) (cell (low + 1).toUInt16) + y.toUInt16 = target)
    (habove : 0x0200 ≤ target) (hline : program.line pc 2 = [0x91, low]) :
    View.Takes ⟨pc, status, ⟨a, x, y, s, cell⟩⟩ [(target, a)] fun _ =>
      ⟨pc + 2, status, ⟨a, x, y, s, Function.update cell target a⟩⟩ := by
  subst htarget
  exact View.takes_store (not_hostCell_of_le habove) (hstands.fetches hline rfl)
    (hstands.names_indirectY hline hlow hlow')

end Indexed

section Implied

theorem Stands.clc (hline : program.line pc 1 = [0x18]) :
    View.Takes ⟨pc, status, ⟨a, x, y, s, cell⟩⟩ [] fun _ =>
      ⟨pc + 1, status.set .carry false, ⟨a, x, y, s, cell⟩⟩ :=
  View.takes_clearFlag (hstands.fetches hline rfl)

theorem Stands.sec (hline : program.line pc 1 = [0x38]) :
    View.Takes ⟨pc, status, ⟨a, x, y, s, cell⟩⟩ [] fun _ =>
      ⟨pc + 1, status.set .carry true, ⟨a, x, y, s, cell⟩⟩ :=
  View.takes_setFlag (hstands.fetches hline rfl)

theorem Stands.inx (hline : program.line pc 1 = [0xE8]) :
    View.Takes ⟨pc, status, ⟨a, x, y, s, cell⟩⟩ [] fun _ =>
      ⟨pc + 1, status.recording (x + 1), ⟨a, x + 1, y, s, cell⟩⟩ :=
  View.takes_register_increment (hstands.fetches hline rfl)

theorem Stands.dex (hline : program.line pc 1 = [0xCA]) :
    View.Takes ⟨pc, status, ⟨a, x, y, s, cell⟩⟩ [] fun _ =>
      ⟨pc + 1, status.recording (x - 1), ⟨a, x - 1, y, s, cell⟩⟩ :=
  View.takes_register_decrement (hstands.fetches hline rfl)

theorem Stands.txa (hline : program.line pc 1 = [0x8A]) :
    View.Takes ⟨pc, status, ⟨a, x, y, s, cell⟩⟩ [] fun _ =>
      ⟨pc + 1, status.recording x, ⟨x, x, y, s, cell⟩⟩ :=
  View.takes_transfer_to_a (hstands.fetches hline rfl)

theorem Stands.lsr (hline : program.line pc 1 = [0x4A]) :
    View.Takes ⟨pc, status, ⟨a, x, y, s, cell⟩⟩ [] fun _ =>
      ⟨pc + 1, View.shifted status .right a, ⟨a >>> 1, x, y, s, cell⟩⟩ :=
  View.takes_shift (hstands.fetches hline rfl)

theorem Stands.nop (hline : program.line pc 1 = [0xEA]) :
    View.Takes ⟨pc, status, ⟨a, x, y, s, cell⟩⟩ [] fun _ =>
      ⟨pc + 1, status, ⟨a, x, y, s, cell⟩⟩ :=
  View.takes_idle (hstands.fetches hline rfl)

end Implied

section Control

variable {target : UInt16} {displaced : UInt8} {flag : Flag} {value : Bool}

/-- The opcode that a branch is encoded by. -/
theorem Stands.fetches_branch (hline : program.line pc 2 = [code, displaced])
    (hcode : Control.ofCode? code = some (.branch flag value)) :
    ∃ name length cycles mode, View.Fetches ⟨pc, status, ⟨a, x, y, s, cell⟩⟩
      ⟨code, name, length, cycles, mode, .control (.branch flag value)⟩ := by
  obtain ⟨opcode, hdecode⟩ := Opcode.exists_decode_of_ofCode? hcode
  obtain ⟨hconsistent, hopcode⟩ := Opcode.consistent_of_decode hdecode
  have hcontrol : opcode.instruction.control? = some (.branch flag value) := by
    rw [hconsistent.control?_eq, hopcode, hcode]
  have hinstruction := Instruction.eq_control_of_control? hcontrol
  have hfetches : View.Fetches ⟨pc, status, ⟨a, x, y, s, cell⟩⟩ opcode :=
    hstands.fetches hline hdecode
  obtain ⟨_, name, length, cycles, mode, _⟩ := opcode
  subst hopcode hinstruction
  exact ⟨name, length, cycles, mode, hfetches⟩

theorem Stands.branch (target : UInt16) (hline : program.line pc 2 = [code, displaced])
    (hcode : Control.ofCode? code = some (.branch flag value)) (hflag : status.get flag = value)
    (htarget : pc + 1 + 1 + displacement displaced = target) (hmissed : target ≠ pc + 1) :
    View.Takes ⟨pc, status, ⟨a, x, y, s, cell⟩⟩ [] fun _ =>
      ⟨target, status, ⟨a, x, y, s, cell⟩⟩ := by
  obtain ⟨hoperand, habove⟩ := hstands.second hline
  subst hoperand
  obtain ⟨_, _, _, _, hfetches⟩ := hstands.fetches_branch hline hcode
  exact View.takes_branch hfetches hflag (not_hostCell_of_le habove) htarget hmissed

theorem Stands.branch_skipped (hline : program.line pc 2 = [code, displaced])
    (hcode : Control.ofCode? code = some (.branch flag value)) (hflag : status.get flag = !value) :
    View.Takes ⟨pc, status, ⟨a, x, y, s, cell⟩⟩ [] fun _ =>
      ⟨pc + 2, status, ⟨a, x, y, s, cell⟩⟩ := by
  obtain ⟨_, _, _, _, hfetches⟩ := hstands.fetches_branch hline hcode
  exact View.takes_branch_skipped hfetches hflag

theorem Stands.jmp (target : UInt16) (hline : program.line pc 3 = [0x4C, low, high])
    (htarget : wordOf low high = target) (hmissed : target ≠ pc + 1) :
    View.Takes ⟨pc, status, ⟨a, x, y, s, cell⟩⟩ [] fun _ =>
      ⟨target, status, ⟨a, x, y, s, cell⟩⟩ := by
  obtain ⟨hlow, habove⟩ := hstands.second hline
  obtain ⟨hhigh, habove'⟩ := hstands.third hline
  subst hlow hhigh
  exact View.takes_jump (hstands.fetches hline rfl) (not_hostCell_of_le habove)
    (not_hostCell_of_le habove') htarget hmissed

theorem Stands.jsr (target : UInt16) (hline : program.line pc 3 = [0x20, low, high])
    (htarget : wordOf low high = target) (hmissed : target ≠ pc + 1) :
    View.Takes ⟨pc, status, ⟨a, x, y, s, cell⟩⟩
      [(Storage.stackCell s, highByte (pc + 2)), (Storage.stackCell (s - 1), lowByte (pc + 2))]
      fun _ => ⟨target, status, ⟨a, x, y, s - 1 - 1,
        Function.update (Function.update cell (Storage.stackCell s) (highByte (pc + 2)))
          (Storage.stackCell (s - 1)) (lowByte (pc + 2))⟩⟩ := by
  obtain ⟨hlow, habove⟩ := hstands.second hline
  obtain ⟨hhigh, habove'⟩ := hstands.third hline
  subst hlow hhigh
  exact View.takes_call (hstands.fetches hline rfl) (not_hostCell_of_le habove)
    (not_hostCell_of_le habove') (ne_stackCell_of_le habove) (ne_stackCell_of_le habove')
    htarget hmissed

theorem Stands.rts (hline : program.line pc 1 = [0x60]) :
    View.Takes ⟨pc, status, ⟨a, x, y, s, cell⟩⟩ [] fun _ =>
      ⟨wordOf (cell (Storage.stackCell (s + 1))) (cell (Storage.stackCell (s + 2))) + 1, status,
        ⟨a, x, y, s + 2, cell⟩⟩ :=
  View.takes_return (hstands.fetches hline rfl)

end Control

end Steps

end Program

end Machine6502
