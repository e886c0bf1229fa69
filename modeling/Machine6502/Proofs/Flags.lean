import Machine6502.Proofs.DataPath

/-!
# Flags after a step

For every instruction, the status that it leaves: the flags it owns, computed from
the bytes it worked on and from the byte it wrote, and every other flag as it was.
The byte it wrote is looked up in the storage after the step.
-/

namespace Machine6502

namespace Status

/-- Zero and negative tell what a result byte is; the other flags are kept. -/
def recording (status : Status) (result : UInt8) : Status :=
  { status with zero := result = 0, negative := result.toNat.testBit 7 }

/-- The flags of a byte from the stack.  The break mark is not taken from there, and
the reserved bit is always set. -/
def fromStack (byte : UInt8) : Status :=
  ofByte (byte &&& 0xEF ||| 0x20)

theorem withResult_eq_recording (status : Status) (result : UInt8) :
    status.withResult result = status.recording result := by
  rw [withResult, recording, testBit_seven, beq_eq_decide]

theorem pulled_eq_fromStack (byte : UInt8) : pulled byte = fromStack byte := by
  revert byte
  exact forall_byte (by decide +kernel)

end Status

/-- The bit that leaves a byte when its bits are moved by one place. -/
def Shift.movedOut (operation : Shift) (byte : UInt8) : Bool :=
  match operation with
  | .left => byte.toNat.testBit 7
  | .right => byte.toNat.testBit 0
  | .rotateLeft => byte.toNat.testBit 7
  | .rotateRight => byte.toNat.testBit 0

theorem Shift.carry_eq_movedOut (operation : Shift) (byte : UInt8) :
    operation.carry byte = operation.movedOut byte := by
  cases operation with
  | left => exact (testBit_seven byte).symm
  | right => exact (testBit_zero byte).symm
  | rotateLeft => exact (testBit_seven byte).symm
  | rotateRight => exact (testBit_zero byte).symm

/-- The status after an addition to the accumulator that leaves a result: carry out of
nine bits, and overflow of the signed sum. -/
def Cpu.statusAfterSum (cpu : Cpu) (operand result : UInt8) : Status :=
  { cpu.status with
    carry := 255 < cpu.a.toNat + operand.toNat + cpu.status.carry.toNat
    overflow := signedOverflow cpu.a operand cpu.status.carry }.recording result

/-- The status after an instruction on the cell at an address. -/
def Addressed.statusAfter (operation : Addressed) (address : UInt16) (cpu : Cpu)
    (after : Storage) : Status :=
  let before := cpu.status
  let operand := cpu.storage.cell address
  match operation with
  | .load register => before.recording (after.get register)
  | .store _ => before
  | .logic _ => before.recording after.a
  | .bitTest =>
      { before with
        zero := cpu.a &&& operand = 0
        negative := operand.toNat.testBit 7
        overflow := operand.toNat.testBit 6 }
  | .add => cpu.statusAfterSum operand after.a
  | .subtract => cpu.statusAfterSum (operand - 1) after.a
  | .shift operation =>
      { before with carry := operation.movedOut operand }.recording (after.cell address)
  | .increment => before.recording (after.cell address)
  | .decrement => before.recording (after.cell address)
  | .compare register =>
      let value := cpu.storage.get register
      { before with carry := operand ≤ value }.recording (value - operand)

def Implied.statusAfter (operation : Implied) (cpu : Cpu) (after : Storage) : Status :=
  let before := cpu.status
  match operation with
  | .transfer _ .s => before
  | .transfer _ target => before.recording (after.get target)
  | .shift operation =>
      { before with carry := operation.movedOut cpu.a }.recording after.a
  | .increment register => before.recording (after.get register)
  | .decrement register => before.recording (after.get register)
  | .setFlag flag => before.set flag true
  | .clearFlag flag => before.set flag false
  | .push => before
  | .pull => before.recording after.a
  | .pushStatus => before
  | .pullStatus => .fromStack (cpu.storage.peek 1)
  | .halt => before
  | .idle => before

def Control.statusAfter (operation : Control) (cpu : Cpu) : Status :=
  match operation with
  | .returnFromInterrupt => .fromStack (cpu.storage.peek 1)
  | _ => cpu.status

def Instruction.statusAfter (instruction : Instruction) (address : UInt16) (cpu : Cpu)
    (after : Storage) : Status :=
  match instruction with
  | .addressed operation => operation.statusAfter address cpu after
  | .implied operation => operation.statusAfter cpu after
  | .control operation => operation.statusAfter cpu

theorem Storage.get_set (storage : Storage) (register : Register) (value : UInt8) :
    (storage.set register value).get register = value := by
  cases register <;> rfl

theorem Storage.cell_store (storage : Storage) (address : UInt16) (value : UInt8) :
    (storage.store address value).cell address = value := by
  simp only [store, Function.update_self]

namespace Cpu

variable {cpu : Cpu} {opcode : Opcode}

/-- Setting a register as a result records the byte that is then in it. -/
theorem status_setResult (cpu : Cpu) (register : Register) (value : UInt8) :
    (cpu.setResult register value).status =
      cpu.status.recording ((cpu.setResult register value).storage.get register) := by
  rw [storage_setResult, Storage.get_set, ← Status.withResult_eq_recording]
  cases register <;> rfl

theorem status_addToA (cpu : Cpu) (operand : UInt8) :
    (cpu.addToA operand).status = cpu.statusAfterSum operand (cpu.addToA operand).storage.a := by
  rw [statusAfterSum, ← overflow_addWithCarry, ← Status.withResult_eq_recording]
  rfl

/-- Writing a cell leaves there the byte that is recorded. -/
theorem cell_write (hfull : cpu.memory.size = Memory.addressCount) (address : UInt16)
    (value : UInt8) : (cpu.write address value).storage.cell address = value := by
  rw [storage_write hfull, Storage.cell_store]

theorem status_addressed (hfull : cpu.memory.size = Memory.addressCount)
    (operation : Addressed) (address : UInt16) :
    (operation.apply address cpu).status =
      operation.statusAfter address cpu (operation.apply address cpu).storage := by
  cases operation with
  | load register => exact status_setResult cpu register _
  | store register => rfl
  | logic operation => exact status_setResult cpu .a _
  | bitTest =>
      simp only [Addressed.apply, Addressed.statusAfter, beq_eq_decide]
      rfl
  | add => exact status_addToA cpu _
  | subtract => exact status_addToA cpu _
  -- The recorded byte is the one that is found in the cell afterwards.
  | shift operation =>
      have hcell : ((Addressed.shift operation).apply address cpu).storage.cell address =
          operation.value (cpu.read address) cpu.status.carry := cell_write hfull address _
      rw [Addressed.statusAfter, hcell, ← Status.withResult_eq_recording,
        ← Shift.carry_eq_movedOut]
      rfl
  | increment =>
      have hcell : (Addressed.increment.apply address cpu).storage.cell address =
          cpu.read address + 1 := cell_write hfull address _
      rw [Addressed.statusAfter, hcell, ← Status.withResult_eq_recording]
      rfl
  | decrement =>
      have hcell : (Addressed.decrement.apply address cpu).storage.cell address =
          cpu.read address - 1 := cell_write hfull address _
      rw [Addressed.statusAfter, hcell, ← Status.withResult_eq_recording]
      rfl
  | compare register =>
      rw [Addressed.statusAfter, storage_get, ← Status.withResult_eq_recording]
      rfl

theorem status_implied (cpu : Cpu) (operation : Implied) :
    (operation.apply cpu).status =
      operation.statusAfter cpu (operation.apply cpu).storage := by
  cases operation with
  | transfer source target =>
      cases target with
      | s => rfl
      | _ => exact status_setResult cpu _ _
  | shift operation =>
      rw [Implied.statusAfter, ← Shift.carry_eq_movedOut, ← Status.withResult_eq_recording]
      rfl
  | increment register => exact status_setResult cpu register _
  | decrement register => exact status_setResult cpu register _
  | pull => exact status_setResult cpu.pop.2 .a cpu.pop.1
  | pullStatus =>
      rw [Implied.statusAfter, ← pop_fst, ← Status.pulled_eq_fromStack]
      rfl
  | _ => rfl

theorem status_control (cpu : Cpu) (operation : Control) :
    (operation.apply cpu).status = operation.statusAfter cpu := by
  cases operation with
  | branch flag value =>
      simp only [Control.apply]
      split <;> rfl
  | returnFromInterrupt =>
      rw [Control.statusAfter, ← pop_fst, ← Status.pulled_eq_fromStack]
      rfl
  | _ => rfl

theorem status_carryOut (hfull : cpu.memory.size = Memory.addressCount)
    (hconsistent : opcode.Consistent) :
    (opcode.carryOut cpu.fetched).status =
      opcode.instruction.statusAfter (cpu.effectiveAddress opcode.mode) cpu
        (opcode.carryOut cpu.fetched).storage := by
  have hfetched : cpu.fetched.memory.size = Memory.addressCount := hfull
  cases hinstruction : opcode.instruction with
  | addressed operation =>
      rw [carryOut_addressed hconsistent hinstruction]
      exact status_addressed hfetched operation _
  | implied operation =>
      rw [carryOut_implied hinstruction]
      exact status_implied cpu.fetched operation
  | control operation =>
      rw [carryOut_control hinstruction]
      exact status_control cpu.fetched operation

/-- A step on a recognised opcode leaves the status that the law of its instruction
says, with the bytes of the next machine as results. -/
theorem step_status (hfull : cpu.memory.size = Memory.addressCount)
    (hdecode : Opcode.decode (cpu.read cpu.pc) = some opcode) :
    opcode.Named ∧ ∃ outcome next, cpu.step? = some (outcome, next) ∧
      next.storage =
        opcode.instruction.storageAfter (cpu.effectiveAddress opcode.mode) cpu ∧
      next.status =
        opcode.instruction.statusAfter (cpu.effectiveAddress opcode.mode) cpu next.storage ∧
      (opcode.instruction.usesMode = true →
        cpu.fetched.operandAddress opcode.mode = .ok (cpu.effectiveAddress opcode.mode)) := by
  obtain ⟨hconsistent, -⟩ := Opcode.consistent_of_decode hdecode
  refine ⟨hconsistent.named, _, _, step?_of_decode hfull hdecode, ?_, ?_, ?_⟩
  · rw [storage_advance, storage_carryOut hfull hconsistent]
  · rw [storage_advance, advance_status, status_carryOut hfull hconsistent]
  · intro huses
    exact operandAddress_of_ne_implied (hconsistent.mode_ne_implied huses) cpu

/-- An increment of its own opcode byte leaves a negative byte there. -/
theorem step_status_of_increment :
    (holding [0xE6, 0x00]).memory.size = Memory.addressCount ∧
      Opcode.decode ((holding [0xE6, 0x00]).read (holding [0xE6, 0x00]).pc) =
        some ⟨0xE6, "INC", 2, 5, .zeroPage, .addressed .increment⟩ ∧
      ∃ outcome next, (holding [0xE6, 0x00]).step? = some (outcome, next) ∧
        next.status = { Status.initial with negative := true } := by
  have hfull := size_holding [0xE6, 0x00] (by decide)
  have hread := read_holding [0xE6, 0x00] (by decide)
  have hdecode : Opcode.decode ((holding [0xE6, 0x00]).read (holding [0xE6, 0x00]).pc) =
      some ⟨0xE6, "INC", 2, 5, .zeroPage, .addressed .increment⟩ := by
    rw [read, hread, pc_holding]
    rfl
  have haddress : (holding [0xE6, 0x00]).fetched.operandAddress .zeroPage = .ok 0 := by
    rw [operandAddress, read, fetched, hread, pc_holding]
    rfl
  obtain ⟨-, outcome, next, hstep, hstorage, hstatus, -⟩ := step_status hfull hdecode
  refine ⟨hfull, hdecode, outcome, next, hstep, hstatus.trans ?_⟩
  rw [hstorage, Instruction.statusAfter, Addressed.statusAfter, Instruction.storageAfter,
    Addressed.storageAfter, Storage.cell_store, effectiveAddress, haddress, storage, hread,
    status_holding]
  rfl

end Cpu

end Machine6502
