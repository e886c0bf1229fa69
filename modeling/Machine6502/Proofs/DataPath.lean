import Machine6502.Proofs.Bits
import Machine6502.Proofs.Fetch
import Machine6502.Proofs.Storage

/-!
# Registers and cells after a step

For every instruction, the registers and cells that it leaves as changes to those
it found.  What an instruction does not name it keeps: the statements are equations
between whole storages, so a stray write to a register or cell would refute them.
-/

namespace Machine6502

/-- The byte with its bits moved by one place.  A rotation brings the carry in. -/
def Shift.moved (operation : Shift) (byte : UInt8) (carry : Bool) : UInt8 :=
  match operation with
  | .left => byte <<< 1
  | .right => byte >>> 1
  | .rotateLeft => byte <<< 1 ||| carry.toUInt8
  | .rotateRight => byte >>> 1 ||| carry.toUInt8 <<< 7

/-- The storage after an instruction on the cell at an address. -/
def Addressed.storageAfter (operation : Addressed) (address : UInt16) (cpu : Cpu) : Storage :=
  let before := cpu.storage
  let operand := before.cell address
  let carry := cpu.status.carry
  match operation with
  | .load register => before.set register operand
  | .store register => before.store address (before.get register)
  | .logic .and => before.set .a (before.a &&& operand)
  | .logic .or => before.set .a (before.a ||| operand)
  | .logic .exclusiveOr => before.set .a (before.a ^^^ operand)
  | .bitTest => before
  | .add => before.set .a (before.a + operand + carry.toUInt8)
  | .subtract => before.set .a (before.a + (operand - 1) + carry.toUInt8)
  | .shift operation => before.store address (operation.moved operand carry)
  | .increment => before.store address (operand + 1)
  | .decrement => before.store address (operand - 1)
  | .compare _ => before

def Implied.storageAfter (operation : Implied) (cpu : Cpu) : Storage :=
  let before := cpu.storage
  match operation with
  | .transfer source target => before.set target (before.get source)
  | .shift operation => before.set .a (operation.moved before.a cpu.status.carry)
  | .increment register => before.set register (before.get register + 1)
  | .decrement register => before.set register (before.get register - 1)
  | .setFlag _ => before
  | .clearFlag _ => before
  | .push => before.push before.a
  | .pull => (before.drop 1).set .a (before.peek 1)
  -- break mark and reserved bit
  | .pushStatus => before.push (cpu.status.toByte ||| 0x30)
  | .pullStatus => before.drop 1
  | .halt => before
  | .idle => before

/-- The storage after a control transfer at the program counter.  A call pushes the
address of its last byte. -/
def Control.storageAfter (operation : Control) (cpu : Cpu) : Storage :=
  let before := cpu.storage
  match operation with
  | .branch _ _ => before
  | .jump => before
  | .jumpIndirect => before
  | .call => (before.push (highByte (cpu.pc + 2))).push (lowByte (cpu.pc + 2))
  | .returnFromCall => before.drop 2
  | .returnFromInterrupt => before.drop 3

def Instruction.storageAfter (instruction : Instruction) (address : UInt16) (cpu : Cpu) :
    Storage :=
  match instruction with
  | .addressed operation => operation.storageAfter address cpu
  | .implied operation => operation.storageAfter cpu
  | .control operation => operation.storageAfter cpu

theorem Shift.value_eq_moved (operation : Shift) (byte : UInt8) (carry : Bool) :
    operation.value byte carry = operation.moved byte carry := by
  revert byte
  cases operation <;> cases carry <;> exact forall_byte (by decide +kernel)

theorem value_addWithCarry (left right : UInt8) (carry : Bool) :
    (addWithCarry left right carry).value = left + right + carry.toUInt8 := by
  have hcarry : UInt8.ofNat carry.toNat = carry.toUInt8 := by
    cases carry <;> rfl
  rw [addWithCarry, UInt8.ofNat_add, UInt8.ofNat_add, UInt8.ofNat_toNat, UInt8.ofNat_toNat,
    hcarry]

/-- The pushed status byte has break mark and reserved bit set. -/
theorem Status.toByte_pushed (status : Status) :
    status.pushed.toByte = status.toByte ||| 0x30 := by
  obtain ⟨n, v, r, b, d, i, z, c⟩ := status
  revert n v r b d i z c
  decide

namespace Cpu

variable {cpu : Cpu} {opcode : Opcode}

theorem storage_jump (cpu : Cpu) (target : UInt16) :
    ({ cpu with pc := target } : Cpu).storage = cpu.storage :=
  rfl

theorem storage_fetched (cpu : Cpu) : cpu.fetched.storage = cpu.storage := by
  rw [storage, fetched, storage]

theorem storage_advance (start : UInt16) (length : UInt8) (cpu : Cpu) :
    (cpu.advance start length).storage = cpu.storage := by
  rw [advance_eq, storage_jump]

theorem storage_addToA (cpu : Cpu) (operand : UInt8) :
    (cpu.addToA operand).storage =
      cpu.storage.set .a (cpu.storage.a + operand + cpu.status.carry.toUInt8) := by
  rw [← value_addWithCarry]
  rfl

theorem storage_addressed (hfull : cpu.memory.size = Memory.addressCount)
    (operation : Addressed) (address : UInt16) :
    (operation.apply address cpu).storage = operation.storageAfter address cpu := by
  cases operation with
  | load register => exact storage_setResult cpu register _
  | store register =>
      rw [Addressed.storageAfter, storage_get]
      exact storage_write hfull address _
  | logic operation => cases operation <;> exact storage_setResult cpu .a _
  -- Tests and comparisons set flags only.
  | bitTest => rfl
  | add => exact storage_addToA cpu _
  | subtract => exact storage_addToA cpu _
  | shift operation =>
      rw [Addressed.storageAfter, ← Shift.value_eq_moved]
      exact storage_write hfull address _
  | increment => exact storage_write hfull address _
  | decrement => exact storage_write hfull address _
  | compare register => rfl

theorem storage_implied (hfull : cpu.memory.size = Memory.addressCount) (operation : Implied) :
    (operation.apply cpu).storage = operation.storageAfter cpu := by
  cases operation with
  | transfer source target =>
      rw [Implied.storageAfter, storage_get]
      -- The stack pointer takes the byte without recording it.
      cases target with
      | s => rfl
      | _ => exact storage_setResult cpu _ _
  | shift operation =>
      rw [Implied.storageAfter, ← Shift.value_eq_moved]
      rfl
  | increment register =>
      rw [Implied.storageAfter, storage_get]
      exact storage_setResult cpu register _
  | decrement register =>
      rw [Implied.storageAfter, storage_get]
      exact storage_setResult cpu register _
  | push => exact storage_push hfull cpu.a
  | pull =>
      rw [Implied.storageAfter, ← pop_fst]
      exact storage_setResult cpu.pop.2 .a cpu.pop.1
  | pushStatus =>
      rw [Implied.storageAfter, ← Status.toByte_pushed]
      exact storage_push hfull _
  | pullStatus => exact storage_pullStatus cpu
  | _ => rfl

theorem storage_control (hfull : cpu.memory.size = Memory.addressCount) (operation : Control) :
    (operation.apply cpu.fetched).storage = operation.storageAfter cpu := by
  cases operation with
  | branch flag value =>
      simp only [Control.apply]
      split <;> rfl
  | call =>
      have hfetched : cpu.fetched.memory.size = Memory.addressCount := hfull
      simp only [Control.apply, Control.storageAfter]
      rw [storage_jump, storage_pushWord hfetched, storage_fetched, fetched_pc_add_one]
  | returnFromCall =>
      simp only [Control.apply]
      rw [storage_jump, storage_popWord, storage_fetched]
      rfl
  | returnFromInterrupt =>
      simp only [Control.apply]
      rw [storage_jump, storage_popWord, storage_pullStatus, storage_fetched]
      exact Storage.drop_drop cpu.storage 1 2
  | _ => rfl

theorem storage_carryOut (hfull : cpu.memory.size = Memory.addressCount)
    (hconsistent : opcode.Consistent) :
    (opcode.carryOut cpu.fetched).storage =
      opcode.instruction.storageAfter (cpu.effectiveAddress opcode.mode) cpu := by
  have hfetched : cpu.fetched.memory.size = Memory.addressCount := hfull
  cases hinstruction : opcode.instruction with
  | addressed operation =>
      rw [carryOut_addressed hconsistent hinstruction]
      exact storage_addressed hfetched operation _
  | implied operation =>
      rw [carryOut_implied hinstruction]
      exact storage_implied hfetched operation
  | control operation =>
      rw [carryOut_control hinstruction]
      exact storage_control hfull operation

section Size

variable (cpu : Cpu)

theorem size_addressed (operation : Addressed) (address : UInt16) :
    (operation.apply address cpu).memory.size = cpu.memory.size := by
  cases operation with
  | load register => cases register <;> rfl
  | store register => exact Memory.size_write cpu.memory address _
  | shift operation => exact Memory.size_write cpu.memory address _
  | increment => exact Memory.size_write cpu.memory address _
  | decrement => exact Memory.size_write cpu.memory address _
  | _ => rfl

theorem size_implied (operation : Implied) :
    (operation.apply cpu).memory.size = cpu.memory.size := by
  cases operation with
  | transfer source target => cases target <;> rfl
  | increment register => cases register <;> rfl
  | decrement register => cases register <;> rfl
  | push => exact Memory.size_write cpu.memory _ _
  | pushStatus => exact Memory.size_write cpu.memory _ _
  | _ => rfl

theorem size_control (operation : Control) :
    (operation.apply cpu).memory.size = cpu.memory.size := by
  cases operation with
  | branch flag value =>
      simp only [Control.apply]
      split <;> rfl
  | call =>
      calc
        (Control.call.apply cpu).memory.size
            = (cpu.push (highByte (cpu.pc + 1))).memory.size := Memory.size_write _ _ _
        _ = cpu.memory.size := Memory.size_write _ _ _
  | _ => rfl

/-- No instruction changes how many cells there are. -/
theorem size_carryOut (hconsistent : opcode.Consistent) :
    (opcode.carryOut cpu.fetched).memory.size = cpu.memory.size := by
  cases hinstruction : opcode.instruction with
  | addressed operation =>
      rw [carryOut_addressed hconsistent hinstruction, size_addressed, fetched]
  | implied operation =>
      rw [carryOut_implied hinstruction, size_implied, fetched]
  | control operation =>
      rw [carryOut_control hinstruction, size_control, fetched]

end Size

/-- A step on a recognised opcode leaves all registers and cells as the law of its
instruction says, with the effective address of its mode as the cell it works on. -/
theorem step_storage (hfull : cpu.memory.size = Memory.addressCount)
    (hdecode : Opcode.decode (cpu.read cpu.pc) = some opcode) :
    opcode.Named ∧ ∃ outcome next, cpu.step? = some (outcome, next) ∧
      next.memory.size = Memory.addressCount ∧
      next.storage =
        opcode.instruction.storageAfter (cpu.effectiveAddress opcode.mode) cpu ∧
      (opcode.instruction.usesMode = true →
        cpu.fetched.operandAddress opcode.mode = .ok (cpu.effectiveAddress opcode.mode)) := by
  obtain ⟨hconsistent, -⟩ := Opcode.consistent_of_decode hdecode
  refine ⟨hconsistent.named, _, _, step?_of_decode hfull hdecode, ?_, ?_, ?_⟩
  · rw [advance_memory, size_carryOut cpu hconsistent, hfull]
  · rw [storage_advance, storage_carryOut hfull hconsistent]
  · intro huses
    exact operandAddress_of_ne_implied (hconsistent.mode_ne_implied huses) cpu

/-- A call at the start of an empty stack. -/
theorem step_storage_of_call :
    (holding [0x20, 0x34, 0x12]).memory.size = Memory.addressCount ∧
      Opcode.decode ((holding [0x20, 0x34, 0x12]).read (holding [0x20, 0x34, 0x12]).pc) =
        some ⟨0x20, "JSR", 3, 6, .implied, .control .call⟩ ∧
      ∃ outcome next, (holding [0x20, 0x34, 0x12]).step? = some (outcome, next) ∧
        next.storage = ((holding [0x20, 0x34, 0x12]).storage.push 0x00).push 0x02 := by
  have hfull := size_holding [0x20, 0x34, 0x12] (by decide)
  have hdecode : Opcode.decode
      ((holding [0x20, 0x34, 0x12]).read (holding [0x20, 0x34, 0x12]).pc) =
        some ⟨0x20, "JSR", 3, 6, .implied, .control .call⟩ := by
    rw [read, read_holding [0x20, 0x34, 0x12] (by decide), pc_holding]
    rfl
  obtain ⟨-, outcome, next, hstep, -, hstorage, -⟩ := step_storage hfull hdecode
  refine ⟨hfull, hdecode, outcome, next, hstep, hstorage.trans ?_⟩
  rw [Instruction.storageAfter, Control.storageAfter, pc_holding]
  rfl

end Cpu

end Machine6502
