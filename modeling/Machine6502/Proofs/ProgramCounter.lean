import Machine6502.Proofs.Bits
import Machine6502.Proofs.Fetch
import Machine6502.Proofs.Storage

/-!
# The program counter after a step

A step leaves the program counter behind the instruction, or where a control
transfer leads.  A transfer to the byte behind its own opcode looks like none, and
the operand bytes are skipped as if it had not been taken; these statements say
that this is the only target that is missed.
-/

namespace Machine6502

namespace Cpu

/-- Where a branch at the program counter leads: its displacement is a signed number
counted from the next instruction. -/
def branchTarget (cpu : Cpu) : UInt16 :=
  UInt16.ofInt (cpu.pc.toNat + 2 + (cpu.read (cpu.pc + 1)).toInt8.toInt)

def operandWord (cpu : Cpu) : UInt16 :=
  cpu.memory.readWord (cpu.pc + 1)

/-- Where an indirect jump at the program counter leads.  The second byte of the
target is read from the page of the first. -/
def pointedTarget (cpu : Cpu) : UInt16 :=
  let pointer := cpu.operandWord
  wordOf (cpu.read pointer) (cpu.read ((pointer &&& 0xFF00) ||| ((pointer + 1) &&& 0x00FF)))

/-- Where a call at the program counter leads: to the word behind the opcode, as it
is when the address of the call's last byte has been pushed. -/
def callTarget (cpu : Cpu) : UInt16 :=
  let last := cpu.pc + 2
  let pushed := (cpu.storage.push (highByte last)).push (lowByte last)
  wordOf (pushed.cell (cpu.pc + 1)) (pushed.cell (cpu.pc + 2))

/-- The target of the branch or jump at the program counter; none for a branch whose
condition does not hold, and for every other instruction. -/
def jumpTarget? (cpu : Cpu) : Option UInt16 :=
  match Control.ofCode? (cpu.read cpu.pc) with
  | some (.branch flag value) =>
      if cpu.status.get flag = value then some cpu.branchTarget else none
  | some .jump => some cpu.operandWord
  | some .jumpIndirect => some cpu.pointedTarget
  | _ => none

/-- Where a transfer with a target lands: at the target, or behind the instruction
when the target is the byte behind the opcode. -/
def landing (cpu : Cpu) (length : UInt8) (target : UInt16) : UInt16 :=
  if target = cpu.pc + 1 then cpu.pc + length.toUInt16 else target

/-- The program counter after a step on an opcode of some length. -/
def pcAfter (cpu : Cpu) (length : UInt8) : UInt16 :=
  match Control.ofCode? (cpu.read cpu.pc) with
  | some (.branch flag value) =>
      if cpu.status.get flag = value then cpu.landing length cpu.branchTarget else cpu.pc + 2
  | some .jump => cpu.landing length cpu.operandWord
  | some .jumpIndirect => cpu.landing length cpu.pointedTarget
  | some .call => cpu.landing length cpu.callTarget
  | some .returnFromCall => cpu.storage.peekWord 1 + 1
  | some .returnFromInterrupt => cpu.storage.peekWord 2
  | none => if cpu.read cpu.pc = 0x00 then cpu.pc + 1 else cpu.pc + length.toUInt16

end Cpu

theorem Opcode.exists_decode_of_ofCode? {code : UInt8} {operation : Control}
    (hcode : Control.ofCode? code = some operation) : ∃ opcode, decode code = some opcode := by
  have hall : ∀ code, Control.ofCode? code ≠ none → (decode code).isSome = true :=
    forall_byte (by decide +kernel)
  exact Option.isSome_iff_exists.mp (hall code (by simp [hcode]))

namespace Cpu

/-- Skipping the operand bytes leads behind the instruction. -/
theorem add_operandLength (address : UInt16) (length : UInt8) :
    address + 1 + (length.toUInt16 - 1) = address + length.toUInt16 := by
  rw [UInt16.add_assoc, UInt16.add_comm 1, UInt16.sub_add_cancel]

section Instructions

variable (cpu : Cpu)

/-- Only control transfers move the program counter. -/
theorem pc_addressed (operation : Addressed) (address : UInt16) :
    (operation.apply address cpu).pc = cpu.pc := by
  cases operation with
  | load register => cases register <;> rfl
  | _ => rfl

theorem pc_implied (operation : Implied) : (operation.apply cpu).pc = cpu.pc := by
  cases operation with
  | transfer source target => cases target <;> rfl
  | increment register => cases register <;> rfl
  | decrement register => cases register <;> rfl
  | _ => rfl

theorem pc_branch (flag : Flag) (value : Bool) :
    ((Control.branch flag value).apply cpu.fetched).pc =
      if cpu.status.get flag = value then cpu.branchTarget else cpu.pc + 1 := by
  simp only [Control.apply, beq_iff_eq]
  split
  · rw [if_pos ‹_›]
    exact add_displacement cpu.pc (cpu.read (cpu.pc + 1))
  · rw [if_neg ‹_›]
    rfl

theorem pc_jump : (Control.jump.apply cpu.fetched).pc = cpu.operandWord :=
  rfl

theorem pc_jumpIndirect : (Control.jumpIndirect.apply cpu.fetched).pc = cpu.pointedTarget := by
  simp only [Control.apply, indirectTarget, pointedTarget, wordOf_pageWrap]
  rfl

/-- A call reads its target from the memory that its pushes leave. -/
theorem pc_call (hfull : cpu.memory.size = Memory.addressCount) :
    (Control.call.apply cpu.fetched).pc = cpu.callTarget := by
  have hfetched : cpu.fetched.memory.size = Memory.addressCount := hfull
  have hlast := fetched_pc_add_one cpu
  -- The pushes may change the operand word, so it is looked up behind them.
  have hcell : (cpu.fetched.pushWord (cpu.pc + 2)).memory.read =
      ((cpu.storage.push (highByte (cpu.pc + 2))).push (lowByte (cpu.pc + 2))).cell :=
    congrArg Storage.cell (storage_pushWord hfetched (cpu.pc + 2))
  simp only [Control.apply, callTarget, Memory.readWord, hlast, hcell]
  rw [← hlast]
  rfl

theorem pc_returnFromCall :
    (Control.returnFromCall.apply cpu.fetched).pc = cpu.storage.peekWord 1 + 1 := by
  simp only [Control.apply, popWord_fst]
  rfl

/-- A return from interrupt pops the status before the address. -/
theorem pc_returnFromInterrupt :
    (Control.returnFromInterrupt.apply cpu.fetched).pc = cpu.storage.peekWord 2 := by
  simp only [Control.apply, popWord_fst, storage_pullStatus, Storage.peekWord_drop]
  rfl

end Instructions

variable {cpu : Cpu} {opcode : Opcode}

/-- An instruction that is no control transfer leaves the program counter alone. -/
theorem pc_carryOut (hconsistent : opcode.Consistent)
    (hcontrol : opcode.instruction.control? = none) :
    (opcode.carryOut cpu.fetched).pc = cpu.pc + 1 := by
  cases hinstruction : opcode.instruction with
  | addressed operation =>
      rw [carryOut_addressed hconsistent hinstruction, pc_addressed, fetched]
  | implied operation =>
      rw [carryOut_implied hinstruction, pc_implied, fetched]
  | control operation => simp [hinstruction, Instruction.control?] at hcontrol

/-- The program counter of a step on a recognised opcode. -/
theorem pc_advance_carryOut (hfull : cpu.memory.size = Memory.addressCount)
    (hdecode : Opcode.decode (cpu.read cpu.pc) = some opcode) :
    ((opcode.carryOut cpu.fetched).advance (cpu.pc + 1) opcode.length).pc =
      cpu.pcAfter opcode.length := by
  obtain ⟨hconsistent, hcode⟩ := Opcode.consistent_of_decode hdecode
  have hcontrol : opcode.instruction.control? = Control.ofCode? (cpu.read cpu.pc) := by
    rw [hconsistent.control?_eq, hcode]
  rw [advance_pc, add_operandLength, pcAfter]
  cases htransfer : Control.ofCode? (cpu.read cpu.pc) with
  | none =>
      -- The counter stands behind the opcode, so the operand bytes are skipped.
      rw [pc_carryOut hconsistent (hcontrol.trans htransfer), if_pos rfl]
      by_cases hbreak : cpu.read cpu.pc = 0x00
      · have hlength : opcode.length = 1 :=
          hconsistent.length_of_halt (hconsistent.halts_iff_code.mpr (hcode.trans hbreak))
        simp only [hbreak, hlength, if_true]
        rfl
      · simp only [hbreak, if_false]
  | some operation =>
      have hinstruction : opcode.instruction = .control operation :=
        Instruction.eq_control_of_control? (hcontrol.trans htransfer)
      have hlength := hconsistent.length_of_control operation (hcontrol.trans htransfer)
      rw [carryOut_control hinstruction]
      cases operation with
      | branch flag value =>
          rw [pc_branch]
          by_cases htaken : cpu.status.get flag = value
          · simp only [htaken, if_true, landing]
          · simp [htaken, hlength, Control.length]
      | jump =>
          rw [pc_jump]
          rfl
      | jumpIndirect =>
          rw [pc_jumpIndirect]
          rfl
      | call =>
          rw [pc_call cpu hfull]
          rfl
      -- A return has no operand bytes, so it makes no difference where it leads.
      | returnFromCall =>
          rw [pc_returnFromCall, hlength]
          exact ite_eq_right_iff.mpr Eq.symm
      | returnFromInterrupt =>
          rw [pc_returnFromInterrupt, hlength]
          exact ite_eq_right_iff.mpr Eq.symm

/-- A jump lands at its target unless that is the byte behind its opcode. -/
theorem landing_eq_target_iff {length : UInt8} (hlength : length ≠ 1) (target : UInt16) :
    cpu.landing length target = target ↔ target ≠ cpu.pc + 1 := by
  rw [landing]
  split
  · rename_i htarget
    subst htarget
    simp only [ne_eq, not_true_eq_false, iff_false, UInt16.add_right_inj]
    exact fun hone => hlength (UInt8.toUInt16_inj.mp hone)
  · simp [*]

/-- A branch with the displacement -1 leads to its displacement byte, and no other
branch does. -/
theorem branchTarget_eq_iff (cpu : Cpu) :
    cpu.branchTarget = cpu.pc + 1 ↔ cpu.read (cpu.pc + 1) = 0xFF := by
  rw [branchTarget, ← add_displacement, UInt16.add_assoc (cpu.pc + 1), UInt16.add_eq_left,
    one_add_displacement_eq_zero_iff]

/-- What stands at the program counter when there is a jump target. -/
theorem ofCode?_of_jumpTarget? {target : UInt16} (htarget : cpu.jumpTarget? = some target) :
    ∃ operation, Control.ofCode? (cpu.read cpu.pc) = some operation ∧ operation.length ≠ 1 ∧
      ∀ length, cpu.pcAfter length = cpu.landing length target := by
  cases htransfer : Control.ofCode? (cpu.read cpu.pc) with
  | none => simp [jumpTarget?, htransfer] at htarget
  | some operation =>
      refine ⟨operation, rfl, ?_⟩
      cases operation with
      | branch flag value =>
          simp only [jumpTarget?, htransfer, Option.ite_none_right_eq_some,
            Option.some.injEq] at htarget
          obtain ⟨htaken, rfl⟩ := htarget
          refine ⟨by simp [Control.length], fun length => ?_⟩
          simp only [pcAfter, htransfer, htaken, if_true]
      | jump =>
          simp only [jumpTarget?, htransfer, Option.some.injEq] at htarget
          subst htarget
          refine ⟨by decide, fun length => ?_⟩
          simp only [pcAfter, htransfer]
      | jumpIndirect =>
          simp only [jumpTarget?, htransfer, Option.some.injEq] at htarget
          subst htarget
          refine ⟨by decide, fun length => ?_⟩
          simp only [pcAfter, htransfer]
      | _ => simp [jumpTarget?, htransfer] at htarget

/-- A branch that is taken and a jump go on and reach their target, unless the target
is the byte behind the opcode. -/
theorem step_reaches_target_iff {target : UInt16}
    (hfull : cpu.memory.size = Memory.addressCount) (htarget : cpu.jumpTarget? = some target) :
    ∃ next, cpu.step? = some (.continued, next) ∧ (next.pc = target ↔ target ≠ cpu.pc + 1) := by
  obtain ⟨operation, htransfer, hlength, hlanding⟩ := ofCode?_of_jumpTarget? htarget
  obtain ⟨opcode, hdecode⟩ := Opcode.exists_decode_of_ofCode? htransfer
  obtain ⟨hconsistent, hcode⟩ := Opcode.consistent_of_decode hdecode
  have hcontrol : opcode.instruction.control? = some operation := by
    rw [hconsistent.control?_eq, hcode, htransfer]
  have houtcome : opcode.outcome = .continued := by
    simp [Opcode.outcome, Instruction.eq_control_of_control? hcontrol]
  have hoperands : opcode.length ≠ 1 := by
    rwa [hconsistent.length_of_control operation hcontrol]
  refine ⟨_, by rw [step?_of_decode hfull hdecode, houtcome], ?_⟩
  rw [pc_advance_carryOut hfull hdecode, hlanding]
  exact landing_eq_target_iff hoperands target

/-- A jump to the address 1234. -/
theorem step_reaches_target_of_jump :
    (holding [0x4C, 0x34, 0x12]).memory.size = Memory.addressCount ∧
      (holding [0x4C, 0x34, 0x12]).jumpTarget? = some 0x1234 ∧
      ∃ next, (holding [0x4C, 0x34, 0x12]).step? = some (.continued, next) ∧
        (next.pc = 0x1234 ↔ 0x1234 ≠ (holding [0x4C, 0x34, 0x12]).pc + 1) := by
  have hfull := size_holding [0x4C, 0x34, 0x12] (by decide)
  have hread := read_holding [0x4C, 0x34, 0x12] (by decide)
  have htarget : (holding [0x4C, 0x34, 0x12]).jumpTarget? = some 0x1234 := by
    rw [jumpTarget?, operandWord, Memory.readWord, read, hread, pc_holding]
    rfl
  exact ⟨hfull, htarget, step_reaches_target_iff hfull htarget⟩

/-- A branch to its own displacement byte runs on behind that byte instead. -/
theorem branch_to_own_displacement_missed :
    (holding [0xD0, 0xFF]).memory.size = Memory.addressCount ∧
      (holding [0xD0, 0xFF]).jumpTarget? = some 1 ∧
      ∃ next, (holding [0xD0, 0xFF]).step? = some (.continued, next) ∧ next.pc = 2 := by
  have hfull := size_holding [0xD0, 0xFF] (by decide)
  have hread := read_holding [0xD0, 0xFF] (by decide)
  have hdecode : Opcode.decode ((holding [0xD0, 0xFF]).read (holding [0xD0, 0xFF]).pc) =
      some ⟨0xD0, "BNE", 2, 2, .implied, .control (.branch .zero false)⟩ := by
    rw [read, hread, pc_holding]
    rfl
  refine ⟨hfull, ?_, _, step?_of_decode hfull hdecode, ?_⟩
  · rw [jumpTarget?, branchTarget, read, read, hread, pc_holding, status_holding]
    rfl
  · rw [pc_advance_carryOut hfull hdecode, pcAfter, landing, branchTarget, read, read, hread,
      pc_holding, status_holding]
    rfl

/-- The program counter after a step on any recognised opcode.  A branch leads to the
byte behind its opcode exactly when its displacement is -1. -/
theorem step_pc (hfull : cpu.memory.size = Memory.addressCount)
    (hdecode : Opcode.decode (cpu.read cpu.pc) = some opcode) :
    ∃ outcome next, cpu.step? = some (outcome, next) ∧ next.pc = cpu.pcAfter opcode.length ∧
      (cpu.branchTarget = cpu.pc + 1 ↔ cpu.read (cpu.pc + 1) = 0xFF) :=
  ⟨_, _, step?_of_decode hfull hdecode, pc_advance_carryOut hfull hdecode,
    branchTarget_eq_iff cpu⟩

/-- A store into its own operand byte is skipped all the same. -/
theorem step_pc_of_selfModifying :
    (holding [0x85, 0x01]).memory.size = Memory.addressCount ∧
      Opcode.decode ((holding [0x85, 0x01]).read (holding [0x85, 0x01]).pc) =
        some ⟨0x85, "STA", 2, 3, .zeroPage, .addressed (.store .a)⟩ ∧
      ∃ outcome next, (holding [0x85, 0x01]).step? = some (outcome, next) ∧ next.pc = 2 := by
  have hfull := size_holding [0x85, 0x01] (by decide)
  have hread := read_holding [0x85, 0x01] (by decide)
  have hdecode : Opcode.decode ((holding [0x85, 0x01]).read (holding [0x85, 0x01]).pc) =
      some ⟨0x85, "STA", 2, 3, .zeroPage, .addressed (.store .a)⟩ := by
    rw [read, hread, pc_holding]
    rfl
  obtain ⟨outcome, next, hstep, hpc, -⟩ := step_pc hfull hdecode
  have hafter : (holding [0x85, 0x01]).pcAfter 2 = 2 := by
    rw [pcAfter, read, hread, pc_holding]
    rfl
  exact ⟨hfull, hdecode, outcome, next, hstep, hpc.trans hafter⟩

end Cpu

end Machine6502
