import Machine6502.Proofs.Addition

/-!
# Subtraction

A subtraction is the addition of the byte before its operand.  This is not the addition of the
complement: with the carry set the operand is added, not taken away.  The byte before 0 is 255,
and carry and overflow come out of the addition of that byte.
-/

namespace Machine6502

theorem toNat_sub_one (byte : UInt8) : (byte - 1).toNat = (byte.toNat + 255) % 256 := by
  have hone : (1 : UInt8).toNat = 1 := rfl
  rw [UInt8.toNat_sub, hone]
  omega

namespace Cpu

/-- What a subtraction leaves in accumulator, carry and overflow, in numbers. -/
structure Subtracted (before : Cpu) (operand : UInt8) (after : Cpu) : Prop where
  value : (after.a.toNat : Int) =
    (before.a.toNat + operand.toNat - 1 + before.status.carry.toNat) % 256
  carry_of_pos : 1 ≤ operand.toNat →
    (after.status.carry = true ↔
      (before.a.toNat + operand.toNat - 1 + before.status.carry.toNat : Int) > 255)
  carry_of_zero : operand.toNat = 0 →
    (after.status.carry = true ↔ before.a.toNat + 255 + before.status.carry.toNat > 255)
  overflow : after.status.overflow = signedOverflow before.a (operand - 1) before.status.carry
  value_of_carry : before.status.carry = true →
    after.a.toNat = (before.a.toNat + operand.toNat) % 256

variable {cpu next : Cpu} {mode : Mode} {address : UInt16} {operand : UInt8}

/-- The numbers of a subtraction are those of the addition of the byte before. -/
theorem Added.subtracted (hadded : cpu.Added (operand - 1) next) :
    cpu.Subtracted operand next := by
  obtain ⟨hsum, hoverflow⟩ := hadded
  have hvalue := next.a.toNat_lt
  have hoperand := operand.toNat_lt
  have hcarry := next.status.carry.toNat_le
  rw [toNat_sub_one] at hsum
  refine ⟨?_, fun hpos => ?_, fun hzero => ?_, hoverflow, fun hset => ?_⟩
  · omega
  · rw [← Bool.toNat_eq_one]
    omega
  · rw [← Bool.toNat_eq_one]
    omega
  · rw [← Bool.toNat_eq_one] at hset
    omega

/-- An addition does not look at memory but for its operand. -/
theorem addToA_memory (cpu : Cpu) (operand : UInt8) (memory : Memory) :
    ({ cpu with memory } : Cpu).addToA operand = { cpu.addToA operand with memory } :=
  rfl

/-- A subtraction that is called with a mode that names an operand leaves what adding the byte
before the operand leaves, in every register, flag and cell: what an addition leaves in a machine
that differs in its memory alone and finds that byte as its operand. -/
theorem subtraction_adds_byte_before (hfull : cpu.memory.size = Memory.addressCount)
    (hmode : mode ≠ .implied) :
    ∃ address next, cpu.operandAddress mode = .ok address ∧
      cpu.execute? (.addressed .subtract) mode = some (none, next) ∧
      next = cpu.addToA (cpu.read address - 1) ∧
      (∀ (memory : Memory) (mode' : Mode) (address' : UInt16),
        ({ cpu with memory } : Cpu).operandAddress mode' = .ok address' →
        memory.read address' = cpu.read address - 1 →
        (Instruction.addressed .add).execute mode' { cpu with memory } =
          (none, { next with memory })) ∧
      cpu.Subtracted (cpu.read address) next := by
  obtain ⟨address, haddress⟩ := exists_operandAddress hmode cpu
  refine ⟨address, cpu.addToA (cpu.read address - 1), haddress,
    execute?_of_operandAddress hfull haddress .subtract, rfl,
    fun memory mode' address' hnamed hbefore => ?_, (added_addToA _ _).subtracted⟩
  have hadded : Addressed.add.apply address' { cpu with memory } =
      ({ cpu with memory } : Cpu).addToA (memory.read address') := rfl
  rw [execute_of_operandAddress hnamed, hadded, hbefore, addToA_memory]

/-- Taking nothing from nothing leaves 255 and no carry. -/
theorem subtraction_adds_byte_before_of_zero :
    (holding [0x00]).memory.size = Memory.addressCount ∧ Mode.immediate ≠ .implied ∧
      ∃ next, (holding [0x00]).execute? (.addressed .subtract) .immediate = some (none, next) ∧
        next.a = 0xFF ∧ next.status.carry = false := by
  have hfull := size_holding [0x00] (by decide)
  have hmode : Mode.immediate ≠ .implied := by decide
  have ha : (holding [0x00]).a = 0x00 := by
    rw [holding]
    rfl
  obtain ⟨address, next, haddress, hcall, -, -, hlaw⟩ := subtraction_adds_byte_before hfull hmode
  have hoperand : (holding [0x00]).read address = 0x00 := by
    obtain rfl : (holding [0x00]).pc = address := Except.ok.inj haddress
    rw [read, read_holding [0x00] (by decide), pc_holding]
    rfl
  have hvalue := hlaw.value
  have hcarry := hlaw.carry_of_zero
  rw [hoperand, ha, status_holding] at hvalue hcarry
  refine ⟨hfull, hmode, next, hcall, ?_, ?_⟩
  · exact UInt8.toNat_inj.mp (Int.ofNat_inj.mp hvalue)
  · exact Bool.eq_false_iff.mpr (mt (hcarry rfl).mp (by decide))

end Cpu

end Machine6502
