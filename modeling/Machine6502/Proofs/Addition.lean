import Machine6502.Proofs.EffectiveAddress
import Machine6502.Proofs.Flags
import Machine6502.Proofs.LittleEndian

/-!
# Addition of numbers of any width

What an addition leaves in accumulator and carry, taken together, is the sum of accumulator,
operand and carry.  So numbers of any number of bytes are added byte by byte, from the lowest
one on, when nothing touches the carry between the additions.
-/

namespace Machine6502

/-- The encodings of an addition, with the mode that names its operand. -/
def additionCodes : List (UInt8 × Mode) := [
  (0x69, .immediate),
  (0x65, .zeroPage),
  (0x75, .zeroPageX),
  (0x6D, .absolute),
  (0x7D, .absoluteX),
  (0x79, .absoluteY),
  (0x61, .indirectX),
  (0x71, .indirectY)]

/-- The additions of the opcode table are these and no others. -/
theorem mem_additionCodes_iff {code : UInt8} {mode : Mode} :
    (code, mode) ∈ additionCodes ↔
      ∃ opcode, Opcode.decode code = some opcode ∧ opcode.instruction = .addressed .add ∧
        opcode.mode = mode := by
  have hcodes : ∀ entry ∈ additionCodes, ∃ opcode ∈ Opcode.table, opcode.code = entry.1 ∧
      opcode.instruction = .addressed .add ∧ opcode.mode = entry.2 := by decide +kernel
  have htable : ∀ opcode ∈ Opcode.table, opcode.instruction = .addressed .add →
      (opcode.code, opcode.mode) ∈ additionCodes := by decide +kernel
  constructor
  · intro hmem
    obtain ⟨opcode, hopcode, rfl, hinstruction, hmode⟩ := hcodes _ hmem
    exact ⟨opcode, Opcode.decode_code hopcode, hinstruction, hmode⟩
  · rintro ⟨opcode, hdecode, hinstruction, rfl⟩
    obtain ⟨hopcode, rfl⟩ := Opcode.mem_table_of_decode hdecode
    exact htable opcode hopcode hinstruction

namespace Cpu

/-- What the addition of a byte leaves: the sum in accumulator and carry, and in the overflow
flag whether the signed sum is no signed byte. -/
structure Added (before : Cpu) (operand : UInt8) (after : Cpu) : Prop where
  sum : after.a.toNat + 256 * after.status.carry.toNat =
    before.a.toNat + operand.toNat + before.status.carry.toNat
  overflow : after.status.overflow = signedOverflow before.a operand before.status.carry

/-- A byte is added: by the next step, or by a call with a mode that names it. -/
inductive Adds (cpu : Cpu) (operand : UInt8) (next : Cpu) : Prop
  | step {mode : Mode} {address : UInt16} (hcode : (cpu.code, mode) ∈ additionCodes)
      (haddress : cpu.fetched.operandAddress mode = .ok address)
      (hoperand : cpu.read address = operand) (hstep : cpu.step? = some (.continued, next))
  | call {mode : Mode} {address : UInt16} (haddress : cpu.operandAddress mode = .ok address)
      (hoperand : cpu.read address = operand)
      (hcall : cpu.execute? (.addressed .add) mode = some (none, next))

/-- Two numbers are added byte by byte.  Before each addition a client brings a byte of the
upper number into the accumulator and sees to it that the byte of the lower one is the operand.
It may do this and anything else in any way that keeps the carry.  The bytes of the sum are
what the additions leave in the accumulator. -/
inductive AddsNumbers : Cpu → List UInt8 → List UInt8 → List UInt8 → Cpu → Prop
  | done (cpu : Cpu) : AddsNumbers cpu [] [] [] cpu
  | column {cpu ready next last : Cpu} {above below : UInt8} {upper lower sums : List UInt8}
      (hcarry : ready.status.carry = cpu.status.carry) (hloaded : ready.a = above)
      (hadds : ready.Adds below next) (hrest : AddsNumbers next upper lower sums last) :
      AddsNumbers cpu (above :: upper) (below :: lower) (next.a :: sums) last

variable {cpu next last : Cpu} {operand : UInt8}

theorem added_addToA (cpu : Cpu) (operand : UInt8) : cpu.Added operand (cpu.addToA operand) where
  sum := by
    have ha := cpu.a.toNat_lt
    have hoperand := operand.toNat_lt
    have hcarry := cpu.status.carry.toNat_le
    have hvalue : (cpu.addToA operand).a.toNat =
        (cpu.a.toNat + operand.toNat + cpu.status.carry.toNat) % 256 := UInt8.toNat_ofNat'
    have hflag : (cpu.addToA operand).status.carry =
        decide (255 < cpu.a.toNat + operand.toNat + cpu.status.carry.toNat) := rfl
    rw [hvalue, hflag]
    by_cases hover : 255 < cpu.a.toNat + operand.toNat + cpu.status.carry.toNat
    · rw [decide_eq_true hover, Bool.toNat_true]
      omega
    · rw [decide_eq_false hover, Bool.toNat_false]
      omega
  overflow := overflow_addWithCarry cpu.a operand cpu.status.carry

/-- Skipping the operand bytes does not touch the sum. -/
theorem Added.advance (hadded : cpu.Added operand next) (start : UInt16) (length : UInt8) :
    cpu.Added operand (next.advance start length) := by
  obtain ⟨hsum, hoverflow⟩ := hadded
  rw [advance_eq]
  exact ⟨hsum, hoverflow⟩

/-- A step on an encoding of an addition adds. -/
theorem added_step {mode : Mode} {address : UInt16} (hcode : (cpu.code, mode) ∈ additionCodes)
    (haddress : cpu.fetched.operandAddress mode = .ok address) :
    cpu.step.1 = .continued ∧ cpu.Added (cpu.read address) cpu.step.2 := by
  obtain ⟨opcode, hdecode, hinstruction, rfl⟩ := mem_additionCodes_iff.mp hcode
  obtain ⟨hconsistent, -⟩ := Opcode.consistent_of_decode hdecode
  have hnamed := operandAddress_of_addressed hconsistent hinstruction cpu
  have heffective : cpu.effectiveAddress opcode.mode = address :=
    Except.ok.inj (hnamed.symm.trans haddress)
  obtain ⟨hsum, hoverflow⟩ := added_addToA cpu.fetched (cpu.read address)
  have hadded : cpu.Added (cpu.read address) (cpu.fetched.addToA (cpu.read address)) :=
    ⟨hsum, hoverflow⟩
  rw [step_of_decode hdecode, carryOut_addressed hconsistent hinstruction, heffective,
    Opcode.outcome, hinstruction]
  exact ⟨rfl, hadded.advance _ _⟩

theorem Adds.added (hadds : cpu.Adds operand next) : cpu.Added operand next := by
  cases hadds with
  | step hcode haddress hoperand hstep =>
      obtain ⟨-, hadded⟩ := added_step hcode haddress
      have hnext : cpu.step = (.continued, next) := by
        rw [step?] at hstep
        split at hstep
        · exact Option.some.inj hstep
        · cases hstep
      rwa [hnext, hoperand] at hadded
  | call haddress hoperand hcall =>
      have hnext := Memory.eq_of_mem_within hcall
      rw [execute_of_operandAddress haddress, Prod.mk.injEq] at hnext
      rw [hnext.2, ← hoperand]
      exact added_addToA cpu (cpu.read _)

/-- The bytes of the sum and the last carry hold the sum of both numbers and the first carry. -/
theorem AddsNumbers.sum {upper lower sums : List UInt8}
    (hadds : cpu.AddsNumbers upper lower sums last) :
    sums.length = upper.length ∧
      littleEndian sums + 256 ^ upper.length * last.status.carry.toNat =
        littleEndian upper + littleEndian lower + cpu.status.carry.toNat := by
  induction hadds with
  | done cpu => simp
  | @column cpu ready next last above below upper lower sums hcarry hloaded hadds _ ih =>
      obtain ⟨hlength, hsums⟩ := ih
      have hcolumn := hadds.added.sum
      rw [hcarry, hloaded] at hcolumn
      refine ⟨congrArg Nat.succ hlength, ?_⟩
      calc
        littleEndian (next.a :: sums) +
              256 ^ (above :: upper).length * last.status.carry.toNat
            = next.a.toNat +
                256 * (littleEndian sums + 256 ^ upper.length * last.status.carry.toNat) := by
              rw [littleEndian_cons, List.length_cons, Nat.pow_succ']
              ring
        _ = next.a.toNat + 256 * next.status.carry.toNat +
              256 * (littleEndian upper + littleEndian lower) := by
              rw [hsums]
              ring
        _ = littleEndian (above :: upper) + littleEndian (below :: lower) +
              cpu.status.carry.toNat := by
              rw [hcolumn, littleEndian_cons, littleEndian_cons]
              ring

/-- A client can always have a byte loaded and another one added: it puts each of them in turn
into the cell at the program counter. -/
theorem exists_adds (hfull : cpu.memory.size = Memory.addressCount) (above below : UInt8) :
    ∃ ready next : Cpu, ready.status.carry = cpu.status.carry ∧ ready.a = above ∧
      ready.Adds below next ∧ next.memory.size = Memory.addressCount := by
  let loaded := (Addressed.load .a).apply cpu.pc (cpu.write cpu.pc above)
  let ready := loaded.write cpu.pc below
  have hloaded : loaded.memory.size = Memory.addressCount :=
    (Memory.size_write cpu.memory cpu.pc above).trans hfull
  have hready : ready.memory.size = Memory.addressCount :=
    (Memory.size_write loaded.memory cpu.pc below).trans hloaded
  have hbelow : ready.read cpu.pc = below := cell_write hloaded cpu.pc below
  have haddress : ready.operandAddress .immediate = .ok cpu.pc := rfl
  have hcall := execute?_of_operandAddress hready haddress .add
  exact ⟨ready, _, rfl, cell_write hfull cpu.pc above, .call haddress hbelow hcall, hready⟩

theorem exists_addsNumbers (hfull : cpu.memory.size = Memory.addressCount)
    {upper lower : List UInt8} (hlength : upper.length = lower.length) :
    ∃ sums last, cpu.AddsNumbers upper lower sums last := by
  induction upper generalizing cpu lower with
  | nil =>
      obtain rfl := List.length_eq_zero_iff.mp hlength.symm
      exact ⟨[], cpu, .done cpu⟩
  | cons above upper ih =>
      obtain ⟨below, lower, rfl⟩ := List.exists_cons_of_length_eq_add_one hlength.symm
      obtain ⟨ready, next, hcarry, hloaded, hadds, hnext⟩ := exists_adds hfull above below
      obtain ⟨sums, last, hrest⟩ := ih hnext (Nat.succ.inj hlength)
      exact ⟨next.a :: sums, last, .column hcarry hloaded hadds hrest⟩

/-- A step on an encoding of an addition goes on and adds exactly, whatever the flags are.  So
two numbers of equal width, added byte by byte behind a cleared carry, give their sum: the bytes
that the additions leave, and the last carry above them. -/
theorem adds_at_every_width (hfull : cpu.memory.size = Memory.addressCount) :
    (∀ mode, (cpu.code, mode) ∈ additionCodes →
      ∃ address next, cpu.fetched.operandAddress mode = .ok address ∧
        cpu.step? = some (.continued, next) ∧ cpu.Added (cpu.read address) next) ∧
    ∀ upper lower : List UInt8, upper.length = lower.length →
      let cleared := (Implied.clearFlag .carry).apply cpu
      (∃ sums last, cleared.AddsNumbers upper lower sums last) ∧
      ∀ sums last, cleared.AddsNumbers upper lower sums last →
        sums.length = upper.length ∧
        littleEndian sums + 256 ^ upper.length * last.status.carry.toNat =
          littleEndian upper + littleEndian lower := by
  have hcleared : ((Implied.clearFlag .carry).apply cpu).memory.size = Memory.addressCount := hfull
  refine ⟨fun mode hcode => ?_, fun upper lower hlength =>
    ⟨exists_addsNumbers hcleared hlength, fun sums last hadds => hadds.sum⟩⟩
  obtain ⟨opcode, hdecode, hinstruction, rfl⟩ := mem_additionCodes_iff.mp hcode
  obtain ⟨hconsistent, -⟩ := Opcode.consistent_of_decode hdecode
  have haddress := operandAddress_of_addressed hconsistent hinstruction cpu
  obtain ⟨houtcome, hadded⟩ := added_step hcode haddress
  refine ⟨_, cpu.step.2, haddress, ?_, hadded⟩
  rw [step?_of_full cpu (Nat.le_of_eq hfull.symm), ← houtcome]

/-- Two bytes of one number and two of another: 511 and 1. -/
theorem adds_at_every_width_of_two_bytes :
    (holding [0x69, 0x01]).memory.size = Memory.addressCount ∧
      ((holding [0x69, 0x01]).code, Mode.immediate) ∈ additionCodes ∧
      (∃ next, (holding [0x69, 0x01]).step? = some (.continued, next) ∧
        (holding [0x69, 0x01]).Added 0x01 next) ∧
      ∃ sums last,
        ((Implied.clearFlag .carry).apply (holding [0x69, 0x01])).AddsNumbers [0xFF, 0x01]
          [0x01, 0x00] sums last ∧
        littleEndian sums + 256 ^ 2 * last.status.carry.toNat = 512 := by
  have hfull := size_holding [0x69, 0x01] (by decide)
  have hread := read_holding [0x69, 0x01] (by decide)
  have hcode : ((holding [0x69, 0x01]).code, Mode.immediate) ∈ additionCodes := by
    rw [code, read, hread, pc_holding]
    decide
  obtain ⟨hsteps, hnumbers⟩ := adds_at_every_width hfull
  obtain ⟨address, next, haddress, hstep, hadded⟩ := hsteps .immediate hcode
  obtain ⟨⟨sums, last, hadds⟩, hsum⟩ := hnumbers [0xFF, 0x01] [0x01, 0x00] rfl
  have hoperand : (holding [0x69, 0x01]).read address = 0x01 := by
    obtain rfl : (holding [0x69, 0x01]).pc + 1 = address := Except.ok.inj haddress
    rw [read, hread, pc_holding]
    rfl
  rw [hoperand] at hadded
  exact ⟨hfull, hcode, ⟨next, hstep, hadded⟩, sums, last, hadds, (hsum sums last hadds).2⟩

end Cpu

end Machine6502
