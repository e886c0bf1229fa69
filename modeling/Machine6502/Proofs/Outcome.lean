import Machine6502.Proofs.DataPath

/-!
# How a step ends

The byte at the program counter decides how a step ends.  A byte that begins no
instruction fails and moves nothing but the counter, a break halts, and every other
instruction goes on.  No step changes how many cells there are.
-/

namespace Machine6502

namespace Cpu

/-- The byte that the next step fetches. -/
def code (cpu : Cpu) : UInt8 :=
  cpu.read cpu.pc

/-- The next step fetches an instruction that is no break. -/
def GoesOn (cpu : Cpu) : Prop :=
  Opcode.decode cpu.code ≠ none ∧ cpu.code ≠ 0x00

/-- What the fetched byte says about the outcome of a step and the machine after it. -/
structure OutcomeLaw (cpu : Cpu) (outcome : Outcome) (next : Cpu) : Prop where
  failed_iff : (∃ fault, outcome = .failed fault) ↔ Opcode.decode cpu.code = none
  of_failed : ∀ fault, outcome = .failed fault →
    fault = .unrecognizedOpcode cpu.code cpu.pc ∧ next = { cpu with pc := cpu.pc + 1 }
  supported : ∀ mode, outcome ≠ .failed (.unsupportedMode mode)
  halted_iff : outcome = .halted ↔ cpu.code = 0x00
  of_halted : outcome = .halted → next = { cpu with pc := cpu.pc + 1, halted := true }
  continued_iff : outcome = .continued ↔ cpu.GoesOn
  of_continued : outcome = .continued → next.halted = false

variable {cpu : Cpu}

theorem step_of_decode_eq_none (hdecode : Opcode.decode cpu.code = none) :
    cpu.step = (.failed (.unrecognizedOpcode cpu.code cpu.pc), { cpu with pc := cpu.pc + 1 }) := by
  rw [code] at hdecode ⊢
  simp only [step, hdecode]

theorem step_of_break (hcode : cpu.code = 0x00) :
    cpu.step = (.halted, { cpu with pc := cpu.pc + 1, halted := true }) := by
  have hdecode : Opcode.decode (cpu.read cpu.pc) =
      some ⟨0x00, "BRK", 1, 7, .implied, .implied .halt⟩ := by
    rw [← code, hcode]
    rfl
  simp only [step, hdecode]
  rfl

theorem advance_halted (start : UInt16) (length : UInt8) (cpu : Cpu) :
    (cpu.advance start length).halted = cpu.halted := by
  rw [advance_eq]

/-- The fetch takes back a break, and only a break brings it on again. -/
theorem halted_carryOut {opcode : Opcode} (hconsistent : opcode.Consistent)
    (hinstruction : opcode.instruction ≠ .implied .halt) (cpu : Cpu) :
    (opcode.carryOut cpu.fetched).halted = false := by
  cases hkind : opcode.instruction with
  | addressed operation =>
      rw [carryOut_addressed hconsistent hkind, halted_addressed, fetched]
  | implied operation =>
      have hoperation : operation ≠ .halt := fun hhalt => hinstruction (hhalt ▸ hkind)
      rw [carryOut_implied hkind, halted_implied _ hoperation, fetched]
  | control operation =>
      rw [carryOut_control hkind, halted_control, fetched]

theorem step_of_goesOn (hgoes : cpu.GoesOn) :
    cpu.step.1 = .continued ∧ cpu.step.2.halted = false := by
  obtain ⟨hdecode, hcode⟩ := hgoes
  obtain ⟨opcode, hdecode⟩ := Option.ne_none_iff_exists'.mp hdecode
  obtain ⟨hconsistent, hopcode⟩ := Opcode.consistent_of_decode hdecode
  have hinstruction : opcode.instruction ≠ .implied .halt := by
    rw [ne_eq, hconsistent.halts_iff_code, hopcode]
    exact hcode
  rw [step_of_decode hdecode, Opcode.outcome, if_neg hinstruction, advance_halted]
  exact ⟨rfl, halted_carryOut hconsistent hinstruction cpu⟩

/-- A step that finds its opcode leaves the halted flag on exactly when it was a break. -/
theorem halted_step_of_decode (hdecode : Opcode.decode cpu.code ≠ none) :
    cpu.step.2.halted = decide (cpu.code = 0x00) := by
  by_cases hcode : cpu.code = 0x00
  · rw [step_of_break hcode, decide_eq_true hcode]
  · rw [(step_of_goesOn ⟨hdecode, hcode⟩).2, decide_eq_false hcode]

theorem outcomeLaw_step (cpu : Cpu) : cpu.OutcomeLaw cpu.step.1 cpu.step.2 := by
  have hbreak : Opcode.decode 0x00 ≠ none := by decide
  by_cases hdecode : Opcode.decode cpu.code = none
  · have hcode : cpu.code ≠ 0x00 := fun hcode => hbreak (hcode ▸ hdecode)
    rw [step_of_decode_eq_none hdecode]
    constructor <;> simp [hdecode, hcode, GoesOn]
  · by_cases hcode : cpu.code = 0x00
    · rw [step_of_break hcode]
      constructor <;> simp [hbreak, hcode, GoesOn]
    · have hgoes : cpu.GoesOn := ⟨hdecode, hcode⟩
      obtain ⟨houtcome, hhalted⟩ := step_of_goesOn hgoes
      rw [houtcome]
      constructor <;> simp [hdecode, hcode, hgoes, hhalted]

@[simp]
theorem size_step (cpu : Cpu) : cpu.step.2.memory.size = cpu.memory.size := by
  cases hdecode : Opcode.decode cpu.code with
  | none => rw [step_of_decode_eq_none hdecode]
  | some opcode =>
      obtain ⟨hconsistent, -⟩ := Opcode.consistent_of_decode hdecode
      rw [step_of_decode hdecode, advance_memory, size_carryOut cpu hconsistent]

end Cpu

end Machine6502
