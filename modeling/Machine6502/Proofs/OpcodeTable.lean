import Machine6502.Opcode

/-!
# The opcode table

The documented instructions by name, the control transfers by opcode byte, and what
every entry of the opcode table satisfies whatever machine it runs on.  The table
is looked through once; later statements use the fields of `Opcode.Consistent`.
-/

namespace Machine6502

inductive Mnemonic where
  | adc | and | asl | bcc | bcs | beq | bit | bmi | bne | bpl | brk | bvc | bvs | clc
  | cld | cli | clv | cmp | cpx | cpy | dec | dex | dey | eor | inc | inx | iny | jmp
  | jsr | lda | ldx | ldy | lsr | nop | ora | pha | php | pla | plp | rol | ror | rti
  | rts | sbc | sec | sed | sei | sta | stx | sty | tax | tay | tsx | txa | txs | tya
deriving DecidableEq, Repr

namespace Mnemonic

def all : List Mnemonic := [
  adc, .and, asl, bcc, bcs, beq, bit, bmi, bne, bpl, brk, bvc, bvs, clc,
  cld, cli, clv, cmp, cpx, cpy, dec, dex, dey, eor, inc, inx, iny, jmp,
  jsr, lda, ldx, ldy, lsr, nop, ora, pha, php, pla, plp, rol, ror, rti,
  rts, sbc, sec, sed, sei, sta, stx, sty, tax, tay, tsx, txa, txs, tya]

/-- The name as it stands in the opcode table. -/
def name : Mnemonic → String
  | .adc => "ADC" | .and => "AND" | .asl => "ASL" | .bcc => "BCC"
  | .bcs => "BCS" | .beq => "BEQ" | .bit => "BIT" | .bmi => "BMI"
  | .bne => "BNE" | .bpl => "BPL" | .brk => "BRK" | .bvc => "BVC"
  | .bvs => "BVS" | .clc => "CLC" | .cld => "CLD" | .cli => "CLI"
  | .clv => "CLV" | .cmp => "CMP" | .cpx => "CPX" | .cpy => "CPY"
  | .dec => "DEC" | .dex => "DEX" | .dey => "DEY" | .eor => "EOR"
  | .inc => "INC" | .inx => "INX" | .iny => "INY" | .jmp => "JMP"
  | .jsr => "JSR" | .lda => "LDA" | .ldx => "LDX" | .ldy => "LDY"
  | .lsr => "LSR" | .nop => "NOP" | .ora => "ORA" | .pha => "PHA"
  | .php => "PHP" | .pla => "PLA" | .plp => "PLP" | .rol => "ROL"
  | .ror => "ROR" | .rti => "RTI" | .rts => "RTS" | .sbc => "SBC"
  | .sec => "SEC" | .sed => "SED" | .sei => "SEI" | .sta => "STA"
  | .stx => "STX" | .sty => "STY" | .tax => "TAX" | .tay => "TAY"
  | .tsx => "TSX" | .txa => "TXA" | .txs => "TXS" | .tya => "TYA"

/-- A shift works on the accumulator when its mode names no cell. -/
def shift (operation : Shift) (mode : Mode) : Instruction :=
  if mode = .implied then .implied (.shift operation) else .addressed (.shift operation)

/-- The instruction that a name stands for.  The mode tells the forms of a shift
apart, and the code byte those of a jump. -/
def instruction (code : UInt8) (mode : Mode) : Mnemonic → Instruction
  | .adc => .addressed .add
  | .and => .addressed (.logic .and)
  | .asl => shift .left mode
  | .bcc => .control (.branch .carry false)
  | .bcs => .control (.branch .carry true)
  | .beq => .control (.branch .zero true)
  | .bit => .addressed .bitTest
  | .bmi => .control (.branch .negative true)
  | .bne => .control (.branch .zero false)
  | .bpl => .control (.branch .negative false)
  | .brk => .implied .halt
  | .bvc => .control (.branch .overflow false)
  | .bvs => .control (.branch .overflow true)
  | .clc => .implied (.clearFlag .carry)
  | .cld => .implied (.clearFlag .decimal)
  | .cli => .implied (.clearFlag .interruptDisable)
  | .clv => .implied (.clearFlag .overflow)
  | .cmp => .addressed (.compare .a)
  | .cpx => .addressed (.compare .x)
  | .cpy => .addressed (.compare .y)
  | .dec => .addressed .decrement
  | .dex => .implied (.decrement .x)
  | .dey => .implied (.decrement .y)
  | .eor => .addressed (.logic .exclusiveOr)
  | .inc => .addressed .increment
  | .inx => .implied (.increment .x)
  | .iny => .implied (.increment .y)
  | .jmp => .control (if code = 0x6C then .jumpIndirect else .jump)
  | .jsr => .control .call
  | .lda => .addressed (.load .a)
  | .ldx => .addressed (.load .x)
  | .ldy => .addressed (.load .y)
  | .lsr => shift .right mode
  | .nop => .implied .idle
  | .ora => .addressed (.logic .or)
  | .pha => .implied .push
  | .php => .implied .pushStatus
  | .pla => .implied .pull
  | .plp => .implied .pullStatus
  | .rol => shift .rotateLeft mode
  | .ror => shift .rotateRight mode
  | .rti => .control .returnFromInterrupt
  | .rts => .control .returnFromCall
  | .sbc => .addressed .subtract
  | .sec => .implied (.setFlag .carry)
  | .sed => .implied (.setFlag .decimal)
  | .sei => .implied (.setFlag .interruptDisable)
  | .sta => .addressed (.store .a)
  | .stx => .addressed (.store .x)
  | .sty => .addressed (.store .y)
  | .tax => .implied (.transfer .a .x)
  | .tay => .implied (.transfer .a .y)
  | .tsx => .implied (.transfer .s .x)
  | .txa => .implied (.transfer .x .a)
  | .txs => .implied (.transfer .x .s)
  | .tya => .implied (.transfer .y .a)

end Mnemonic

namespace Control

/-- The control transfer that an opcode byte stands for. -/
def ofCode? : UInt8 → Option Control
  | 0x10 => some (.branch .negative false) -- BPL
  | 0x30 => some (.branch .negative true) -- BMI
  | 0x50 => some (.branch .overflow false) -- BVC
  | 0x70 => some (.branch .overflow true) -- BVS
  | 0x90 => some (.branch .carry false) -- BCC
  | 0xB0 => some (.branch .carry true) -- BCS
  | 0xD0 => some (.branch .zero false) -- BNE
  | 0xF0 => some (.branch .zero true) -- BEQ
  | 0x4C => some .jump -- JMP to the operand word
  | 0x6C => some .jumpIndirect -- JMP to the word at the operand word
  | 0x20 => some .call -- JSR
  | 0x60 => some .returnFromCall -- RTS
  | 0x40 => some .returnFromInterrupt -- RTI
  | _ => none

/-- The length of a control transfer with its operand bytes. -/
def length : Control → UInt8
  | .branch _ _ => 2
  | .jump => 3
  | .jumpIndirect => 3
  | .call => 3
  | .returnFromCall => 1
  | .returnFromInterrupt => 1

end Control

namespace Instruction

/-- Whether an instruction works on the cell that its mode names. -/
def usesMode : Instruction → Bool
  | .addressed _ => true
  | _ => false

def control? : Instruction → Option Control
  | .control operation => some operation
  | _ => none

theorem eq_control_of_control? {instruction : Instruction} {operation : Control}
    (hcontrol : instruction.control? = some operation) : instruction = .control operation := by
  cases instruction with
  | control other => exact congrArg Instruction.control (Option.some.inj hcontrol)
  | _ => simp [control?] at hcontrol

end Instruction

namespace Opcode

/-- The opcode has the instruction that its name stands for. -/
def Named (opcode : Opcode) : Prop :=
  ∃ mnemonic : Mnemonic, opcode.mnemonic = mnemonic.name ∧
    opcode.instruction = mnemonic.instruction opcode.code opcode.mode

/-- What holds of an opcode of the table. -/
structure Consistent (opcode : Opcode) : Prop where
  named : opcode.Named
  mode_ne_implied : opcode.instruction.usesMode = true → opcode.mode ≠ .implied
  halts_iff_code : opcode.instruction = .implied .halt ↔ opcode.code = 0x00
  length_of_halt : opcode.instruction = .implied .halt → opcode.length = 1
  control?_eq : opcode.instruction.control? = Control.ofCode? opcode.code
  length_of_control : ∀ operation ∈ opcode.instruction.control?,
    opcode.length = operation.length

theorem consistent_of_mem_table {opcode : Opcode} (hmem : opcode ∈ table) :
    opcode.Consistent := by
  -- The names are listed so that all of this is decidable.
  have hall : ∀ entry ∈ table,
      (∃ mnemonic ∈ Mnemonic.all, entry.mnemonic = mnemonic.name ∧
        entry.instruction = mnemonic.instruction entry.code entry.mode) ∧
      (entry.instruction.usesMode = true → entry.mode ≠ .implied) ∧
      (entry.instruction = .implied .halt ↔ entry.code = 0x00) ∧
      (entry.instruction = .implied .halt → entry.length = 1) ∧
      entry.instruction.control? = Control.ofCode? entry.code ∧
      ∀ operation ∈ entry.instruction.control?, entry.length = operation.length := by
    decide +kernel
  obtain ⟨⟨mnemonic, -, hnamed⟩, hmode, hcode, hhalt, hcontrol, hlength⟩ := hall opcode hmem
  exact ⟨⟨mnemonic, hnamed⟩, hmode, hcode, hhalt, hcontrol, hlength⟩

/-- What a byte decodes to is in the table under that byte. -/
theorem consistent_of_decode {code : UInt8} {opcode : Opcode}
    (hdecode : decode code = some opcode) : opcode.Consistent ∧ opcode.code = code := by
  obtain ⟨hmem, hcode⟩ := mem_table_of_decode hdecode
  exact ⟨consistent_of_mem_table hmem, hcode⟩

end Opcode

end Machine6502
