import Machine6502.Instruction

/-!
# Opcodes

The table of the documented opcodes, and the look-up of a code byte in it.  A byte
that is not in the table begins no instruction.
-/

namespace Machine6502

/-- One opcode: its code byte, its mnemonic, its length with operands, the clock
cycles it takes at least, how its operand is named, and what it does. -/
structure Opcode where
  code : UInt8
  mnemonic : String
  length : UInt8
  cycles : UInt8
  mode : Mode
  instruction : Instruction
deriving DecidableEq, Repr

namespace Opcode

def describe (opcode : Opcode) : String :=
  "\x7b 0x" ++ hexByte opcode.code ++ " " ++ opcode.mnemonic ++
    " len:" ++ toString opcode.length.toNat ++ " cycles:" ++ toString opcode.cycles.toNat ++
    " mode:" ++ opcode.mode.name ++ " \x7d"

def table : List Opcode := [
  ⟨0x00, "BRK", 1, 7, .implied, .implied .halt⟩,
  ⟨0xEA, "NOP", 1, 2, .implied, .implied .idle⟩,
  ⟨0x69, "ADC", 2, 2, .immediate, .addressed .add⟩,
  ⟨0x65, "ADC", 2, 3, .zeroPage, .addressed .add⟩,
  ⟨0x75, "ADC", 2, 4, .zeroPageX, .addressed .add⟩,
  ⟨0x6D, "ADC", 3, 4, .absolute, .addressed .add⟩,
  ⟨0x7D, "ADC", 3, 4, .absoluteX, .addressed .add⟩,
  ⟨0x79, "ADC", 3, 4, .absoluteY, .addressed .add⟩,
  ⟨0x61, "ADC", 2, 6, .indirectX, .addressed .add⟩,
  ⟨0x71, "ADC", 2, 5, .indirectY, .addressed .add⟩,
  ⟨0xE9, "SBC", 2, 2, .immediate, .addressed .subtract⟩,
  ⟨0xE5, "SBC", 2, 3, .zeroPage, .addressed .subtract⟩,
  ⟨0xF5, "SBC", 2, 4, .zeroPageX, .addressed .subtract⟩,
  ⟨0xED, "SBC", 3, 4, .absolute, .addressed .subtract⟩,
  ⟨0xFD, "SBC", 3, 4, .absoluteX, .addressed .subtract⟩,
  ⟨0xF9, "SBC", 3, 4, .absoluteY, .addressed .subtract⟩,
  ⟨0xE1, "SBC", 2, 6, .indirectX, .addressed .subtract⟩,
  ⟨0xF1, "SBC", 2, 5, .indirectY, .addressed .subtract⟩,
  ⟨0x29, "AND", 2, 2, .immediate, .addressed (.logic .and)⟩,
  ⟨0x25, "AND", 2, 3, .zeroPage, .addressed (.logic .and)⟩,
  ⟨0x35, "AND", 2, 4, .zeroPageX, .addressed (.logic .and)⟩,
  ⟨0x2D, "AND", 3, 4, .absolute, .addressed (.logic .and)⟩,
  ⟨0x3D, "AND", 3, 4, .absoluteX, .addressed (.logic .and)⟩,
  ⟨0x39, "AND", 3, 4, .absoluteY, .addressed (.logic .and)⟩,
  ⟨0x21, "AND", 2, 6, .indirectX, .addressed (.logic .and)⟩,
  ⟨0x31, "AND", 2, 5, .indirectY, .addressed (.logic .and)⟩,
  ⟨0x49, "EOR", 2, 2, .immediate, .addressed (.logic .exclusiveOr)⟩,
  ⟨0x45, "EOR", 2, 3, .zeroPage, .addressed (.logic .exclusiveOr)⟩,
  ⟨0x55, "EOR", 2, 4, .zeroPageX, .addressed (.logic .exclusiveOr)⟩,
  ⟨0x4D, "EOR", 3, 4, .absolute, .addressed (.logic .exclusiveOr)⟩,
  ⟨0x5D, "EOR", 3, 4, .absoluteX, .addressed (.logic .exclusiveOr)⟩,
  ⟨0x59, "EOR", 3, 4, .absoluteY, .addressed (.logic .exclusiveOr)⟩,
  ⟨0x41, "EOR", 2, 6, .indirectX, .addressed (.logic .exclusiveOr)⟩,
  ⟨0x51, "EOR", 2, 5, .indirectY, .addressed (.logic .exclusiveOr)⟩,
  ⟨0x09, "ORA", 2, 2, .immediate, .addressed (.logic .or)⟩,
  ⟨0x05, "ORA", 2, 3, .zeroPage, .addressed (.logic .or)⟩,
  ⟨0x15, "ORA", 2, 4, .zeroPageX, .addressed (.logic .or)⟩,
  ⟨0x0D, "ORA", 3, 4, .absolute, .addressed (.logic .or)⟩,
  ⟨0x1D, "ORA", 3, 4, .absoluteX, .addressed (.logic .or)⟩,
  ⟨0x19, "ORA", 3, 4, .absoluteY, .addressed (.logic .or)⟩,
  ⟨0x01, "ORA", 2, 6, .indirectX, .addressed (.logic .or)⟩,
  ⟨0x11, "ORA", 2, 5, .indirectY, .addressed (.logic .or)⟩,
  ⟨0x0A, "ASL", 1, 2, .implied, .implied (.shift .left)⟩,
  ⟨0x06, "ASL", 2, 5, .zeroPage, .addressed (.shift .left)⟩,
  ⟨0x16, "ASL", 2, 6, .zeroPageX, .addressed (.shift .left)⟩,
  ⟨0x0E, "ASL", 3, 6, .absolute, .addressed (.shift .left)⟩,
  ⟨0x1E, "ASL", 3, 7, .absoluteX, .addressed (.shift .left)⟩,
  ⟨0x4A, "LSR", 1, 2, .implied, .implied (.shift .right)⟩,
  ⟨0x46, "LSR", 2, 5, .zeroPage, .addressed (.shift .right)⟩,
  ⟨0x56, "LSR", 2, 6, .zeroPageX, .addressed (.shift .right)⟩,
  ⟨0x4E, "LSR", 3, 6, .absolute, .addressed (.shift .right)⟩,
  ⟨0x5E, "LSR", 3, 7, .absoluteX, .addressed (.shift .right)⟩,
  ⟨0x2A, "ROL", 1, 2, .implied, .implied (.shift .rotateLeft)⟩,
  ⟨0x26, "ROL", 2, 5, .zeroPage, .addressed (.shift .rotateLeft)⟩,
  ⟨0x36, "ROL", 2, 6, .zeroPageX, .addressed (.shift .rotateLeft)⟩,
  ⟨0x2E, "ROL", 3, 6, .absolute, .addressed (.shift .rotateLeft)⟩,
  ⟨0x3E, "ROL", 3, 7, .absoluteX, .addressed (.shift .rotateLeft)⟩,
  ⟨0x6A, "ROR", 1, 2, .implied, .implied (.shift .rotateRight)⟩,
  ⟨0x66, "ROR", 2, 5, .zeroPage, .addressed (.shift .rotateRight)⟩,
  ⟨0x76, "ROR", 2, 6, .zeroPageX, .addressed (.shift .rotateRight)⟩,
  ⟨0x6E, "ROR", 3, 6, .absolute, .addressed (.shift .rotateRight)⟩,
  ⟨0x7E, "ROR", 3, 7, .absoluteX, .addressed (.shift .rotateRight)⟩,
  ⟨0xE6, "INC", 2, 5, .zeroPage, .addressed .increment⟩,
  ⟨0xF6, "INC", 2, 6, .zeroPageX, .addressed .increment⟩,
  ⟨0xEE, "INC", 3, 6, .absolute, .addressed .increment⟩,
  ⟨0xFE, "INC", 3, 7, .absoluteX, .addressed .increment⟩,
  ⟨0xE8, "INX", 1, 2, .implied, .implied (.increment .x)⟩,
  ⟨0xC8, "INY", 1, 2, .implied, .implied (.increment .y)⟩,
  ⟨0xC6, "DEC", 2, 5, .zeroPage, .addressed .decrement⟩,
  ⟨0xD6, "DEC", 2, 6, .zeroPageX, .addressed .decrement⟩,
  ⟨0xCE, "DEC", 3, 6, .absolute, .addressed .decrement⟩,
  ⟨0xDE, "DEC", 3, 7, .absoluteX, .addressed .decrement⟩,
  ⟨0xCA, "DEX", 1, 2, .implied, .implied (.decrement .x)⟩,
  ⟨0x88, "DEY", 1, 2, .implied, .implied (.decrement .y)⟩,
  ⟨0xC9, "CMP", 2, 2, .immediate, .addressed (.compare .a)⟩,
  ⟨0xC5, "CMP", 2, 3, .zeroPage, .addressed (.compare .a)⟩,
  ⟨0xD5, "CMP", 2, 4, .zeroPageX, .addressed (.compare .a)⟩,
  ⟨0xCD, "CMP", 3, 4, .absolute, .addressed (.compare .a)⟩,
  ⟨0xDD, "CMP", 3, 4, .absoluteX, .addressed (.compare .a)⟩,
  ⟨0xD9, "CMP", 3, 4, .absoluteY, .addressed (.compare .a)⟩,
  ⟨0xC1, "CMP", 2, 6, .indirectX, .addressed (.compare .a)⟩,
  ⟨0xD1, "CMP", 2, 5, .indirectY, .addressed (.compare .a)⟩,
  ⟨0xC0, "CPY", 2, 2, .immediate, .addressed (.compare .y)⟩,
  ⟨0xC4, "CPY", 2, 3, .zeroPage, .addressed (.compare .y)⟩,
  ⟨0xCC, "CPY", 3, 4, .absolute, .addressed (.compare .y)⟩,
  ⟨0xE0, "CPX", 2, 2, .immediate, .addressed (.compare .x)⟩,
  ⟨0xE4, "CPX", 2, 3, .zeroPage, .addressed (.compare .x)⟩,
  ⟨0xEC, "CPX", 3, 4, .absolute, .addressed (.compare .x)⟩,
  ⟨0x4C, "JMP", 3, 3, .implied, .control .jump⟩,
  ⟨0x6C, "JMP", 3, 5, .implied, .control .jumpIndirect⟩,
  ⟨0x20, "JSR", 3, 6, .implied, .control .call⟩,
  ⟨0x60, "RTS", 1, 6, .implied, .control .returnFromCall⟩,
  ⟨0x40, "RTI", 1, 6, .implied, .control .returnFromInterrupt⟩,
  ⟨0xD0, "BNE", 2, 2, .implied, .control (.branch .zero false)⟩,
  ⟨0x70, "BVS", 2, 2, .implied, .control (.branch .overflow true)⟩,
  ⟨0x50, "BVC", 2, 2, .implied, .control (.branch .overflow false)⟩,
  ⟨0x30, "BMI", 2, 2, .implied, .control (.branch .negative true)⟩,
  ⟨0xF0, "BEQ", 2, 2, .implied, .control (.branch .zero true)⟩,
  ⟨0xB0, "BCS", 2, 2, .implied, .control (.branch .carry true)⟩,
  ⟨0x90, "BCC", 2, 2, .implied, .control (.branch .carry false)⟩,
  ⟨0x10, "BPL", 2, 2, .implied, .control (.branch .negative false)⟩,
  ⟨0x24, "BIT", 2, 3, .zeroPage, .addressed .bitTest⟩,
  ⟨0x2C, "BIT", 3, 4, .absolute, .addressed .bitTest⟩,
  ⟨0xA9, "LDA", 2, 2, .immediate, .addressed (.load .a)⟩,
  ⟨0xA5, "LDA", 2, 3, .zeroPage, .addressed (.load .a)⟩,
  ⟨0xB5, "LDA", 2, 4, .zeroPageX, .addressed (.load .a)⟩,
  ⟨0xAD, "LDA", 3, 4, .absolute, .addressed (.load .a)⟩,
  ⟨0xBD, "LDA", 3, 4, .absoluteX, .addressed (.load .a)⟩,
  ⟨0xB9, "LDA", 3, 4, .absoluteY, .addressed (.load .a)⟩,
  ⟨0xA1, "LDA", 2, 6, .indirectX, .addressed (.load .a)⟩,
  ⟨0xB1, "LDA", 2, 5, .indirectY, .addressed (.load .a)⟩,
  ⟨0xA2, "LDX", 2, 2, .immediate, .addressed (.load .x)⟩,
  ⟨0xA6, "LDX", 2, 3, .zeroPage, .addressed (.load .x)⟩,
  ⟨0xB6, "LDX", 2, 4, .zeroPageY, .addressed (.load .x)⟩,
  ⟨0xAE, "LDX", 3, 4, .absolute, .addressed (.load .x)⟩,
  ⟨0xBE, "LDX", 3, 4, .absoluteY, .addressed (.load .x)⟩,
  ⟨0xA0, "LDY", 2, 2, .immediate, .addressed (.load .y)⟩,
  ⟨0xA4, "LDY", 2, 3, .zeroPage, .addressed (.load .y)⟩,
  ⟨0xB4, "LDY", 2, 4, .zeroPageX, .addressed (.load .y)⟩,
  ⟨0xAC, "LDY", 3, 4, .absolute, .addressed (.load .y)⟩,
  ⟨0xBC, "LDY", 3, 4, .absoluteX, .addressed (.load .y)⟩,
  ⟨0x85, "STA", 2, 3, .zeroPage, .addressed (.store .a)⟩,
  ⟨0x95, "STA", 2, 4, .zeroPageX, .addressed (.store .a)⟩,
  ⟨0x8D, "STA", 3, 4, .absolute, .addressed (.store .a)⟩,
  ⟨0x9D, "STA", 3, 5, .absoluteX, .addressed (.store .a)⟩,
  ⟨0x99, "STA", 3, 5, .absoluteY, .addressed (.store .a)⟩,
  ⟨0x81, "STA", 2, 6, .indirectX, .addressed (.store .a)⟩,
  ⟨0x91, "STA", 2, 6, .indirectY, .addressed (.store .a)⟩,
  ⟨0x86, "STX", 2, 3, .zeroPage, .addressed (.store .x)⟩,
  ⟨0x96, "STX", 2, 4, .zeroPageY, .addressed (.store .x)⟩,
  ⟨0x8E, "STX", 3, 4, .absolute, .addressed (.store .x)⟩,
  ⟨0x84, "STY", 2, 3, .zeroPage, .addressed (.store .y)⟩,
  ⟨0x94, "STY", 2, 4, .zeroPageX, .addressed (.store .y)⟩,
  ⟨0x8C, "STY", 3, 4, .absolute, .addressed (.store .y)⟩,
  ⟨0xD8, "CLD", 1, 2, .implied, .implied (.clearFlag .decimal)⟩,
  ⟨0x58, "CLI", 1, 2, .implied, .implied (.clearFlag .interruptDisable)⟩,
  ⟨0xB8, "CLV", 1, 2, .implied, .implied (.clearFlag .overflow)⟩,
  ⟨0x18, "CLC", 1, 2, .implied, .implied (.clearFlag .carry)⟩,
  ⟨0x38, "SEC", 1, 2, .implied, .implied (.setFlag .carry)⟩,
  ⟨0x78, "SEI", 1, 2, .implied, .implied (.setFlag .interruptDisable)⟩,
  ⟨0xF8, "SED", 1, 2, .implied, .implied (.setFlag .decimal)⟩,
  ⟨0xAA, "TAX", 1, 2, .implied, .implied (.transfer .a .x)⟩,
  ⟨0xA8, "TAY", 1, 2, .implied, .implied (.transfer .a .y)⟩,
  ⟨0xBA, "TSX", 1, 2, .implied, .implied (.transfer .s .x)⟩,
  ⟨0x8A, "TXA", 1, 2, .implied, .implied (.transfer .x .a)⟩,
  ⟨0x9A, "TXS", 1, 2, .implied, .implied (.transfer .x .s)⟩,
  ⟨0x98, "TYA", 1, 2, .implied, .implied (.transfer .y .a)⟩,
  ⟨0x48, "PHA", 1, 3, .implied, .implied .push⟩,
  ⟨0x68, "PLA", 1, 4, .implied, .implied .pull⟩,
  ⟨0x08, "PHP", 1, 3, .implied, .implied .pushStatus⟩,
  ⟨0x28, "PLP", 1, 4, .implied, .implied .pullStatus⟩]

def decode (code : UInt8) : Option Opcode :=
  table.find? fun opcode => opcode.code == code

/-- A code byte decodes to an opcode only if the opcode is in the table under it. -/
theorem mem_table_of_decode {code : UInt8} {opcode : Opcode}
    (hdecode : decode code = some opcode) : opcode ∈ table ∧ opcode.code = code := by
  refine ⟨List.mem_of_find?_eq_some hdecode, ?_⟩
  have hcode := List.find?_some hdecode
  simpa using hcode

/-- No two opcodes have one code byte, so each is what its code byte decodes to. -/
theorem decode_code {opcode : Opcode} (hmem : opcode ∈ table) :
    decode opcode.code = some opcode := by
  have hall : ∀ entry ∈ table, decode entry.code = some entry := by decide +kernel
  exact hall opcode hmem

end Opcode

end Machine6502
