import Machine6502.Monitor
import Machine6502.Proofs.FullMemory

/-!
# Where an operand is

The address that a mode names, as a number: what is added to what, and where each sum wraps.
Zero-page sums wrap at 256, all others at 65536, and a pointer stays in page zero.  No cell
matters but the operand bytes and the pointer.
-/

namespace Machine6502

namespace Mode

/-- The number of the address that a mode names, from the bytes at the program counter and the
index registers. -/
def named (mode : Mode) (cpu : Cpu) : Except Fault Nat :=
  let cell (number : Nat) : Nat := (cpu.read (UInt16.ofNat number)).toNat
  let low := cell cpu.pc.toNat
  let word := low + 256 * cell ((cpu.pc.toNat + 1) % 65536)
  let pointed (pointer : Nat) : Nat := cell pointer + 256 * cell ((pointer + 1) % 256)
  match mode with
  | .immediate => .ok cpu.pc.toNat
  | .zeroPage => .ok low
  | .zeroPageX => .ok ((low + cpu.x.toNat) % 256)
  | .zeroPageY => .ok ((low + cpu.y.toNat) % 256)
  | .absolute => .ok word
  | .absoluteX => .ok ((word + cpu.x.toNat) % 65536)
  | .absoluteY => .ok ((word + cpu.y.toNat) % 65536)
  | .indirectX => .ok (pointed ((low + cpu.x.toNat) % 256))
  | .indirectY => .ok ((pointed low + cpu.y.toNat) % 65536)
  | .implied => .error (.unsupportedMode .implied)

/-- The two cells of the pointer that an indirect mode finds at the program counter. -/
def pointer (mode : Mode) (cpu : Cpu) : List UInt16 :=
  let cells (byte : UInt8) : List UInt16 := [byte.toUInt16, (byte + 1).toUInt16]
  match mode with
  | .indirectX => cells (cpu.read cpu.pc + cpu.x)
  | .indirectY => cells (cpu.read cpu.pc)
  | _ => []

/-- The cells that decide which address a mode names.  The byte that the indexed indirect mode
fetches along with its operand does not. -/
def consulted (mode : Mode) (cpu : Cpu) : List UInt16 :=
  match mode with
  | .indirectX => cpu.pc :: mode.pointer cpu
  | _ => mode.needed cpu

/-- What holds of the address that a mode names. -/
structure AddressLaw (mode : Mode) (cpu : Cpu) : Prop where
  named : (cpu.operandAddress mode).map UInt16.toNat = mode.named cpu
  zeroPage : mode ∈ [.zeroPage, .zeroPageX, .zeroPageY] →
    ∃ address, cpu.operandAddress mode = .ok address ∧ address < 0x0100
  pointer : ∀ address ∈ mode.pointer cpu, address < 0x0100
  needed : ∀ address ∈ mode.needed cpu,
    address = cpu.pc ∨ address = cpu.pc + 1 ∨ address ∈ mode.pointer cpu
  consulted : ∀ other : Cpu, other.pc = cpu.pc → other.x = cpu.x → other.y = cpu.y →
    (∀ address ∈ mode.consulted cpu, other.read address = cpu.read address) →
    other.operandAddress mode = cpu.operandAddress mode
  secondByte : mode = .indirectX → cpu.pc + 1 ∉ mode.pointer cpu → ∀ value,
    (cpu.write (cpu.pc + 1) value).operandAddress mode = cpu.operandAddress mode

end Mode

section Numbers

theorem toNat_add_toUInt16 (word : UInt16) (byte : UInt8) :
    (word + byte.toUInt16).toNat = (word.toNat + byte.toNat) % 65536 := by
  rw [UInt16.toNat_add, UInt8.toNat_toUInt16]

theorem ofNat_word_succ (word : UInt16) : UInt16.ofNat ((word.toNat + 1) % 65536) = word + 1 := by
  have hsucc : (word + 1).toNat = (word.toNat + 1) % 65536 := UInt16.toNat_add word 1
  rw [← hsucc, UInt16.ofNat_toNat]

theorem ofNat_byte_succ (byte : UInt8) :
    UInt16.ofNat ((byte.toNat + 1) % 256) = (byte + 1).toUInt16 := by
  have hsucc : (byte + 1).toNat = (byte.toNat + 1) % 256 := UInt8.toNat_add byte 1
  rw [← hsucc, UInt16.ofNat_uInt8ToNat]

theorem toUInt16_lt_page (byte : UInt8) : byte.toUInt16 < 0x0100 := by
  rw [UInt16.lt_iff_toNat_lt, UInt8.toNat_toUInt16]
  exact byte.toNat_lt

theorem toNat_readWord (memory : Memory) (address : UInt16) :
    (memory.readWord address).toNat =
      (memory.read (UInt16.ofNat address.toNat)).toNat +
        256 * (memory.read (UInt16.ofNat ((address.toNat + 1) % 65536))).toNat := by
  rw [Memory.readWord, toNat_wordOf, UInt16.ofNat_toNat, ofNat_word_succ]

theorem Cpu.toNat_zeroPageWord (memory : Memory) (pointer : UInt8) :
    (zeroPageWord memory pointer).toNat =
      (memory.read (UInt16.ofNat pointer.toNat)).toNat +
        256 * (memory.read (UInt16.ofNat ((pointer.toNat + 1) % 256))).toNat := by
  rw [zeroPageWord, toNat_wordOf, UInt16.ofNat_uInt8ToNat, ofNat_byte_succ]

end Numbers

namespace Cpu

variable {cpu other : Cpu} {mode : Mode}

/-- The address in words is the one that is named in numbers. -/
theorem operandAddress_named (cpu : Cpu) (mode : Mode) :
    (cpu.operandAddress mode).map UInt16.toNat = mode.named cpu := by
  cases mode with
  | immediate => rfl
  | implied => rfl
  | zeroPage | zeroPageX | zeroPageY =>
      simp only [operandAddress, Mode.named, Except.map, UInt16.ofNat_toNat, UInt8.toNat_toUInt16,
        UInt8.toNat_add]
  | absolute | absoluteX | absoluteY =>
      simp only [operandAddress, Mode.named, Except.map, toNat_add_toUInt16, toNat_readWord, read]
  | indirectX | indirectY =>
      simp only [operandAddress, Mode.named, Except.map, toNat_add_toUInt16, toNat_zeroPageWord,
        UInt16.ofNat_toNat, UInt8.toNat_add, read]

theorem exists_operandAddress (hmode : mode ≠ .implied) (cpu : Cpu) :
    ∃ address, cpu.operandAddress mode = .ok address := by
  cases mode with
  | implied => exact absurd rfl hmode
  | _ => exact ⟨_, rfl⟩

/-- An instruction that is called with a mode works on the cell that the mode names. -/
theorem execute_of_operandAddress {address : UInt16}
    (haddress : cpu.operandAddress mode = .ok address) (operation : Addressed) :
    (Instruction.addressed operation).execute mode cpu = (none, operation.apply address cpu) := by
  simp only [Instruction.execute, haddress]

theorem execute?_of_covers {address : UInt16} (haddress : cpu.operandAddress mode = .ok address)
    (hcovers : cpu.memory.covers (mode.needed cpu ++ [address]) = true) (operation : Addressed) :
    cpu.execute? (.addressed operation) mode = some (none, operation.apply address cpu) := by
  have hneeded : (Instruction.addressed operation).needed mode cpu =
      mode.needed cpu ++ [address] := by
    simp only [Instruction.needed, haddress]
  rw [execute?, hneeded, Memory.within, if_pos hcovers, execute_of_operandAddress haddress]

theorem execute?_of_operandAddress (hfull : cpu.memory.size = Memory.addressCount)
    {address : UInt16} (haddress : cpu.operandAddress mode = .ok address)
    (operation : Addressed) :
    cpu.execute? (.addressed operation) mode = some (none, operation.apply address cpu) :=
  execute?_of_covers haddress (Memory.covers_of_full _ _ (Nat.le_of_eq hfull.symm)) operation

/-- A zero-page mode adds inside the page. -/
theorem operandAddress_zeroPage (hmode : mode ∈ [.zeroPage, .zeroPageX, .zeroPageY]) :
    ∃ address, cpu.operandAddress mode = .ok address ∧ address < 0x0100 := by
  simp only [List.mem_cons, List.not_mem_nil, or_false] at hmode
  rcases hmode with rfl | rfl | rfl
  · exact ⟨_, rfl, toUInt16_lt_page _⟩
  · exact ⟨_, rfl, toUInt16_lt_page _⟩
  · exact ⟨_, rfl, toUInt16_lt_page _⟩

theorem lt_of_mem_pointer {address : UInt16} (haddress : address ∈ mode.pointer cpu) :
    address < 0x0100 := by
  cases mode with
  | indirectX | indirectY =>
      simp only [Mode.pointer, List.mem_cons, List.not_mem_nil, or_false] at haddress
      rcases haddress with rfl | rfl <;> exact toUInt16_lt_page _
  | _ => simp [Mode.pointer] at haddress

/-- What is fetched beside the operand bytes is the pointer. -/
theorem mem_of_needed {address : UInt16} (haddress : address ∈ mode.needed cpu) :
    address = cpu.pc ∨ address = cpu.pc + 1 ∨ address ∈ mode.pointer cpu := by
  cases mode with
  | immediate | implied => simp [Mode.needed] at haddress
  | zeroPage | zeroPageX | zeroPageY => exact .inl (List.mem_singleton.mp haddress)
  | absolute | absoluteX | absoluteY =>
      simp only [Mode.needed, List.mem_cons, List.not_mem_nil, or_false] at haddress
      exact haddress.imp_right .inl
  -- The indexed mode fetches the byte behind its operand along with it.
  | indirectX =>
      rcases List.mem_cons.mp haddress with hfirst | hrest
      · exact .inl hfirst
      · exact .inr (List.mem_cons.mp hrest)
  | indirectY => exact (List.mem_cons.mp haddress).imp_right .inr

/-- An address depends on the registers that are added, the operand bytes and the pointer. -/
theorem operandAddress_congr (hpc : other.pc = cpu.pc) (hx : other.x = cpu.x)
    (hy : other.y = cpu.y)
    (hread : ∀ address ∈ mode.consulted cpu, other.read address = cpu.read address) :
    other.operandAddress mode = cpu.operandAddress mode := by
  cases mode
  all_goals
    simp only [Mode.consulted, Mode.needed, Mode.pointer, List.forall_mem_cons, List.not_mem_nil,
      false_imp_iff, implies_true, and_true, read] at hread
    simp only [operandAddress, Memory.readWord, zeroPageWord, read, hpc, hx, hy, hread]

/-- The cells that decide on an address decide on themselves and on what is fetched with them. -/
theorem consulted_congr (hpc : other.pc = cpu.pc) (hx : other.x = cpu.x)
    (hread : ∀ address ∈ mode.consulted cpu, other.read address = cpu.read address) :
    mode.consulted other = mode.consulted cpu ∧ mode.needed other = mode.needed cpu := by
  cases mode with
  | indirectX | indirectY =>
      have hoperand : other.read cpu.pc = cpu.read cpu.pc := hread cpu.pc List.mem_cons_self
      simp only [Mode.consulted, Mode.pointer, Mode.needed, hpc, hx, hoperand, and_self]
  | _ => simp only [Mode.consulted, Mode.needed, hpc, and_self]

/-- The indexed indirect mode names the same address whatever the byte behind its operand. -/
theorem operandAddress_write_second (hfull : cpu.memory.size = Memory.addressCount)
    (hpointer : cpu.pc + 1 ∉ Mode.indirectX.pointer cpu) (value : UInt8) :
    (cpu.write (cpu.pc + 1) value).operandAddress .indirectX = cpu.operandAddress .indirectX := by
  refine operandAddress_congr rfl rfl rfl fun address haddress => ?_
  have hother : address ≠ cpu.pc + 1 := by
    rintro rfl
    rcases List.mem_cons.mp haddress with hfirst | hrest
    · simp at hfirst
    · exact hpointer hrest
  rw [read, write, Memory.read_write_eq_update hfull, Function.update_of_ne hother, read]

theorem addressLaw (hfull : cpu.memory.size = Memory.addressCount) (mode : Mode) :
    mode.AddressLaw cpu where
  named := operandAddress_named cpu mode
  zeroPage := operandAddress_zeroPage
  pointer _ := lt_of_mem_pointer
  needed _ := mem_of_needed
  consulted _ := operandAddress_congr
  secondByte hmode hpointer value := by
    subst hmode
    exact operandAddress_write_second hfull hpointer value

end Cpu

namespace Monitor

/-- Asked for the address of an operand, a machine with a cell for every address answers and is
left as it was.  The answer is the address that the mode names, or the fault of the mode that
names none. -/
theorem answers_operandAddress (monitor : Monitor)
    (hfull : monitor.cpu.memory.size = Memory.addressCount) (mode : Mode) :
    monitor.perform (.operandAddress mode) =
        some (.address (monitor.cpu.operandAddress mode), monitor) ∧
      mode.AddressLaw monitor.cpu := by
  refine ⟨?_, Cpu.addressLaw hfull mode⟩
  rw [perform, Memory.within_of_full (Nat.le_of_eq hfull.symm)]

/-- A pointer in the last cell of page zero goes on in the first. -/
theorem answers_operandAddress_of_last_pointer :
    (Cpu.holding [0xFF]).memory.size = Memory.addressCount ∧
      perform ⟨Cpu.holding [0xFF], .initial, .blank⟩ (.operandAddress .indirectY) =
        some (.address (.ok 0xFF00), ⟨Cpu.holding [0xFF], .initial, .blank⟩) ∧
      Mode.indirectY.named (Cpu.holding [0xFF]) = .ok 0xFF00 := by
  have hfull := Cpu.size_holding [0xFF] (by decide)
  have hread := Cpu.read_holding [0xFF] (by decide)
  have hy : (Cpu.holding [0xFF]).y = 0 := by
    rw [Cpu.holding]
    rfl
  have haddress : (Cpu.holding [0xFF]).operandAddress .indirectY = .ok 0xFF00 := by
    rw [Cpu.operandAddress, Cpu.read, Cpu.zeroPageWord, hread, Cpu.pc_holding, hy]
    rfl
  obtain ⟨hreply, hlaw⟩ :=
    answers_operandAddress ⟨Cpu.holding [0xFF], .initial, .blank⟩ hfull .indirectY
  have hnamed := hlaw.named
  rw [haddress] at hreply hnamed
  exact ⟨hfull, hreply, hnamed.symm⟩

end Monitor

end Machine6502
