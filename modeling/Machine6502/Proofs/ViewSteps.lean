import Machine6502.Proofs.Views

/-!
# Steps from view to view

For kinds of instructions, the view that a step leads to and the stores it has, wherever
the opcode byte and the address of the cell that it works on come from.
-/

namespace Machine6502

namespace View

variable {view : View} {stores : List (UInt16 × UInt8)} {next : Input → View}
variable {code : UInt8} {name : String} {length cycles : UInt8} {mode : Mode}

/-- The byte at the program counter is in no cell of the host and decodes to an opcode. -/
structure Fetches (view : View) (opcode : Opcode) : Prop where
  apart : ¬HostCell view.pc
  decode : Opcode.decode (view.storage.cell view.pc) = some opcode

/-- The mode names the cell at an address. -/
def Names (view : View) (mode : Mode) (address : UInt16) : Prop :=
  ∀ input cpu, view.Shows input cpu → cpu.effectiveAddress mode = address

theorem Fetches.code_eq {opcode : Opcode} (hfetches : view.Fetches opcode) :
    view.storage.cell view.pc = opcode.code :=
  (Opcode.consistent_of_decode hfetches.decode).2.symm

theorem takes_of_laws {opcode : Opcode} (hfetches : view.Fetches opcode) (hcode : opcode.code ≠ 0)
    (hstores : ∀ input cpu, view.Shows input cpu →
      opcode.instruction.stores (cpu.effectiveAddress opcode.mode) cpu = stores)
    (hstorage : ∀ input cpu, view.Shows input cpu →
      opcode.instruction.storageAfter (cpu.effectiveAddress opcode.mode) cpu =
        (next input).storage.fed input)
    (hstatus : ∀ input cpu, view.Shows input cpu →
      opcode.instruction.statusAfter (cpu.effectiveAddress opcode.mode) cpu
        ((next input).storage.fed input) = (next input).status)
    (hpc : ∀ input cpu, view.Shows input cpu → cpu.pcAfter opcode.length = (next input).pc) :
    view.Takes stores next := by
  intro input cpu hshows
  have hread : cpu.code = view.storage.cell view.pc := by
    rw [Cpu.code, hshows.pc]
    exact hshows.read hfetches.apart
  have hdecode : Opcode.decode cpu.code = some opcode := by
    rw [hread]
    exact hfetches.decode
  obtain ⟨-, hstorage', hstatus', hpc'⟩ := Cpu.laws_of_decode hshows.full hdecode
  refine ⟨⟨by simp [hdecode], ?_⟩, ?_, ?_⟩
  · rw [hread, hfetches.code_eq]
    exact hcode
  · rw [Cpu.stores_of_decode hdecode]
    exact hstores input cpu hshows
  · have hafter := hstorage'.trans (hstorage input cpu hshows)
    refine ⟨(Cpu.size_step cpu).trans hshows.full, hpc'.trans (hpc input cpu hshows), ?_, hafter⟩
    rw [hstatus', hafter]
    exact hstatus input cpu hshows

/-- An opcode that moves the counter behind itself. -/
theorem Fetches.pcAfter {opcode : Opcode} (hfetches : view.Fetches opcode)
    (hcode : opcode.code ≠ 0) (hcontrol : opcode.instruction.control? = none) {input : Input}
    {cpu : Cpu} (hshows : view.Shows input cpu) :
    cpu.pcAfter opcode.length = view.pc + opcode.length.toUInt16 := by
  have hread : cpu.read cpu.pc = opcode.code := by
    rw [hshows.pc, hshows.read hfetches.apart]
    exact hfetches.code_eq
  obtain ⟨hconsistent, -⟩ := Opcode.consistent_of_decode hfetches.decode
  have hnone : Control.ofCode? opcode.code = none := by
    rw [← hconsistent.control?_eq, hcontrol]
  rw [Cpu.pcAfter, hread, hnone]
  simp only [if_neg hcode, hshows.pc]

section Addressed

variable {address : UInt16}

/-- An instruction on a cell that is known. -/
theorem takes_addressed {operation : Addressed}
    (hfetches : view.Fetches ⟨code, name, length, cycles, mode, .addressed operation⟩)
    (hnames : view.Names mode address)
    (hstores : ∀ input cpu, view.Shows input cpu → operation.stores address cpu = stores)
    (hstorage : ∀ input cpu, view.Shows input cpu →
      operation.storageAfter address cpu = (next input).storage.fed input)
    (hstatus : ∀ input cpu, view.Shows input cpu →
      operation.statusAfter address cpu ((next input).storage.fed input) = (next input).status)
    (hpc : ∀ input, (next input).pc = view.pc + length.toUInt16) : view.Takes stores next := by
  have hcode : code ≠ 0 := by
    intro hzero
    have hhalts := (Opcode.consistent_of_decode hfetches.decode).1.halts_iff_code.mpr hzero
    exact Instruction.noConfusion hhalts
  refine takes_of_laws hfetches hcode ?_ ?_ ?_ fun input cpu hshows => ?_
  · intro input cpu hshows
    rw [hnames input cpu hshows]
    exact hstores input cpu hshows
  · intro input cpu hshows
    rw [hnames input cpu hshows]
    exact hstorage input cpu hshows
  · intro input cpu hshows
    rw [hnames input cpu hshows]
    exact hstatus input cpu hshows
  · rw [hpc]
    exact hfetches.pcAfter hcode rfl hshows

/-- A load of a byte that the host may have provided. -/
theorem takes_load_input {register : Register} {value : Input → UInt8}
    (hfetches : view.Fetches ⟨code, name, length, cycles, mode, .addressed (.load register)⟩)
    (hnames : view.Names mode address)
    (hvalue : ∀ input, (view.storage.fed input).cell address = value input) :
    view.Takes [] fun input => ⟨view.pc + length.toUInt16, view.status.recording (value input),
      view.storage.set register (value input)⟩ := by
  refine takes_addressed hfetches hnames (fun _ _ _ => rfl) ?_ ?_ fun _ => rfl
  · intro input cpu hshows
    simp only [Addressed.storageAfter, hshows.storage, hvalue, Storage.set_fed]
  · intro input cpu hshows
    simp only [Addressed.statusAfter, hshows.status, Storage.get_fed, Storage.get_set]

section Apart

variable (haddress : ¬HostCell address)

include haddress

theorem takes_load {register : Register}
    (hfetches : view.Fetches ⟨code, name, length, cycles, mode, .addressed (.load register)⟩)
    (hnames : view.Names mode address) :
    view.Takes [] fun _ => ⟨view.pc + length.toUInt16,
      view.status.recording (view.storage.cell address),
      view.storage.set register (view.storage.cell address)⟩ :=
  takes_load_input hfetches hnames fun input => view.storage.cell_fed input haddress

theorem takes_store {register : Register}
    (hfetches : view.Fetches ⟨code, name, length, cycles, mode, .addressed (.store register)⟩)
    (hnames : view.Names mode address) :
    view.Takes [(address, view.storage.get register)] fun _ =>
      ⟨view.pc + length.toUInt16, view.status,
        view.storage.store address (view.storage.get register)⟩ := by
  refine takes_addressed hfetches hnames ?_ ?_ ?_ fun _ => rfl
  · intro input cpu hshows
    simp only [Addressed.stores, hshows.storage, Storage.get_fed]
  · intro input cpu hshows
    simp only [Addressed.storageAfter, hshows.storage, Storage.get_fed,
      Storage.store_fed _ _ haddress]
  · intro input cpu hshows
    exact hshows.status

/-- An instruction that changes the byte of a cell in place. -/
theorem takes_rewrite {operation : Addressed} (change : UInt8 → UInt8)
    (hfetches : view.Fetches ⟨code, name, length, cycles, mode, .addressed operation⟩)
    (hnames : view.Names mode address)
    (hstores : ∀ cpu, operation.stores address cpu =
      [(address, change (cpu.storage.cell address))])
    (hstorage : ∀ cpu, operation.storageAfter address cpu =
      cpu.storage.store address (change (cpu.storage.cell address)))
    (hstatus : ∀ cpu after, operation.statusAfter address cpu after =
      cpu.status.recording (after.cell address)) :
    view.Takes [(address, change (view.storage.cell address))] fun _ =>
      ⟨view.pc + length.toUInt16, view.status.recording (change (view.storage.cell address)),
        view.storage.store address (change (view.storage.cell address))⟩ := by
  refine takes_addressed hfetches hnames ?_ ?_ ?_ fun _ => rfl
  · intro input cpu hshows
    rw [hstores, hshows.storage, Storage.cell_fed _ _ haddress]
  · intro input cpu hshows
    rw [hstorage, hshows.storage, Storage.cell_fed _ _ haddress, Storage.store_fed _ _ haddress]
  · intro input cpu hshows
    rw [hstatus, hshows.status, Storage.cell_fed _ _ haddress, Storage.cell_store]

theorem takes_increment
    (hfetches : view.Fetches ⟨code, name, length, cycles, mode, .addressed .increment⟩)
    (hnames : view.Names mode address) :
    view.Takes [(address, view.storage.cell address + 1)] fun _ =>
      ⟨view.pc + length.toUInt16, view.status.recording (view.storage.cell address + 1),
        view.storage.store address (view.storage.cell address + 1)⟩ :=
  takes_rewrite haddress (· + 1) hfetches hnames (fun _ => rfl) (fun _ => rfl)
    fun _ _ => rfl

theorem takes_decrement
    (hfetches : view.Fetches ⟨code, name, length, cycles, mode, .addressed .decrement⟩)
    (hnames : view.Names mode address) :
    view.Takes [(address, view.storage.cell address - 1)] fun _ =>
      ⟨view.pc + length.toUInt16, view.status.recording (view.storage.cell address - 1),
        view.storage.store address (view.storage.cell address - 1)⟩ :=
  takes_rewrite haddress (· - 1) hfetches hnames (fun _ => rfl) (fun _ => rfl)
    fun _ _ => rfl

/-- The flags after a comparison of two bytes. -/
def compared (status : Status) (value operand : UInt8) : Status :=
  { status with carry := operand ≤ value }.recording (value - operand)

theorem takes_compare {register : Register}
    (hfetches : view.Fetches ⟨code, name, length, cycles, mode, .addressed (.compare register)⟩)
    (hnames : view.Names mode address) :
    view.Takes [] fun _ => ⟨view.pc + length.toUInt16,
      compared view.status (view.storage.get register) (view.storage.cell address),
      view.storage⟩ := by
  refine takes_addressed hfetches hnames (fun _ _ _ => rfl) ?_ ?_ fun _ => rfl
  · intro input cpu hshows
    exact hshows.storage
  · intro input cpu hshows
    simp only [Addressed.statusAfter, hshows.status, hshows.storage, Storage.get_fed,
      Storage.cell_fed _ _ haddress, compared]

/-- The flags after a test of the accumulator against an operand. -/
def tested (status : Status) (a operand : UInt8) : Status :=
  { status with
    zero := a &&& operand = 0
    negative := operand.toNat.testBit 7
    overflow := operand.toNat.testBit 6 }

theorem takes_bitTest
    (hfetches : view.Fetches ⟨code, name, length, cycles, mode, .addressed .bitTest⟩)
    (hnames : view.Names mode address) :
    view.Takes [] fun _ => ⟨view.pc + length.toUInt16,
      tested view.status view.storage.a (view.storage.cell address), view.storage⟩ := by
  refine takes_addressed hfetches hnames (fun _ _ _ => rfl) ?_ ?_ fun _ => rfl
  · intro input cpu hshows
    exact hshows.storage
  · intro input cpu hshows
    simp only [Addressed.statusAfter, hshows.status, hshows.storage, hshows.a,
      Storage.cell_fed _ _ haddress, tested]

theorem takes_and
    (hfetches : view.Fetches ⟨code, name, length, cycles, mode, .addressed (.logic .and)⟩)
    (hnames : view.Names mode address) :
    view.Takes [] fun _ => ⟨view.pc + length.toUInt16,
      view.status.recording (view.storage.a &&& view.storage.cell address),
      view.storage.set .a (view.storage.a &&& view.storage.cell address)⟩ := by
  refine takes_addressed hfetches hnames (fun _ _ _ => rfl) ?_ ?_ fun _ => rfl
  · intro input cpu hshows
    simp only [Addressed.storageAfter, hshows.storage, Storage.cell_fed _ _ haddress,
      Storage.set_fed]
    rfl
  · intro input cpu hshows
    simp only [Addressed.statusAfter, hshows.status]
    rfl

/-- The flags after an addition to the accumulator. -/
def added (status : Status) (a operand : UInt8) : Status :=
  { status with
    carry := 255 < a.toNat + operand.toNat + status.carry.toNat
    overflow := signedOverflow a operand status.carry }.recording
      (a + operand + status.carry.toUInt8)

theorem takes_add (hfetches : view.Fetches ⟨code, name, length, cycles, mode, .addressed .add⟩)
    (hnames : view.Names mode address) :
    view.Takes [] fun _ => ⟨view.pc + length.toUInt16,
      added view.status view.storage.a (view.storage.cell address),
      view.storage.set .a
        (view.storage.a + view.storage.cell address + view.status.carry.toUInt8)⟩ := by
  refine takes_addressed hfetches hnames (fun _ _ _ => rfl) ?_ ?_ fun _ => rfl
  · intro input cpu hshows
    simp only [Addressed.storageAfter, hshows.storage, hshows.status,
      Storage.cell_fed _ _ haddress, Storage.set_fed]
    rfl
  · intro input cpu hshows
    simp only [Addressed.statusAfter, Cpu.statusAfterSum, hshows.storage, hshows.status, hshows.a,
      Storage.cell_fed _ _ haddress]
    rfl

/-- A subtraction adds the operand less one. -/
theorem takes_subtract
    (hfetches : view.Fetches ⟨code, name, length, cycles, mode, .addressed .subtract⟩)
    (hnames : view.Names mode address) :
    view.Takes [] fun _ => ⟨view.pc + length.toUInt16,
      added view.status view.storage.a (view.storage.cell address - 1),
      view.storage.set .a
        (view.storage.a + (view.storage.cell address - 1) + view.status.carry.toUInt8)⟩ := by
  refine takes_addressed hfetches hnames (fun _ _ _ => rfl) ?_ ?_ fun _ => rfl
  · intro input cpu hshows
    simp only [Addressed.storageAfter, hshows.storage, hshows.status,
      Storage.cell_fed _ _ haddress, Storage.set_fed]
    rfl
  · intro input cpu hshows
    simp only [Addressed.statusAfter, Cpu.statusAfterSum, hshows.storage, hshows.status, hshows.a,
      Storage.cell_fed _ _ haddress]
    rfl

end Apart

end Addressed

section Implied

/-- An instruction without an operand that neither halts nor stores. -/
theorem takes_implied {operation : Implied} {status : Status} {storage : Storage}
    (hfetches : view.Fetches ⟨code, name, length, cycles, mode, .implied operation⟩)
    (hhalt : operation ≠ .halt) (hstores : ∀ cpu, operation.stores cpu = [])
    (hstorage : ∀ input cpu, view.Shows input cpu →
      operation.storageAfter cpu = storage.fed input)
    (hstatus : ∀ input cpu, view.Shows input cpu →
      operation.statusAfter cpu (storage.fed input) = status) :
    view.Takes [] fun _ => ⟨view.pc + length.toUInt16, status, storage⟩ := by
  have hcode : code ≠ 0 := by
    intro hzero
    have hhalts := (Opcode.consistent_of_decode hfetches.decode).1.halts_iff_code.mpr hzero
    exact hhalt (Instruction.implied.inj hhalts)
  refine takes_of_laws hfetches hcode (fun _ cpu _ => hstores cpu) hstorage hstatus ?_
  exact fun input cpu hshows => hfetches.pcAfter hcode rfl hshows

/-- An instruction that sets a register to a byte that one register determines and
records it in the flags. -/
theorem takes_record {operation : Implied} {source target : Register} (change : UInt8 → UInt8)
    (hfetches : view.Fetches ⟨code, name, length, cycles, mode, .implied operation⟩)
    (hhalt : operation ≠ .halt) (hstores : ∀ cpu, operation.stores cpu = [])
    (hstorage : ∀ cpu, operation.storageAfter cpu =
      cpu.storage.set target (change (cpu.storage.get source)))
    (hstatus : ∀ cpu after, operation.statusAfter cpu after =
      cpu.status.recording (after.get target)) :
    view.Takes [] fun _ => ⟨view.pc + length.toUInt16,
      view.status.recording (change (view.storage.get source)),
      view.storage.set target (change (view.storage.get source))⟩ := by
  refine takes_implied hfetches hhalt hstores ?_ ?_
  · intro input cpu hshows
    rw [hstorage, hshows.storage, Storage.get_fed, Storage.set_fed]
  · intro input cpu hshows
    rw [hstatus, hshows.status, Storage.get_fed, Storage.get_set]

theorem takes_register_increment {register : Register}
    (hfetches : view.Fetches ⟨code, name, length, cycles, mode, .implied (.increment register)⟩) :
    view.Takes [] fun _ => ⟨view.pc + length.toUInt16,
      view.status.recording (view.storage.get register + 1),
      view.storage.set register (view.storage.get register + 1)⟩ :=
  takes_record (· + 1) hfetches (by simp) (fun _ => rfl) (fun _ => rfl) fun _ _ => rfl

theorem takes_register_decrement {register : Register}
    (hfetches : view.Fetches ⟨code, name, length, cycles, mode, .implied (.decrement register)⟩) :
    view.Takes [] fun _ => ⟨view.pc + length.toUInt16,
      view.status.recording (view.storage.get register - 1),
      view.storage.set register (view.storage.get register - 1)⟩ :=
  takes_record (· - 1) hfetches (by simp) (fun _ => rfl) (fun _ => rfl) fun _ _ => rfl

theorem takes_transfer_to_a {source : Register}
    (hfetches : view.Fetches ⟨code, name, length, cycles, mode, .implied (.transfer source .a)⟩) :
    view.Takes [] fun _ => ⟨view.pc + length.toUInt16,
      view.status.recording (view.storage.get source),
      view.storage.set .a (view.storage.get source)⟩ :=
  takes_record id hfetches (by simp) (fun _ => rfl) (fun _ => rfl) fun _ _ => rfl

/-- The flags after the bits of a byte are moved. -/
def shifted (status : Status) (operation : Shift) (byte : UInt8) : Status :=
  { status with carry := operation.movedOut byte }.recording (operation.moved byte status.carry)

theorem takes_shift {operation : Shift}
    (hfetches : view.Fetches ⟨code, name, length, cycles, mode, .implied (.shift operation)⟩) :
    view.Takes [] fun _ => ⟨view.pc + length.toUInt16,
      shifted view.status operation view.storage.a,
      view.storage.set .a (operation.moved view.storage.a view.status.carry)⟩ := by
  refine takes_implied hfetches (by simp) (fun _ => rfl) ?_ ?_
  · intro input cpu hshows
    simp only [Implied.storageAfter, hshows.storage, hshows.status, Storage.set_fed]
    rfl
  · intro input cpu hshows
    simp only [Implied.statusAfter, hshows.status, hshows.a, shifted]
    rfl

theorem takes_setFlag {flag : Flag}
    (hfetches : view.Fetches ⟨code, name, length, cycles, mode, .implied (.setFlag flag)⟩) :
    view.Takes [] fun _ => ⟨view.pc + length.toUInt16, view.status.set flag true,
      view.storage⟩ := by
  refine takes_implied hfetches (by simp) (fun _ => rfl) (fun _ _ hshows => hshows.storage) ?_
  intro input cpu hshows
  simp only [Implied.statusAfter, hshows.status]

theorem takes_clearFlag {flag : Flag}
    (hfetches : view.Fetches ⟨code, name, length, cycles, mode, .implied (.clearFlag flag)⟩) :
    view.Takes [] fun _ => ⟨view.pc + length.toUInt16, view.status.set flag false,
      view.storage⟩ := by
  refine takes_implied hfetches (by simp) (fun _ => rfl) (fun _ _ hshows => hshows.storage) ?_
  intro input cpu hshows
  simp only [Implied.statusAfter, hshows.status]

theorem takes_idle
    (hfetches : view.Fetches ⟨code, name, length, cycles, mode, .implied .idle⟩) :
    view.Takes [] fun _ => ⟨view.pc + length.toUInt16, view.status, view.storage⟩ :=
  takes_implied hfetches (by simp) (fun _ => rfl) (fun _ _ hshows => hshows.storage)
    fun _ _ hshows => hshows.status

end Implied

section Control

theorem takes_control {operation : Control} {storage : Storage} {target : UInt16}
    (hfetches : view.Fetches ⟨code, name, length, cycles, mode, .control operation⟩)
    (hstores : ∀ input cpu, view.Shows input cpu → operation.stores cpu = stores)
    (hstorage : ∀ input cpu, view.Shows input cpu →
      operation.storageAfter cpu = storage.fed input)
    (hkeeps : operation ≠ .returnFromInterrupt)
    (hpc : ∀ input cpu, view.Shows input cpu → Control.ofCode? (cpu.read cpu.pc) = some operation →
      cpu.pcAfter length = target) :
    view.Takes stores fun _ => ⟨target, view.status, storage⟩ := by
  obtain ⟨hconsistent, -⟩ := Opcode.consistent_of_decode hfetches.decode
  have hcode : code ≠ 0 := by
    intro hzero
    exact Instruction.noConfusion (hconsistent.halts_iff_code.mpr hzero)
  refine takes_of_laws hfetches hcode hstores hstorage ?_ ?_
  · intro input cpu hshows
    rw [← hshows.status]
    cases operation with
    | returnFromInterrupt => exact absurd rfl hkeeps
    | _ => rfl
  · intro input cpu hshows
    have hread : cpu.read cpu.pc = code := by
      rw [hshows.pc, hshows.read hfetches.apart]
      exact hfetches.code_eq
    refine hpc input cpu hshows ?_
    rw [hread]
    exact hconsistent.control?_eq.symm

theorem landing_of_ne {cpu : Cpu} {target : UInt16} (hmissed : target ≠ cpu.pc + 1) :
    cpu.landing length target = target :=
  if_neg hmissed

/-- A branch whose condition holds. -/
theorem takes_branch {flag : Flag} {value : Bool} {target : UInt16}
    (hfetches : view.Fetches ⟨code, name, length, cycles, mode, .control (.branch flag value)⟩)
    (hflag : view.status.get flag = value) (hoperand : ¬HostCell (view.pc + 1))
    (htarget : view.pc + 1 + 1 + displacement (view.storage.cell (view.pc + 1)) = target)
    (hmissed : target ≠ view.pc + 1) :
    view.Takes [] fun _ => ⟨target, view.status, view.storage⟩ := by
  refine takes_control hfetches (fun _ _ _ => rfl) (fun _ _ hshows => hshows.storage) (by simp) ?_
  intro input cpu hshows hcontrol
  have hbranch : cpu.branchTarget = target := by
    rw [Cpu.branchTarget, ← add_displacement, hshows.pc, hshows.read hoperand]
    exact htarget
  simp only [Cpu.pcAfter, hcontrol, hshows.status, if_pos hflag, hbranch]
  exact landing_of_ne (hshows.pc ▸ hmissed)

theorem takes_branch_skipped {flag : Flag} {value : Bool}
    (hfetches : view.Fetches ⟨code, name, length, cycles, mode, .control (.branch flag value)⟩)
    (hflag : view.status.get flag = !value) :
    view.Takes [] fun _ => ⟨view.pc + 2, view.status, view.storage⟩ := by
  have hother : view.status.get flag ≠ value := by simp [hflag]
  refine takes_control hfetches (fun _ _ _ => rfl) (fun _ _ hshows => hshows.storage) (by simp) ?_
  intro input cpu hshows hcontrol
  rw [← hshows.pc]
  simp only [Cpu.pcAfter, hcontrol, hshows.status, if_neg hother]

/-- The word behind the opcode byte. -/
def operandWord (view : View) : UInt16 :=
  wordOf (view.storage.cell (view.pc + 1)) (view.storage.cell (view.pc + 2))

theorem takes_jump {target : UInt16}
    (hfetches : view.Fetches ⟨code, name, length, cycles, mode, .control .jump⟩)
    (hlow : ¬HostCell (view.pc + 1)) (hhigh : ¬HostCell (view.pc + 2))
    (htarget : view.operandWord = target) (hmissed : target ≠ view.pc + 1) :
    view.Takes [] fun _ => ⟨target, view.status, view.storage⟩ := by
  refine takes_control hfetches (fun _ _ _ => rfl) (fun _ _ hshows => hshows.storage) (by simp) ?_
  intro input cpu hshows hcontrol
  have hsecond : view.pc + 1 + 1 = view.pc + 2 := UInt16.add_assoc view.pc 1 1
  have hword : cpu.operandWord = target := by
    rw [← htarget, Cpu.operandWord, Memory.readWord, hshows.pc, hsecond]
    exact congrArg₂ wordOf (hshows.read hlow) (hshows.read hhigh)
  simp only [Cpu.pcAfter, hcontrol, hword]
  exact landing_of_ne (hshows.pc ▸ hmissed)

/-- A call whose own bytes are not on the stack. -/
theorem takes_call {target : UInt16}
    (hfetches : view.Fetches ⟨code, name, length, cycles, mode, .control .call⟩)
    (hlow : ¬HostCell (view.pc + 1)) (hhigh : ¬HostCell (view.pc + 2))
    (hlow' : ∀ pointer, view.pc + 1 ≠ Storage.stackCell pointer)
    (hhigh' : ∀ pointer, view.pc + 2 ≠ Storage.stackCell pointer)
    (htarget : view.operandWord = target) (hmissed : target ≠ view.pc + 1) :
    view.Takes
      [(Storage.stackCell view.storage.s, highByte (view.pc + 2)),
        (Storage.stackCell (view.storage.s - 1), lowByte (view.pc + 2))]
      fun _ => ⟨target, view.status,
        (view.storage.push (highByte (view.pc + 2))).push (lowByte (view.pc + 2))⟩ := by
  refine takes_control hfetches ?_ ?_ (by simp) ?_
  · intro input cpu hshows
    simp only [Control.stores, hshows.storage, hshows.pc]
    rfl
  · intro input cpu hshows
    simp only [Control.storageAfter, hshows.storage, hshows.pc, Storage.push_fed]
  · intro input cpu hshows hcontrol
    have hword : cpu.callTarget = target := by
      rw [← htarget, operandWord]
      simp only [Cpu.callTarget, hshows.storage, hshows.pc, Storage.push, Storage.store,
        Function.update_of_ne (hlow' _), Function.update_of_ne (hhigh' _)]
      exact congrArg₂ wordOf (view.storage.cell_fed input hlow) (view.storage.cell_fed input hhigh)
    simp only [Cpu.pcAfter, hcontrol, hword]
    exact landing_of_ne (hshows.pc ▸ hmissed)

theorem takes_return
    (hfetches : view.Fetches ⟨code, name, length, cycles, mode, .control .returnFromCall⟩) :
    view.Takes [] fun _ => ⟨view.storage.peekWord 1 + 1, view.status, view.storage.drop 2⟩ := by
  refine takes_control hfetches (fun _ _ _ => rfl) ?_ (by simp) ?_
  · intro input cpu hshows
    simp only [Control.storageAfter, hshows.storage]
    rfl
  · intro input cpu hshows hcontrol
    simp only [Cpu.pcAfter, hcontrol, hshows.storage, Storage.peekWord, Storage.peek_fed]

end Control

section Flags

variable (status : Status)

@[simp]
theorem zero_recording (result : UInt8) :
    (status.recording result).get .zero = decide (result = 0) :=
  rfl

@[simp]
theorem zero_compared (value operand : UInt8) :
    (compared status value operand).get .zero = decide (value = operand) := by
  rw [compared, zero_recording, decide_eq_decide, UInt8.sub_eq_iff_eq_add, UInt8.zero_add]

theorem zero_compared_of_eq {value operand : UInt8} (hequal : value = operand) :
    (compared status value operand).get .zero = true :=
  (zero_compared status value operand).trans (decide_eq_true hequal)

theorem zero_compared_of_ne {value operand : UInt8} (hdiffer : value ≠ operand) :
    (compared status value operand).get .zero = false :=
  (zero_compared status value operand).trans (decide_eq_false hdiffer)

@[simp]
theorem zero_tested (a operand : UInt8) :
    (tested status a operand).get .zero = decide (a &&& operand = 0) :=
  rfl

end Flags

end View

end Machine6502
