import Mathlib.Data.List.Induction
import Machine6502.Proofs.Locality
import Machine6502.Proofs.Stack

/-!
# Interrupt frames

An interrupt frame is a return address and, above it on the stack, a status byte.  Frames that
are built one above the other are taken back in reverse order by returns from interrupt: each
goes to the address itself, and finds the status as it was but for the two marks that no pull
takes from the stack.
-/

namespace Machine6502

/-- The status as a pull leaves it: without the break mark and with the reserved bit. -/
def Status.settle (status : Status) : Status :=
  { status with breakMark := false, reserved := true }

/-- Pushing a status and pulling it back settles its marks, and does so once. -/
theorem Status.pulled_toByte_pushed (status : Status) :
    Status.pulled status.pushed.toByte = status.settle := by
  rw [pulled, ofByte_toByte]
  rfl

/-- A return address and a status byte. -/
structure InterruptFrame where
  address : UInt16
  status : UInt8
deriving DecidableEq, Repr

namespace InterruptFrame

/-- The bytes of a frame, from the highest cell down. -/
def bytes (frame : InterruptFrame) : List UInt8 :=
  [highByte frame.address, lowByte frame.address, (Status.ofByte frame.status).pushed.toByte]

/-- Builds frames, the first one first: pushes the address, and calls the push of the status
with the status set to the byte.  The mode of the call plays no part. -/
def buildAll (mode : Mode) : List InterruptFrame → Cpu → Option Cpu
  | [], cpu => some cpu
  | frame :: frames, cpu =>
      let ready : Cpu := { cpu.pushWord frame.address with status := .ofByte frame.status }
      match ready.execute? (.implied .pushStatus) mode with
      | some (none, next) => buildAll mode frames next
      | _ => none

/-- Calls the return from interrupt some times, and gives the machine after each call. -/
def returnFrom (mode : Mode) : Nat → Cpu → Option (List Cpu)
  | 0, _ => some []
  | count + 1, cpu =>
      match cpu.execute? (.control .returnFromInterrupt) mode with
      | some (none, next) => (returnFrom mode count next).map (next :: ·)
      | _ => none

end InterruptFrame

namespace Cpu

/-- From one machine to another the accumulator and the index registers are kept, and the cells
outside the stack page. -/
structure KeepsData (before after : Cpu) : Prop where
  a : after.a = before.a
  x : after.x = before.x
  y : after.y = before.y
  size : after.memory.size = before.memory.size
  cell : ∀ address, address < 0x0100 ∨ 0x01FF < address →
    after.read address = before.read address

theorem KeepsData.refl (cpu : Cpu) : cpu.KeepsData cpu :=
  ⟨rfl, rfl, rfl, rfl, fun _ _ => rfl⟩

theorem KeepsData.trans {first second third : Cpu} (hearly : first.KeepsData second)
    (hlate : second.KeepsData third) : first.KeepsData third where
  a := hlate.a.trans hearly.a
  x := hlate.x.trans hearly.x
  y := hlate.y.trans hearly.y
  size := hlate.size.trans hearly.size
  cell address houtside := (hlate.cell address houtside).trans (hearly.cell address houtside)

theorem ChangesStackOnly.keepsData {before after : Cpu} (hchanges : before.ChangesStackOnly after) :
    before.KeepsData after where
  a := by rw [hchanges.rest]
  x := by rw [hchanges.rest]
  y := by rw [hchanges.rest]
  size := hchanges.size
  cell := hchanges.cell

/-- Program counter and status are no data. -/
theorem KeepsData.setControl {before after : Cpu} (hkeeps : before.KeepsData after) (pc : UInt16)
    (status : Status) : before.KeepsData { after with pc, status } :=
  ⟨hkeeps.a, hkeeps.x, hkeeps.y, hkeeps.size, hkeeps.cell⟩

variable {cpu : Cpu} {base : UInt8} {entries : List UInt8}
variable {frame : InterruptFrame} {frames : List InterruptFrame}

/-- One frame is built above what is on the stack. -/
theorem exists_buildFrame (hfull : cpu.memory.size = Memory.addressCount)
    (hstacked : cpu.storage.Stacked base entries) (hroom : entries.length + 3 ≤ 256)
    (mode : Mode) (frame : InterruptFrame) :
    ∃ next, (∀ frames, InterruptFrame.buildAll mode (frame :: frames) cpu =
        InterruptFrame.buildAll mode frames next) ∧
      next.storage.Stacked base (entries ++ frame.bytes) ∧ cpu.KeepsData next := by
  let ready : Cpu := { cpu.pushWord frame.address with status := .ofByte frame.status }
  have hready : ready.memory.size = Memory.addressCount :=
    (size_pushWord cpu frame.address).trans hfull
  have haddress : ready.storage.Stacked base
      (entries ++ [highByte frame.address, lowByte frame.address]) :=
    stacked_pushWord hfull hstacked (by omega) frame.address
  have hkeeps : cpu.KeepsData ready :=
    (changesStackOnly_pushWord hfull frame.address).keepsData.setControl cpu.pc _
  have hcall := execute?_of_full (Nat.le_of_eq hready.symm) (.implied .pushStatus) mode
  refine ⟨ready.push ready.status.pushed.toByte, fun frames => ?_, ?_,
    hkeeps.trans (changesStackOnly_push hready _).keepsData⟩
  · rw [InterruptFrame.buildAll, hcall]
    rfl
  · have hroom' : (entries ++ [highByte frame.address, lowByte frame.address]).length < 256 := by
      rw [List.length_append]
      exact hroom
    have hstatus := stacked_push hready haddress hroom' ready.status.pushed.toByte
    rwa [List.append_assoc] at hstatus

/-- As many frames are built as there is room for. -/
theorem exists_buildAll (hfull : cpu.memory.size = Memory.addressCount)
    (hstacked : cpu.storage.Stacked base entries)
    (hroom : entries.length + 3 * frames.length ≤ 256) (mode : Mode) :
    ∃ built, InterruptFrame.buildAll mode frames cpu = some built ∧
      built.storage.Stacked base (entries ++ frames.flatMap InterruptFrame.bytes) ∧
      cpu.KeepsData built := by
  induction frames generalizing cpu entries with
  | nil =>
      rw [List.flatMap_nil, List.append_nil]
      exact ⟨cpu, rfl, hstacked, .refl cpu⟩
  | cons frame frames ih =>
      rw [List.length_cons] at hroom
      obtain ⟨next, hnext, hframe, hkeeps⟩ :=
        exists_buildFrame hfull hstacked (by omega) mode frame
      have hroom' : (entries ++ frame.bytes).length + 3 * frames.length ≤ 256 := by
        have hbytes : frame.bytes.length = 3 := rfl
        rw [List.length_append]
        omega
      obtain ⟨built, hbuilt, hframes, hrest⟩ := ih (hkeeps.size.trans hfull) hframe hroom'
      rw [List.append_assoc, ← List.flatMap_cons] at hframes
      exact ⟨built, (hnext frames).trans hbuilt, hframes, hkeeps.trans hrest⟩

/-- A return from interrupt takes the frame on top back. -/
theorem exists_returnFromFrame (hfull : cpu.memory.size = Memory.addressCount)
    (hstacked : cpu.storage.Stacked base (entries ++ frame.bytes)) (mode : Mode) :
    ∃ next, cpu.execute? (.control .returnFromInterrupt) mode = some (none, next) ∧
      next.pc = frame.address ∧ next.status = (Status.ofByte frame.status).settle ∧
      next.storage.Stacked base entries ∧ cpu.KeepsData next := by
  have hframe : entries ++ frame.bytes =
      (entries ++ [highByte frame.address, lowByte frame.address]) ++
        [(Status.ofByte frame.status).pushed.toByte] := by
    rw [List.append_assoc]
    rfl
  rw [hframe] at hstacked
  obtain ⟨hstatus, hpopped⟩ := stacked_pop hstacked
  have hpulled : cpu.pullStatus.storage.Stacked base
      (entries ++ [highByte frame.address, lowByte frame.address]) := hpopped
  obtain ⟨haddress, hbelow⟩ := stacked_popWord hpulled
  have hkeeps : cpu.KeepsData cpu.pullStatus := ⟨rfl, rfl, rfl, rfl, fun _ _ => rfl⟩
  refine ⟨{ cpu.pullStatus.popWord.2 with pc := cpu.pullStatus.popWord.1 },
    execute?_of_full (Nat.le_of_eq hfull.symm) _ mode, haddress.trans (wordOf_bytes _), ?_, hbelow,
    (hkeeps.trans (changesStackOnly_popWord cpu.pullStatus).keepsData).setControl _ _⟩
  calc
    cpu.pullStatus.status = .pulled cpu.pop.1 := rfl
    _ = (Status.ofByte frame.status).settle := by rw [hstatus, Status.pulled_toByte_pushed]

/-- As many returns from interrupt as there are frames take them back, the last one first. -/
theorem exists_returnFrom (hfull : cpu.memory.size = Memory.addressCount)
    (hstacked : cpu.storage.Stacked base (entries ++ frames.flatMap InterruptFrame.bytes))
    (mode : Mode) :
    ∃ machines, InterruptFrame.returnFrom mode frames.length cpu = some machines ∧
      machines.map (fun machine => (machine.pc, machine.status)) =
        frames.reverse.map (fun frame => (frame.address, (Status.ofByte frame.status).settle)) ∧
      (∀ machine ∈ machines, cpu.KeepsData machine) ∧
      (machines.getLastD cpu).storage.Stacked base entries := by
  induction frames using List.reverseRecOn generalizing cpu with
  | nil =>
      rw [List.flatMap_nil, List.append_nil] at hstacked
      exact ⟨[], rfl, rfl, by simp, hstacked⟩
  | append_singleton frames frame ih =>
      rw [List.flatMap_append, List.flatMap_singleton, ← List.append_assoc] at hstacked
      obtain ⟨next, hcall, hpc, hstatus, hbelow, hkeeps⟩ :=
        exists_returnFromFrame hfull hstacked mode
      obtain ⟨machines, hcalls, hrestored, hkept, hlast⟩ := ih (hkeeps.size.trans hfull) hbelow
      refine ⟨next :: machines, ?_, ?_, ?_, ?_⟩
      · rw [List.length_append, List.length_singleton, InterruptFrame.returnFrom, hcall]
        simp only [hcalls, Option.map_some]
      · rw [List.reverse_append, List.reverse_singleton, List.singleton_append, List.map_cons,
          List.map_cons, hrestored, hpc, hstatus]
      · intro machine hmachine
        rcases List.mem_cons.mp hmachine with rfl | hlater
        · exact hkeeps
        · exact hkeeps.trans (hkept machine hlater)
      · rwa [List.getLastD_cons]

/-- An instruction without operand is carried out: called with a mode, or by the next step. -/
inductive CarriesOut (cpu : Cpu) (operation : Implied) (next : Cpu) : Prop
  | call {mode : Mode} (hcall : cpu.execute? (.implied operation) mode = some (none, next))
  | step {opcode : Opcode} (hdecode : Opcode.decode cpu.code = some opcode)
      (hinstruction : opcode.instruction = .implied operation)
      (hstep : cpu.step? = some (.continued, next))

/-- An instruction without operand is carried out whenever it is called or fetched. -/
structure CanCarryOut (cpu : Cpu) (operation : Implied) : Prop where
  call : ∀ mode, ∃ next, cpu.execute? (.implied operation) mode = some (none, next)
  step : ∀ opcode, Opcode.decode cpu.code = some opcode →
    opcode.instruction = .implied operation → ∃ next, cpu.step? = some (.continued, next)

/-- A status is pulled back with its marks settled, whatever is done in between that leaves the
stack pointer and the pushed cell alone. -/
structure PullsBack (cpu : Cpu) : Prop where
  push : cpu.CanCarryOut .pushStatus
  pull : ∀ pushed between : Cpu, cpu.CarriesOut .pushStatus pushed →
    between.memory.size = Memory.addressCount → between.s = pushed.s →
    between.read (Storage.stackCell cpu.s) = pushed.read (Storage.stackCell cpu.s) →
    between.CanCarryOut .pullStatus ∧
      ∀ pulled : Cpu, between.CarriesOut .pullStatus pulled →
        pulled.s = cpu.s ∧ pulled.status = cpu.status.settle

section PushAndPull

variable {operation : Implied} {next pushed between pulled : Cpu}

theorem canCarryOut (hfull : cpu.memory.size = Memory.addressCount)
    (hoperation : operation ≠ .halt) : cpu.CanCarryOut operation where
  call mode := ⟨operation.apply cpu, execute?_of_full (Nat.le_of_eq hfull.symm) _ mode⟩
  step opcode hdecode hinstruction := by
    have houtcome : opcode.outcome = .continued := by
      simp only [Opcode.outcome, hinstruction, Instruction.implied.injEq, if_neg hoperation]
    exact ⟨_, houtcome ▸ step?_of_decode hfull hdecode⟩

/-- Called or fetched, an instruction without operand follows the laws of registers, cells and
flags. -/
theorem CarriesOut.laws (hfull : cpu.memory.size = Memory.addressCount)
    (hcarries : cpu.CarriesOut operation next) :
    next.storage = operation.storageAfter cpu ∧
      next.status = operation.statusAfter cpu next.storage := by
  cases hcarries with
  | call hcall =>
      rw [execute?_of_full (Nat.le_of_eq hfull.symm), Option.some.injEq] at hcall
      obtain rfl : operation.apply cpu = next := congrArg Prod.snd hcall
      exact ⟨storage_implied hfull operation, status_implied cpu operation⟩
  | step hdecode hinstruction hstep =>
      rw [step?_of_full cpu (Nat.le_of_eq hfull.symm), Option.some.injEq] at hstep
      obtain rfl : cpu.step.2 = next := congrArg Prod.snd hstep
      obtain ⟨-, hstorage, hstatus, -⟩ := laws_of_decode hfull hdecode
      rw [hinstruction] at hstorage hstatus
      exact ⟨hstorage, hstatus⟩

/-- What a pull finds behind a push of the status. -/
theorem settle_of_pull (hfull : cpu.memory.size = Memory.addressCount)
    (hpush : cpu.CarriesOut .pushStatus pushed)
    (hbetween : between.memory.size = Memory.addressCount) (hpointer : between.s = pushed.s)
    (hcell : between.read (Storage.stackCell cpu.s) = pushed.read (Storage.stackCell cpu.s))
    (hpull : between.CarriesOut .pullStatus pulled) :
    pulled.s = cpu.s ∧ pulled.status = cpu.status.settle := by
  obtain ⟨hpushed, -⟩ := hpush.laws hfull
  obtain ⟨hpulled, hstatus⟩ := hpull.laws hbetween
  have hlowered : pushed.s = cpu.s - 1 := congrArg Storage.s hpushed
  have hraised : between.s + 1 = cpu.s := by
    rw [hpointer, hlowered, UInt8.sub_add_cancel]
  have hbyte : pushed.read (Storage.stackCell cpu.s) = cpu.status.pushed.toByte := by
    rw [Status.toByte_pushed]
    exact (congrArg (fun storage : Storage => storage.cell (Storage.stackCell cpu.s)) hpushed).trans
      (Storage.cell_store cpu.storage (Storage.stackCell cpu.s) _)
  refine ⟨(congrArg Storage.s hpulled).trans hraised, hstatus.trans ?_⟩
  calc
    Status.fromStack (between.storage.peek 1)
        = Status.fromStack (between.read (Storage.stackCell (between.s + 1))) := rfl
    _ = Status.pulled cpu.status.pushed.toByte := by
          rw [hraised, hcell, hbyte, Status.pulled_eq_fromStack]
    _ = cpu.status.settle := Status.pulled_toByte_pushed cpu.status

theorem pullsBack (hfull : cpu.memory.size = Memory.addressCount) : cpu.PullsBack where
  push := canCarryOut hfull (by simp)
  pull _ _ hpush hbetween hpointer hcell :=
    ⟨canCarryOut hbetween (by simp), fun _ hpull =>
      settle_of_pull hfull hpush hbetween hpointer hcell hpull⟩

end PushAndPull

/-- Up to 85 frames, built one above the other from any stack pointer on, are taken back by as
many returns from interrupt, the last one first.  Each return goes to the address of its frame
and leaves its status with the marks settled; the stack pointer ends where it began, and
accumulator and index registers are kept.  A status that is pushed and pulled back by itself
is settled likewise. -/
theorem frames_unwind (hfull : cpu.memory.size = Memory.addressCount)
    (hcount : frames.length ≤ 85) (mode : Mode) :
    (∃ built machines, InterruptFrame.buildAll mode frames cpu = some built ∧
      InterruptFrame.returnFrom mode frames.length built = some machines ∧
      machines.map (fun machine => (machine.pc, machine.status)) =
        frames.reverse.map (fun frame => (frame.address, (Status.ofByte frame.status).settle)) ∧
      (machines.getLastD built).s = cpu.s ∧
      ∀ machine ∈ machines, cpu.KeepsData machine) ∧
    cpu.PullsBack := by
  have hroom : ([] : List UInt8).length + 3 * frames.length ≤ 256 := by
    rw [List.length_nil]
    omega
  obtain ⟨built, hbuilt, hstacked, hkeeps⟩ :=
    exists_buildAll hfull (.nil cpu.storage) hroom mode
  obtain ⟨machines, hreturns, hrestored, hkept, hlast⟩ :=
    exists_returnFrom (hkeeps.size.trans hfull) hstacked mode
  have hpointer : (machines.getLastD built).s = cpu.s := hlast.pointer.trans (UInt8.sub_zero _)
  exact ⟨⟨built, machines, hbuilt, hreturns, hrestored, hpointer, fun machine hmachine =>
    hkeeps.trans (hkept machine hmachine)⟩, pullsBack hfull⟩

/-- Two frames around the bottom of the stack page, one with all flags and one with none. -/
theorem frames_unwind_around_the_page :
    ({ initial with s := 1 } : Cpu).memory.size = Memory.addressCount ∧
      ([⟨0x1234, 0xFF⟩, ⟨0xFFFF, 0x00⟩] : List InterruptFrame).length ≤ 85 ∧
      ∃ built machines,
        InterruptFrame.buildAll .implied [⟨0x1234, 0xFF⟩, ⟨0xFFFF, 0x00⟩] { initial with s := 1 } =
          some built ∧
        InterruptFrame.returnFrom .implied 2 built = some machines ∧
        machines.map (fun machine => (machine.pc, machine.status.toByte)) =
          [(0xFFFF, 0x20), (0x1234, 0xEF)] ∧
        (machines.getLastD built).s = 1 := by
  have hfull : ({ initial with s := 1 } : Cpu).memory.size = Memory.addressCount :=
    Memory.size_blank
  have hcount : ([⟨0x1234, 0xFF⟩, ⟨0xFFFF, 0x00⟩] : List InterruptFrame).length ≤ 85 := by decide
  obtain ⟨⟨built, machines, hbuilt, hreturns, hrestored, hpointer, -⟩, -⟩ :=
    frames_unwind hfull hcount .implied
  refine ⟨hfull, hcount, built, machines, hbuilt, hreturns, ?_, hpointer⟩
  have hbytes := congrArg (List.map (Prod.map id Status.toByte)) hrestored
  rw [List.map_map] at hbytes
  exact hbytes.trans (by decide)

end Cpu

end Machine6502
