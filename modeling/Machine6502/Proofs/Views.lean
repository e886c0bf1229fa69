import Machine6502.Script
import Machine6502.Proofs.Runs
import Machine6502.Proofs.Stores

/-!
# Views

A program is followed without knowing what its host does.  A view is a machine between
two steps but for the cells of key and random byte, which the host may write at any time.
From a view the next step leads to another one, which depends on those two bytes only if
the step reads them; so a program is followed from view to view.
-/

namespace Machine6502

/-- The two bytes that a host provides. -/
structure Input where
  random : UInt8
  key : UInt8

/-- A cell that the host may write before a step. -/
def HostCell (address : UInt16) : Prop :=
  address = randomCell ∨ address = Direction.cell

instance : DecidablePred HostCell :=
  fun address => inferInstanceAs (Decidable (address = randomCell ∨ address = Direction.cell))

namespace Storage

/-- The storage with two bytes in the cells of the host. -/
def fed (storage : Storage) (input : Input) : Storage :=
  (storage.store Direction.cell input.key).store randomCell input.random

variable (storage : Storage) (input : Input)

theorem cell_fed {address : UInt16} (haddress : ¬HostCell address) :
    (storage.fed input).cell address = storage.cell address := by
  obtain ⟨hrandom, hkey⟩ := not_or.mp haddress
  simp only [fed, store, Function.update_of_ne hrandom, Function.update_of_ne hkey]

theorem random_fed : (storage.fed input).cell randomCell = input.random := by
  simp only [fed, store, Function.update_self]

theorem key_fed : (storage.fed input).cell Direction.cell = input.key := by
  have hother : Direction.cell ≠ randomCell := by decide
  simp only [fed, store, Function.update_of_ne hother, Function.update_self]

theorem fed_self :
    storage.fed ⟨storage.cell randomCell, storage.cell Direction.cell⟩ = storage := by
  simp only [fed, store, Function.update_eq_self]

theorem fed_fed (other : Input) : (storage.fed input).fed other = storage.fed other := by
  have hother : randomCell ≠ Direction.cell := by decide
  simp only [fed, store, Function.update_comm hother, Function.update_idem]

theorem get_fed (register : Register) :
    (storage.fed input).get register = storage.get register := by
  cases register <;> rfl

theorem set_fed (register : Register) (value : UInt8) :
    (storage.fed input).set register value = (storage.set register value).fed input := by
  cases register <;> rfl

theorem store_fed {address : UInt16} (haddress : ¬HostCell address) (value : UInt8) :
    (storage.fed input).store address value = (storage.store address value).fed input := by
  obtain ⟨hrandom, hkey⟩ := not_or.mp haddress
  simp only [fed, store]
  rw [Function.update_comm (Ne.symm hrandom), Function.update_comm (Ne.symm hkey)]

theorem not_hostCell_stackCell (pointer : UInt8) : ¬HostCell (stackCell pointer) := by
  revert pointer
  exact forall_byte (by decide +kernel)

theorem push_fed (value : UInt8) :
    (storage.fed input).push value = (storage.push value).fed input := by
  have hstored := storage.store_fed input (not_hostCell_stackCell storage.s) value
  exact congrArg (fun stored : Storage => { stored with s := storage.s - 1 }) hstored

theorem peek_fed (depth : UInt8) : (storage.fed input).peek depth = storage.peek depth :=
  storage.cell_fed input (not_hostCell_stackCell _)

end Storage

/-- A machine between two steps, whatever stands in the cells of the host. -/
structure View where
  pc : UInt16
  status : Status
  storage : Storage

namespace View

/-- The view shows the machine, in whose host cells two bytes stand. -/
structure Shows (view : View) (input : Input) (cpu : Cpu) : Prop where
  full : cpu.memory.size = Memory.addressCount
  pc : cpu.pc = view.pc
  status : cpu.status = view.status
  storage : cpu.storage = view.storage.fed input

/-- The view of a machine. -/
def ofCpu (cpu : Cpu) : View :=
  ⟨cpu.pc, cpu.status, cpu.storage⟩

theorem shows_ofCpu {cpu : Cpu} (hfull : cpu.memory.size = Memory.addressCount) :
    (ofCpu cpu).Shows ⟨cpu.read randomCell, cpu.read Direction.cell⟩ cpu :=
  ⟨hfull, rfl, rfl, (Storage.fed_self cpu.storage).symm⟩

variable {view : View} {input : Input} {cpu : Cpu}

theorem Shows.read (hshows : view.Shows input cpu) {address : UInt16}
    (haddress : ¬HostCell address) : cpu.read address = view.storage.cell address :=
  (congrFun (congrArg Storage.cell hshows.storage) address).trans
    (view.storage.cell_fed input haddress)

theorem Shows.a (hshows : view.Shows input cpu) : cpu.a = view.storage.a :=
  congrArg Storage.a hshows.storage

theorem Shows.x (hshows : view.Shows input cpu) : cpu.x = view.storage.x :=
  congrArg Storage.x hshows.storage

theorem Shows.y (hshows : view.Shows input cpu) : cpu.y = view.storage.y :=
  congrArg Storage.y hshows.storage

/-- What the step of every machine in a view does: it goes on, it has some stores, and it
leads to a view that depends on what the host has provided. -/
def Takes (view : View) (stores : List (UInt16 × UInt8)) (next : Input → View) : Prop :=
  ∀ input cpu, view.Shows input cpu →
    cpu.GoesOn ∧ cpu.stores = stores ∧ (next input).Shows input cpu.step.2

/-- Whatever the host provides, the steps lead to one of some views, and a property holds
of all views and stores on the way. -/
inductive Leads (provided : Input → Prop) (along : View → List (UInt16 × UInt8) → Prop)
    (goal : View → Prop) : View → Prop
  | here {view : View} (hgoal : goal view) : Leads provided along goal view
  | next {view : View} {stores : List (UInt16 × UInt8)} {next : Input → View}
      (htakes : view.Takes stores next) (halong : along view stores)
      (hleads : ∀ input, provided input → Leads provided along goal (next input)) :
      Leads provided along goal view

section Leads

variable {provided : Input → Prop} {along : View → List (UInt16 × UInt8) → Prop}
variable {goal : View → Prop}

/-- A step that does not look at what the host provides. -/
theorem Leads.step {stores : List (UInt16 × UInt8)} {next : View}
    (htakes : view.Takes stores fun _ => next) (halong : along view stores)
    (hleads : Leads provided along goal next) : Leads provided along goal view :=
  .next htakes halong fun _ _ => hleads

/-- A machine that is left alone gets where its view leads to. -/
theorem Leads.reaches (hleads : Leads (fun _ => True) along goal view)
    (hshows : view.Shows input cpu) :
    ∃ steps, Cpu.idleHost.Reaches ((), cpu) steps ∧
      (∀ earlier < steps, ∃ passed stores, along passed stores ∧
        passed.Shows input (Cpu.idleHost.round^[earlier] ((), cpu)).2) ∧
      ∃ final, goal final ∧ final.Shows input (Cpu.idleHost.round^[steps] ((), cpu)).2 := by
  induction hleads generalizing cpu with
  | here hgoal =>
      refine ⟨0, ?_, ?_, _, hgoal, hshows⟩ <;> exact fun _ hlt => absurd hlt (Nat.not_lt_zero _)
  | @next view stores next htakes halong _ ih =>
      obtain ⟨hgoes, -, hnext⟩ := htakes input cpu hshows
      obtain ⟨steps, hreaches, hpassed, hfinal⟩ := ih input trivial hnext
      have hround : Cpu.idleHost.round ((), cpu) = ((), cpu.step.2) := rfl
      refine ⟨steps + 1, fun earlier hlt => ?_, fun earlier hlt => ?_, ?_⟩
      · cases earlier with
        | zero => exact hgoes
        | succ earlier =>
            rw [Host.turn_succ, hround]
            exact hreaches earlier (Nat.lt_of_succ_lt_succ hlt)
      · cases earlier with
        | zero => exact ⟨view, stores, halong, hshows⟩
        | succ earlier =>
            rw [Function.iterate_succ_apply, hround]
            exact hpassed earlier (Nat.lt_of_succ_lt_succ hlt)
      · rw [Function.iterate_succ_apply, hround]
        exact hfinal

end Leads

end View

end Machine6502
