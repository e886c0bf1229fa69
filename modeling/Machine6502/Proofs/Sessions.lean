import Mathlib.Data.Set.Basic
import Machine6502.Monitor
import Machine6502.Proofs.CheckedArithmetic
import Machine6502.Proofs.FullMemory

/-!
# Sessions

A client gives the monitor one command after the other and may look at each reply before
it gives the next.  It may also have the machine run for some rounds, with a callback
before every step that is again free to do all this.  On a machine with a cell for every
address such a session never lacks a cell, whatever it does.
-/

namespace Machine6502

/-- Whether a command takes over a machine that was not built here. -/
def Command.restoresSnapshot : Command → Bool
  | .restoreSnapshot _ => true
  | _ => false

/-- What a client does until it finishes with a result.  The callback of a run takes the
result of its last call to the next one. -/
inductive Session : Type → Type 1 where
  | finish {α : Type} (result : α) : Session α
  | perform {α : Type} (command : Command) (hown : command.restoresSnapshot = false)
      (next : Reply → Session α) : Session α
  | run {σ α : Type} (rounds : Nat) (start : σ) (callback : σ → Session σ)
      (next : Ending → σ → Session α) : Session α

/-- The host that plays on the monitor of the machine before every step.  When its play
lacks a cell, the run has lacked it. -/
def Monitor.host {σ : Type} (play : σ → Monitor → Option (σ × Monitor)) : Host (σ × Monitor) where
  ends state cpu :=
    match play state.1 (state.2.withCpu cpu) with
    | none => some .outOfRange
    | some _ => none
  act state cpu :=
    match play state.1 (state.2.withCpu cpu) with
    | none => (state, cpu)
    | some (result, monitor) => ((result, monitor), monitor.cpu)

/-- The result of a session and the monitor as it leaves it, absent when a cell was
missing. -/
def Session.play {α : Type} : Session α → Monitor → Option (α × Monitor)
  | .finish result, monitor => some (result, monitor)
  | .perform command _ next, monitor =>
      (monitor.perform command).bind fun (reply, after) => (next reply).play after
  | .run rounds start callback next, monitor =>
      let host := Monitor.host fun state => (callback state).play
      let finish := Cpu.runFor host rounds (start, monitor) monitor.cpu
      if finish.ending = .outOfRange then none
      else (next finish.ending finish.host.1).play (finish.host.2.withCpu finish.cpu)

/-- Numbers of cells that are enough for every address, that of a new machine among
them. -/
structure Sufficient (sizes : Set Nat) : Prop where
  full : ∀ size ∈ sizes, Memory.addressCount ≤ size
  new : Memory.addressCount ∈ sizes

theorem Sufficient.singleton : Sufficient {Memory.addressCount} :=
  ⟨fun _ hsize => Nat.le_of_eq hsize.symm, rfl⟩

namespace Monitor

/-- The numbers of cells of both machines are in a set. -/
structure Sized (sizes : Set Nat) (monitor : Monitor) : Prop where
  cpu : monitor.cpu.memory.size ∈ sizes
  saved : monitor.saved.memory.size ∈ sizes

variable {sizes : Set Nat} {monitor : Monitor}

theorem sized_initial (hsizes : Sufficient sizes) : initial.Sized sizes := by
  have hsize : Cpu.initial.memory.size = Memory.addressCount := Memory.size_blank
  exact ⟨hsize ▸ hsizes.new, hsize ▸ hsizes.new⟩

theorem Sized.withCpu (hsized : monitor.Sized sizes) {cpu : Cpu}
    (hsize : cpu.memory.size = monitor.cpu.memory.size) : (monitor.withCpu cpu).Sized sizes :=
  ⟨hsize ▸ hsized.cpu, hsized.saved⟩

/-- The reply to the end of a run that lacked no cell. -/
theorem endReply_of_sized {σ : Type} (hsized : monitor.Sized sizes) {finish : Finish σ}
    (reply : Reply)
    (hfinish : finish.cpu.memory.size = monitor.cpu.memory.size ∧ finish.ending ≠ .outOfRange) :
    ∃ next, monitor.endReply finish reply = some (reply, next) ∧ next.Sized sizes :=
  ⟨monitor.withCpu finish.cpu, if_neg hfinish.2, hsized.withCpu hfinish.1⟩

theorem runReply_of_sized (hsizes : Sufficient sizes) (hsized : monitor.Sized sizes) {cpu : Cpu}
    (hsize : cpu.memory.size = monitor.cpu.memory.size) :
    ∃ reply next, monitor.runReply cpu = some (reply, next) ∧ next.Sized sizes := by
  obtain ⟨hcells, hrange⟩ := Cpu.run_of_full (hsize ▸ hsizes.full _ hsized.cpu)
  exact ⟨_, endReply_of_sized hsized _ ⟨hcells.trans hsize, hrange⟩⟩

/-- Every command but one has a reply on a machine with enough cells, and leaves machines
with enough cells. -/
theorem perform_of_sized (hsizes : Sufficient sizes) (hsized : monitor.Sized sizes)
    {command : Command} (hown : command.restoresSnapshot = false) :
    ∃ reply next, monitor.perform command = some (reply, next) ∧ next.Sized sizes := by
  have hfull := hsizes.full _ hsized.cpu
  cases command with
  | restart => exact ⟨_, _, rfl, (sized_initial hsizes).cpu, hsized.saved⟩
  | save => exact ⟨_, _, rfl, hsized.cpu, hsized.cpu⟩
  | restore => exact ⟨_, _, rfl, hsized.saved, hsized.saved⟩
  | restoreSnapshot bytes => exact nomatch hown
  -- These leave the memory alone and do not look into it.
  | set | initialStatus | insertFlags | removeFlags | hasFlags | setA | setResult | memory
  | describe | snapshot | snapshotSize | snapshotInto | blankScreen | pixel | screenSize | draw =>
      exact ⟨_, _, rfl, hsized.cpu, hsized.saved⟩
  -- These only look into it.
  | read | readWord | dump | operandAddress | pop | popWord | updateScreen =>
      exact ⟨_, _, Memory.within_of_full hfull _ _, hsized.cpu, hsized.saved⟩
  | write address bytes =>
      exact ⟨_, _, Memory.within_of_full hfull _ _,
        hsized.withCpu (Memory.size_writeAll _ address bytes)⟩
  | writeWord address word =>
      exact ⟨_, _, Memory.within_of_full hfull _ _,
        hsized.withCpu (Memory.size_writeWord _ address word)⟩
  | push value =>
      exact ⟨_, _, Memory.within_of_full hfull _ _, hsized.withCpu (Cpu.size_push _ value)⟩
  | pushWord word =>
      exact ⟨_, _, Memory.within_of_full hfull _ _, hsized.withCpu (Cpu.size_pushWord _ word)⟩
  | execute instruction mode =>
      rw [perform, Cpu.execute?_of_full hfull]
      exact ⟨_, _, rfl, hsized.withCpu (Cpu.size_execute _ instruction mode)⟩
  | press text =>
      cases hkey : Direction.ofFirst? text with
      | none =>
          simp only [perform, hkey]
          exact ⟨_, _, rfl, hsized⟩
      | some direction =>
          simp only [perform, hkey]
          exact ⟨_, _, Memory.within_of_full hfull _ _,
            hsized.withCpu (Cpu.size_press _ direction)⟩
  | loadAt program origin =>
      rw [perform, Cpu.loadAt?_of_full hfull]
      exact ⟨_, _, rfl, hsized.withCpu (Cpu.size_loadAt hfull program origin)⟩
  | reset =>
      rw [perform, Cpu.reset?_of_full hfull]
      exact ⟨_, _, rfl, hsized.withCpu (Cpu.size_reset _)⟩
  | step count =>
      obtain ⟨list, last, hlist, hlast⟩ := Cpu.stepsFrom_of_full hfull [] count
      rw [perform, Cpu.steps?, hlist]
      exact ⟨_, _, rfl, hsized.withCpu hlast⟩
  | run => exact runReply_of_sized hsizes hsized rfl
  | loadAndRun program =>
      have hloaded := Cpu.size_loadAt hfull program Cpu.defaultOrigin
      have hcells := Nat.le_trans hfull (Nat.le_of_eq hloaded.symm)
      rw [perform, Cpu.loadAt?_of_full hfull, Option.bind_some, Cpu.reset?_of_full hcells,
        Option.bind_some]
      exact runReply_of_sized hsizes hsized ((Cpu.size_reset _).trans hloaded)
  | runScript script =>
      have hfinish := Cpu.runFor_of_full script.host hfull
        (fun number cpu hcells => (script.size_apply number cpu).trans hcells)
        (fun number cpu hcells => by
          rw [script.ends_host_of_full number (hcells ▸ hfull)]
          split <;> simp)
        Cpu.stepBound 0 rfl
      exact ⟨_, endReply_of_sized hsized _ hfinish⟩

/-- A list of such commands is performed to its end. -/
theorem performAll_of_sized (hsizes : Sufficient sizes) (hsized : monitor.Sized sizes)
    {commands : List Command} (hown : ∀ command ∈ commands, command.restoresSnapshot = false) :
    ∃ final, monitor.performAll commands = some final ∧ final.Sized sizes := by
  induction commands generalizing monitor with
  | nil => exact ⟨monitor, rfl, hsized⟩
  | cons command commands ih =>
      obtain ⟨reply, next, hnext, hsized'⟩ :=
        perform_of_sized hsizes hsized (hown command List.mem_cons_self)
      rw [performAll, hnext]
      exact ih hsized' fun later hlater => hown later (List.mem_cons_of_mem _ hlater)

end Monitor

namespace Session

variable {sizes : Set Nat} {monitor : Monitor}

/-- A session on machines with enough cells is played to its end and leaves machines with
enough cells. -/
theorem play_of_sized (hsizes : Sufficient sizes) {α : Type} (session : Session α)
    (hsized : monitor.Sized sizes) :
    ∃ result final, session.play monitor = some (result, final) ∧ final.Sized sizes := by
  induction session generalizing monitor with
  | finish result => exact ⟨result, monitor, rfl, hsized⟩
  | perform command hown next ih =>
      obtain ⟨reply, after, hperform, hafter⟩ := Monitor.perform_of_sized hsizes hsized hown
      obtain ⟨result, final, hplay, hfinal⟩ := ih reply hafter
      refine ⟨result, final, ?_, hfinal⟩
      rw [play, hperform, Option.bind_some]
      exact hplay
  | run rounds start callback next ihCallback ihNext =>
      obtain ⟨host, hhost⟩ : ∃ host, host = Monitor.host fun state => (callback state).play :=
        ⟨_, rfl⟩
      -- The monitor of the host keeps the machine as the last callback left it, so the
      -- invariant is about that monitor with the machine of the run put in its place.
      obtain ⟨hfinish, hlacks⟩ := @Cpu.runFor_invariant _ host
        (fun state cpu => (state.2.withCpu cpu).Sized sizes)
        (fun state cpu hstate _ => by
          obtain ⟨result, after, hplay, hafter⟩ := ihCallback state.1 hstate
          simp only [hhost, Monitor.host, hplay]
          exact hafter)
        (fun state cpu hstate => hstate.withCpu (Cpu.size_step cpu))
        rounds (start, monitor) monitor.cpu hsized
      have hending : (Cpu.runFor host rounds (start, monitor) monitor.cpu).ending ≠ .outOfRange := by
        intro hout
        obtain ⟨state, cpu, hstate, hends | hshort⟩ := hlacks hout
        · obtain ⟨result, after, hplay, -⟩ := ihCallback state.1 hstate
          simp [hhost, Monitor.host, hplay] at hends
        · exact absurd (hsizes.full _ hstate.cpu) (Nat.not_le_of_lt hshort)
      obtain ⟨result, final, hplay, hfinal⟩ := ihNext _ _ hfinish
      refine ⟨result, final, ?_, hfinal⟩
      rw [play, ← hhost]
      exact (if_neg hending).trans hplay

/-- Whatever a session on a new machine and a black screen does, it is played to its end,
every cell it needs is there, the machine has as many cells and the screen as many bytes
as at first, and no sum, product or difference that must not wrap does. -/
theorem stays_in_bounds :
    (∀ (α : Type) (session : Session α), ∃ result final,
      session.play Monitor.initial = some (result, final) ∧
        final.cpu.memory.size = Memory.addressCount ∧
        final.saved.memory.size = Memory.addressCount ∧
        final.screen.bytes.length = 3072) ∧
      ArithmeticFits := by
  refine ⟨fun α session => ?_, arithmeticFits⟩
  obtain ⟨result, final, hplay, hsized⟩ :=
    session.play_of_sized .singleton (Monitor.sized_initial .singleton)
  exact ⟨result, final, hplay, hsized.cpu, hsized.saved, final.screen.length_bytes⟩

end Session

end Machine6502
