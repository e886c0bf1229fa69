import Machine6502.Monitor
import Machine6502.Proofs.FullMemory

/-!
# What commands leave

The monitor that a command leaves when it has a reply.  Whether it has one depends on the
cells it needs; what it leaves does not, so invariants of the monitor are proved about
this function.
-/

namespace Machine6502

namespace Monitor

/-- The monitor that a command leaves, if it has a reply.  A list of steps leaves what a
run of as many rounds leaves. -/
def after (monitor : Monitor) (command : Command) : Monitor :=
  let cpu := monitor.cpu
  let memory := cpu.memory
  match command with
  | .restart => monitor.withCpu .initial
  | .set changes => monitor.withCpu (changes.apply cpu)
  | .initialStatus => monitor.withCpu { cpu with status := .initial }
  | .insertFlags bits => monitor.withCpu { cpu with status := cpu.status.union (.ofByte bits) }
  | .removeFlags bits => monitor.withCpu { cpu with status := cpu.status.without (.ofByte bits) }
  | .setA value => monitor.withCpu (cpu.setResult .a value)
  | .setResult value => monitor.withCpu (cpu.withResult value)
  | .write address bytes => monitor.withCpu { cpu with memory := memory.writeAll address bytes }
  | .writeWord address word =>
      monitor.withCpu { cpu with memory := memory.writeWord address word }
  | .loadAt program origin => monitor.withCpu (cpu.loadAt program origin)
  | .reset => monitor.withCpu cpu.reset
  | .loadAndRun program => monitor.withCpu (cpu.loadAt program Cpu.defaultOrigin).reset.run.cpu
  | .run => monitor.withCpu cpu.run.cpu
  | .runScript script => monitor.withCpu (cpu.runWith script.host 0).cpu
  | .step count => monitor.withCpu (Cpu.runFor Cpu.idleHost count () cpu).cpu
  | .execute instruction mode => monitor.withCpu (instruction.execute mode cpu).2
  | .push value => monitor.withCpu (cpu.push value)
  | .pushWord word => monitor.withCpu (cpu.pushWord word)
  | .pop => monitor.withCpu cpu.pop.2
  | .popWord => monitor.withCpu cpu.popWord.2
  | .save => { monitor with saved := cpu }
  | .restore => monitor.withCpu monitor.saved
  | .restoreSnapshot bytes =>
      match Snapshot.decode bytes with
      | .ok next => monitor.withCpu next
      | .error _ => monitor
  | .press text =>
      match Direction.ofFirst? text with
      | none => monitor
      | some direction => monitor.withCpu (direction.press cpu)
  | .blankScreen => { monitor with screen := .blank }
  | .updateScreen => { monitor with screen := (monitor.screen.update memory).2 }
  | _ => monitor

variable {monitor : Monitor}

@[simp]
theorem withCpu_cpu (cpu : Cpu) : (monitor.withCpu cpu).cpu = cpu := rfl

theorem endReply_snd {σ : Type} {finish : Finish σ} {reply : Reply} :
    ∀ result ∈ monitor.endReply finish reply, result.2 = monitor.withCpu finish.cpu := by
  intro result hresult
  rw [endReply] at hresult
  split at hresult
  · exact nomatch hresult
  · exact (congrArg Prod.snd (Option.some.inj hresult)).symm

/-- A command that has a reply leaves the monitor that it is said to leave. -/
theorem perform_snd {command : Command} :
    ∀ result ∈ monitor.perform command, result.2 = monitor.after command := by
  intro result hresult
  cases command with
  | restart | set | initialStatus | insertFlags | removeFlags | hasFlags | setA | setResult
  | memory | describe | save | restore | snapshot | snapshotSize | snapshotInto | blankScreen
  | pixel | screenSize | draw =>
      exact (congrArg Prod.snd (Option.some.inj hresult)).symm
  | read | readWord | write | writeWord | dump | operandAddress | push | pushWord | pop | popWord
  | updateScreen =>
      exact congrArg Prod.snd (Memory.eq_of_mem_within hresult)
  | restoreSnapshot bytes =>
      cases hdecode : Snapshot.decode bytes <;>
        · simp only [perform, hdecode] at hresult
          simp only [after, hdecode]
          exact (congrArg Prod.snd (Option.some.inj hresult)).symm
  | press text =>
      cases hkey : Direction.ofFirst? text with
      | none =>
          simp only [perform, hkey] at hresult
          simp only [after, hkey]
          exact (congrArg Prod.snd (Option.some.inj hresult)).symm
      | some direction =>
          simp only [perform, hkey] at hresult
          simp only [after, hkey]
          exact congrArg Prod.snd (Memory.eq_of_mem_within hresult)
  | execute instruction mode =>
      obtain ⟨executed, hexecuted, rfl⟩ := Option.map_eq_some_iff.mp hresult
      rw [Memory.eq_of_mem_within hexecuted]
      rfl
  | loadAt program origin =>
      obtain ⟨loaded, hloaded, rfl⟩ := Option.map_eq_some_iff.mp hresult
      rw [Cpu.eq_of_mem_loadAt? hloaded]
      rfl
  | reset =>
      obtain ⟨next, hnext, rfl⟩ := Option.map_eq_some_iff.mp hresult
      rw [Memory.eq_of_mem_within hnext]
      rfl
  | step count =>
      obtain ⟨listed, hlisted, rfl⟩ := Option.map_eq_some_iff.mp hresult
      obtain ⟨⟨list, last⟩, hlist, rfl⟩ := Option.map_eq_some_iff.mp hlisted
      rw [Cpu.cpu_of_stepsFrom hlist]
      rfl
  | run => exact endReply_snd result hresult
  | runScript script => exact endReply_snd result hresult
  | loadAndRun program =>
      obtain ⟨loaded, hloaded, hrest⟩ := Option.bind_eq_some_iff.mp hresult
      obtain ⟨next, hnext, hrun⟩ := Option.bind_eq_some_iff.mp hrest
      rw [Cpu.eq_of_mem_loadAt? hloaded] at hnext
      rw [Memory.eq_of_mem_within hnext] at hrun
      exact endReply_snd result hrun

end Monitor

end Machine6502
