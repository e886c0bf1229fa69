import Machine6502.Script
import Machine6502.Snake
import Machine6502.Snapshot

/-!
# The monitor

A machine at hand: every operation on the processor, its memory, its snapshots and
a screen is a command, and each command has a reply.  A command has no reply when
it needs a cell that the memory does not have.
-/

namespace Machine6502

structure RegisterChanges where
  a : Option UInt8
  x : Option UInt8
  y : Option UInt8
  s : Option UInt8
  pc : Option UInt16
  status : Option UInt8

def RegisterChanges.apply (changes : RegisterChanges) (cpu : Cpu) : Cpu :=
  { cpu with
    a := changes.a.getD cpu.a
    x := changes.x.getD cpu.x
    y := changes.y.getD cpu.y
    s := changes.s.getD cpu.s
    pc := changes.pc.getD cpu.pc
    status := (changes.status.map Status.ofByte).getD cpu.status }

inductive Command where
  | restart
  | set (changes : RegisterChanges)
  | initialStatus
  | insertFlags (bits : UInt8)
  | removeFlags (bits : UInt8)
  | hasFlags (bits : UInt8)
  | setA (value : UInt8)
  | setResult (value : UInt8)
  | read (address : UInt16)
  | readWord (address : UInt16)
  | write (address : UInt16) (bytes : List UInt8)
  | writeWord (address word : UInt16)
  | dump (address : UInt16) (count : Nat)
  | memory
  | loadAt (program : List UInt8) (origin : UInt16)
  | reset
  | loadAndRun (program : List UInt8)
  | run
  | runScript (script : Script)
  | step (count : Nat)
  | execute (instruction : Instruction) (mode : Mode)
  | operandAddress (mode : Mode)
  | push (value : UInt8)
  | pushWord (word : UInt16)
  | pop
  | popWord
  | describe
  | save
  | restore
  | snapshot
  | snapshotSize
  | snapshotInto (buffer : List UInt8)
  | restoreSnapshot (bytes : List UInt8)
  | press (text : String)
  | blankScreen
  | updateScreen
  | pixel (x y : Nat)
  | screenSize
  | draw

namespace Command

/-- Loads a program where programs go. -/
def load (program : List UInt8) : Command :=
  .loadAt program Cpu.defaultOrigin

def loadSnake : Command :=
  .loadAt Snake.program Snake.origin

end Command

inductive Reply where
  | done
  | flag (value : Bool)
  | byte (value : UInt8)
  | word (value : UInt16)
  | size (value : Nat)
  | bytes (values : List UInt8)
  | memory (cells : Memory)
  | text (text : String)
  | executed (fault : Option Fault)
  | address (result : Except Fault UInt16)
  | ran (ending : Ending)
  | ranScript (ending : Ending) (calls : Nat)
  | steps (list : List (Outcome × Registers))
  | snapshot (bytes : List UInt8)
  | written (result : Except SnapshotError (List UInt8))
  | restored (error : Option SnapshotError)
  | direction (direction : Option Direction)
  | shown (changed : Bool) (screen : Screen)
  | pixel (color : Option Color)
  | dimensions (width height : Nat)

/-- A machine, another one that was saved, and a screen. -/
structure Monitor where
  cpu : Cpu
  saved : Cpu
  screen : Screen

namespace Monitor

/-- A new machine, with another new one saved, and a black screen. -/
def initial : Monitor := ⟨.initial, .initial, .blank⟩

def withCpu (monitor : Monitor) (cpu : Cpu) : Monitor :=
  { monitor with cpu }

/-- The reply to the end of a run, absent when a cell was missing. -/
def endReply {σ : Type} (monitor : Monitor) (finish : Finish σ) (reply : Reply) :
    Option (Reply × Monitor) :=
  if finish.ending = .outOfRange then none else some (reply, monitor.withCpu finish.cpu)

def runReply (monitor : Monitor) (cpu : Cpu) : Option (Reply × Monitor) :=
  let finish := cpu.run
  monitor.endReply finish (.ran finish.ending)

def perform (monitor : Monitor) (command : Command) : Option (Reply × Monitor) :=
  let cpu := monitor.cpu
  let memory := cpu.memory
  let become (cpu : Cpu) : Reply × Monitor := (.done, monitor.withCpu cpu)
  let answer (reply : Reply) : Reply × Monitor := (reply, monitor)
  match command with
  | .restart => some (become .initial)
  | .set changes => some (become (changes.apply cpu))
  | .initialStatus => some (become { cpu with status := .initial })
  | .insertFlags bits => some (become { cpu with status := cpu.status.union (.ofByte bits) })
  | .removeFlags bits => some (become { cpu with status := cpu.status.without (.ofByte bits) })
  | .hasFlags bits => some (answer (.flag (cpu.status.includes (.ofByte bits))))
  | .setA value => some (become (cpu.setResult .a value))
  | .setResult value => some (become (cpu.withResult value))
  | .read address => memory.within [address] (answer (.byte (cpu.read address)))
  | .readWord address =>
      memory.within (Memory.range address 2) (answer (.word (memory.readWord address)))
  | .write address bytes =>
      memory.within (Memory.range address bytes.length)
        (become { cpu with memory := memory.writeAll address bytes })
  | .writeWord address word =>
      memory.within (Memory.range address 2)
        (become { cpu with memory := memory.writeWord address word })
  | .dump address count =>
      memory.within (Memory.range address count)
        (answer (.bytes (memory.readAll address count)))
  | .memory => some (answer (.memory memory))
  | .loadAt program origin => (cpu.loadAt? program origin).map become
  | .reset => cpu.reset?.map become
  | .loadAndRun program =>
      (cpu.loadAt? program Cpu.defaultOrigin).bind fun loaded =>
        loaded.reset?.bind monitor.runReply
  | .run => monitor.runReply cpu
  | .runScript script =>
      let finish := cpu.runWith script.host 0
      monitor.endReply finish (.ranScript finish.ending finish.host)
  | .step count =>
      (cpu.steps? count).map fun (list, next) => (.steps list, monitor.withCpu next)
  | .execute instruction mode =>
      (cpu.execute? instruction mode).map fun (fault, next) =>
        (.executed fault, monitor.withCpu next)
  | .operandAddress mode =>
      memory.within (mode.needed cpu) (answer (.address (cpu.operandAddress mode)))
  | .push value => memory.within (cpu.pushCells 1) (become (cpu.push value))
  | .pushWord word => memory.within (cpu.pushCells 2) (become (cpu.pushWord word))
  | .pop => memory.within (cpu.popCells 1) (.byte cpu.pop.1, monitor.withCpu cpu.pop.2)
  | .popWord =>
      memory.within (cpu.popCells 2) (.word cpu.popWord.1, monitor.withCpu cpu.popWord.2)
  | .describe => some (answer (.text cpu.describe))
  | .save => some (.done, { monitor with saved := cpu })
  | .restore => some (become monitor.saved)
  | .snapshot => some (answer (.snapshot (Snapshot.encode cpu)))
  | .snapshotSize => some (answer (.size (Snapshot.size cpu)))
  | .snapshotInto buffer => some (answer (.written (Snapshot.encodeInto cpu buffer)))
  | .restoreSnapshot bytes =>
      match Snapshot.decode bytes with
      | .ok next => some (.restored none, monitor.withCpu next)
      | .error error => some (answer (.restored (some error)))
  | .press text =>
      match Direction.ofFirst? text with
      | none => some (answer (.direction none))
      | some direction =>
          memory.within [Direction.cell]
            (.direction (some direction), monitor.withCpu (direction.press cpu))
  | .blankScreen => some (.done, { monitor with screen := .blank })
  | .updateScreen =>
      let (changed, screen) := monitor.screen.update memory
      memory.within [Screen.last] (.shown changed screen, { monitor with screen })
  | .pixel x y => some (answer (.pixel (monitor.screen.pixel? x y)))
  | .screenSize => some (answer (.dimensions Screen.width Screen.height))
  | .draw => some (answer (.text monitor.screen.draw))

def events (monitor : Monitor) (command : Command) : List Event :=
  let cpu := monitor.cpu
  match command with
  | .loadAt program origin => Cpu.loadEvents program origin
  | .reset => cpu.resetEvents
  | .loadAndRun program =>
      let loaded := cpu.loadAt program Cpu.defaultOrigin
      Cpu.loadEvents program Cpu.defaultOrigin ++ loaded.resetEvents ++
        Cpu.runEvents Cpu.idleHost (fun _ _ => []) () loaded.reset
  | .run => Cpu.runEvents Cpu.idleHost (fun _ _ => []) () cpu
  | .runScript script => Cpu.runEvents script.host script.events 0 cpu
  | .step count => cpu.stepsEvents count
  | .execute instruction _ => instruction.events cpu
  | .push value => cpu.pushEvents [value]
  | .pushWord word => cpu.pushWordEvents word
  | .pop => cpu.popEvents 1
  | .popWord => cpu.popEvents 2
  | .press text => (Direction.ofFirst? text).toList.map .input
  | .updateScreen =>
      if (monitor.screen.update cpu.memory).1 then [.screenUpdate] else []
  | _ => []

/-- The monitor after a list of commands, absent when one of them has no reply. -/
def performAll (monitor : Monitor) : List Command → Option Monitor
  | [] => some monitor
  | command :: commands =>
      (monitor.perform command).bind fun (_, next) => next.performAll commands

end Monitor

end Machine6502
