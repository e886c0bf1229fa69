import Machine6502.Terminal

/-!
# The program

Three tasks share a screen and a place for one direction: the keyboard reads lines,
the runner executes the program at a moderate speed, and the display draws a picture
whenever one waits.
-/

namespace Machine6502

namespace Program

def readArguments (arguments : List String) : IO (Except ProgramError Program) := do
  let file : Except String (List UInt8) ←
    match arguments with
    | [] => pure (.ok [])
    | path :: _ =>
        try
          let bytes ← IO.FS.readBinFile path
          pure (.ok bytes.toList)
        catch error => pure (.error (toString error))
  return ofArguments (fun _ => file) arguments

end Program

namespace Terminal

/-- The keyboard: reads lines until there are no more. -/
partial def keyboard (shared : IO.Ref Shared) (input : IO.FS.Stream) : IO Unit := do
  let line ← input.getLine
  unless line.isEmpty do
    shared.modify fun state => state.readLine line
    keyboard shared input

/-- The number of steps between two pauses of a millisecond. -/
def stepsPerPause : Nat := 11

/-- Shows the picture in memory and notes it when it differs. -/
def refresh (shared : IO.Ref Shared) (memory : Memory) : IO Unit := do
  let changed ← shared.modifyGet fun state => state.showPicture memory
  if changed then
    shared.modify Shared.requestRedraw

/-- The runner: executes a program to its end and shows the final picture. -/
partial def runner (shared : IO.Ref Shared) (steps : Nat) (cpu : Cpu) : IO Ending := do
  unless steps = 0 do
    refresh shared cpu.memory
    if steps % stepsPerPause = 0 then
      IO.sleep 1
  let waiting ← shared.modifyGet Shared.take
  let random ← IO.rand Runner.leastRandom Runner.greatestRandom
  match (Runner.provide waiting (UInt8.ofNat random) cpu).step with
  | (.continued, next) => runner shared (steps + 1) next
  | (.halted, next) =>
      refresh shared next.memory
      return .halted
  | (.failed fault, next) =>
      refresh shared next.memory
      return .failed fault

/-- The display: draws the screen when a picture waits, and looks again after a
while, until it had found the runner finished before it looked. -/
partial def display (shared : IO.Ref Shared) (worker : Task (Except IO.Error Ending))
    (output : IO.FS.Stream) : IO Unit := do
  let finished ← IO.hasFinished worker
  let requested ← shared.modifyGet Shared.takeRequest
  if requested then
    let state ← shared.get
    output.putStr state.screen.draw
    output.flush
  unless finished do
    IO.sleep 50
    display shared worker output

def play (program : Program) : IO UInt32 := do
  let shared ← IO.mkRef Shared.blank
  let input ← IO.getStdin
  let output ← IO.getStdout
  let _ ← IO.asTask (keyboard shared input) .dedicated
  let worker ← IO.asTask (runner shared 0 program.boot) .dedicated
  output.putStr clear
  display shared worker output
  let ending ← IO.ofExcept (← IO.wait worker)
  let (code, errors) := verdict ending
  errors.forM fun error => IO.eprintln error
  return UInt32.ofNat code

end Terminal

end Machine6502

def main (arguments : List String) : IO UInt32 := do
  match ← Machine6502.Program.readArguments arguments with
  | .ok program => Machine6502.Terminal.play program
  | .error _ =>
      IO.eprintln Machine6502.Terminal.usage
      return 1
