import Machine6502.Monitor
import Machine6502.Main
import Machine6502.Proofs.Bits
import Machine6502.Proofs.Fetch
import Machine6502.Proofs.ProgramCounter
import Machine6502.Proofs.DataPath
import Machine6502.Proofs.Flags
import Machine6502.Proofs.SnapshotFormat
import Machine6502.Proofs.Outcome
import Machine6502.Proofs.Runs
import Machine6502.Proofs.FullMemory
import Machine6502.Proofs.Endings
import Machine6502.Proofs.Resumption
import Machine6502.Proofs.CheckedArithmetic
import Machine6502.Proofs.Sessions
import Machine6502.Proofs.RestoredMachine
import Machine6502.Proofs.PairedRuns
import Machine6502.Proofs.Locality
import Machine6502.Proofs.Noninterference
import Machine6502.Proofs.Loading
import Machine6502.Proofs.StraightLine
import Machine6502.Proofs.Commands
import Machine6502.Proofs.StatusMarks
import Machine6502.Proofs.HaltedFlag
import Machine6502.Proofs.BreakHistory
import Machine6502.Proofs.Display
import Machine6502.Proofs.RunnerScreen
import Machine6502.Proofs.Stores
import Machine6502.Proofs.Views
import Machine6502.Proofs.ViewSteps
import Machine6502.Proofs.ProgramSteps
import Machine6502.Proofs.SnakeGrid
import Machine6502.Proofs.SnakeBoard
import Machine6502.Proofs.SnakeRoutines
import Machine6502.Proofs.SnakePlay
import Machine6502.Proofs.SnapshotReaders
import Machine6502.Proofs.SnapshotGrammar
import Machine6502.Proofs.Stack
import Machine6502.Proofs.Calls
import Machine6502.Proofs.CallNesting
import Machine6502.Proofs.Addition
import Machine6502.Proofs.Subtraction
import Machine6502.Proofs.BitMoves
import Machine6502.Proofs.ShiftChains
import Machine6502.Proofs.Comparisons
import Machine6502.Proofs.InterruptFrames
import Machine6502.Proofs.BulkCopy
import Machine6502.Proofs.FrameBuffer
import Machine6502.Proofs.PrintedFrame
import Machine6502.Proofs.OriginGrammar
import Machine6502.Proofs.DirectCalls
import Machine6502.Proofs.SnapshotWriters
import Machine6502.Proofs.TruncatedSnapshots
import Machine6502.Proofs.Keyboard
