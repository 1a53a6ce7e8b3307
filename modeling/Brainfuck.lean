import Brainfuck.Http
import Brainfuck.Main
import Brainfuck.Program.Display
import Brainfuck.Proofs.Execution.Outcome
import Brainfuck.Proofs.Execution.Source
import Brainfuck.Proofs.Execution.Related
import Brainfuck.Proofs.Execution.Lockstep
import Brainfuck.Proofs.Execution.MemorySize
import Brainfuck.Proofs.Execution.Session
import Brainfuck.Proofs.Parse.Brackets
import Brainfuck.Server
import Brainfuck.Walk.Trace
import Brainfuck.Proofs.Tape.Same
import Brainfuck.Proofs.Tape.Bounds
import Brainfuck.Proofs.Tape.Beside
import Brainfuck.Proofs.Tape.Merge
import Brainfuck.Proofs.Optimize.Agreement
import Brainfuck.Proofs.Optimize.Runs
import Brainfuck.Proofs.Optimize.Transparency
import Brainfuck.Proofs.Emit.Reading
import Brainfuck.Proofs.Emit.Translation
import Brainfuck.Proofs.Emit.Runtime
import Brainfuck.Proofs.Emit.Correspondence
import Brainfuck.Proofs.Emit.Simulation
import Brainfuck.Proofs.Emit.Equivalence
import Brainfuck.Proofs.Emit.WholeRuns
import Brainfuck.Proofs.Optimize.Units
import Brainfuck.Proofs.Program.Spelling
import Brainfuck.Proofs.Parse.Spelled
import Brainfuck.Proofs.Parse.Comments
import Brainfuck.Proofs.Optimize.Canonical
import Brainfuck.Proofs.Execution.Budget
import Brainfuck.Proofs.Execution.Bounds
import Brainfuck.Proofs.Optimize.Budget
import Brainfuck.Proofs.Http.Run
import Brainfuck.Proofs.Optimize.Merged
import Brainfuck.Proofs.Emit.Layout
import Brainfuck.Proofs.Emit.Determined
import Brainfuck.Proofs.Build.TemporarySource
import Brainfuck.Proofs.Execution.Failures
import Brainfuck.Proofs.CommandLine.Settings
import Brainfuck.Proofs.Escapes
import Brainfuck.Proofs.Emit.Writing
import Brainfuck.Proofs.Tape.Endless
import Brainfuck.Proofs.Execution.Script
import Brainfuck.Proofs.Execution.Conversation
import Brainfuck.Proofs.Execution.Discipline
import Brainfuck.Proofs.Execution.Lookahead
import Brainfuck.Proofs.Tape.Footprint
import Brainfuck.Proofs.Walk.Recursion
import Brainfuck.Proofs.Http.Termination
import Brainfuck.Proofs.Program.Nested
import Brainfuck.Proofs.Http.Parse
import Brainfuck.Proofs.Optimize.Size
import Brainfuck.Proofs.Text.Utf8
import Brainfuck.Proofs.Text.Newline
import Brainfuck.Proofs.Parse.LineEnds
import Brainfuck.Proofs.Path
import Brainfuck.Proofs.Execution.Inputs
import Brainfuck.Proofs.CommandLine.Interpret
import Brainfuck.Proofs.CommandLine.Destination
import Brainfuck.Proofs.Blame
import Brainfuck.Proofs.Tape.Summed
import Brainfuck.Program.Merging
import Brainfuck.Proofs.Optimize.Rounds
import Brainfuck.Proofs.Walk.Unhandled
import Brainfuck.Proofs.Text.Integer
