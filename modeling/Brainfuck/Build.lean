import Brainfuck.Build.Compiler
import Brainfuck.Emit

/-! Building an executable. The generated source lives in a temporary file, which is removed however
the build ends. -/
namespace Brainfuck.Build

inductive BuildError
  | emit (error : Emit.EmitError)
  | rejected (source destination : Path)
  | raised (fault : Fault)
  deriving DecidableEq

def BuildError.message : BuildError → String
  | .emit e => e.message
  | .rejected source destination =>
    "Failed to compile generated program " ++ source.text ++ " into " ++ destination.text
  | .raised f => f.text

/-- A call of the toolchain, and what the temporary source held at that moment, if it existed. -/
structure Invocation where
  command : Option (List String)
  destination : Path
  source : Option String

/-- The text of the temporary source while it exists, the toolchain calls and the log. The fault of a write to
the temporary source, if it has one, goes by the number of earlier writes. -/
structure Workspace where
  writeFault : Nat → Option Fault
  source : Option String
  invocations : List Invocation
  log : List Log.Record

namespace Workspace

/-- Nothing has been done yet, and no write will fail. -/
def empty : Workspace := ⟨fun _ => none, none, [], []⟩

def record (records : List Log.Record) (w : Workspace) : Workspace :=
  { w with log := w.log ++ records }

/-- Removes the temporary source; if it is already gone, a warning says so. -/
def remove (source : Path) (w : Workspace) : Workspace :=
  match w.source with
  | some _ => { w with source := none }
  | none =>
    w.record [Compiler.record .warning
      ("Could not remove temporary source " ++ source.text ++
        ": [Errno 2] No such file or directory: " ++ Text.quoted source.text)]

end Workspace

/-- The name of the temporary source around some fresh letters. -/
def temporaryName (letters : String) : String := "brainfuck-program-" ++ letters ++ ".c"

/-- Calls the toolchain on the temporary source. -/
def invoke (toolchain : Toolchain) (source destination : Path) :
    EStateM BuildError Workspace Unit := fun w =>
  let reply := toolchain source destination
  let w : Workspace :=
    { w with
      source := if reply.deletesSource then none else w.source
      invocations := w.invocations ++ [⟨reply.command, destination, w.source⟩]
      log := w.log ++ reply.log }
  match reply.verdict with
  | .accepted => .ok () w
  | .rejected => .error (.rejected source destination) w
  | .raised f => .error (.raised f) w

/-- Creates the temporary source and writes the program to it. Closing it is one more write, of what has been
held back until then. -/
def writeSource (memorySize : Int) (p : Program) : EStateM BuildError Workspace Unit := fun w =>
  match Emit.generate memorySize p ⟨w.writeFault, "", 0⟩ with
  | .error (.emit e) o => .error (.emit e) { w with source := some o.written }
  | .error (.write f) o => .error (.raised f) { w with source := some o.written }
  | .ok _ o =>
    match w.writeFault o.writes with
    | some f => .error (.raised f) { w with source := some o.written }
    | none => .ok () { w with source := some o.written }

/-- Writes the temporary source and calls the toolchain. -/
def compile (memorySize : Int) (p : Program) (toolchain : Toolchain) (source destination : Path) :
    EStateM BuildError Workspace Unit := do
  writeSource memorySize p
  invoke toolchain source destination

/-- Builds the destination from a program. -/
def build (memorySize : Int) (p : Program) (toolchain : Toolchain) (source destination : Path) :
    EStateM BuildError Workspace Path := fun w =>
  match compile memorySize p toolchain source destination w with
  | .ok _ w =>
    .ok destination ((w.remove source).record
      [Compiler.record .debug ("Compiled executable -> " ++ destination.text)])
  | .error e w => .error e (w.remove source)

end Brainfuck.Build
