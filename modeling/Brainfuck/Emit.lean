import Brainfuck.Emit.Frame
import Brainfuck.Emit.Statement
import Brainfuck.Fault

/-! The generated program as the pieces in which it is written, one by one, to an output that may fail. -/
namespace Brainfuck.Emit

/-- The opening, every line and its end of line apart, and the closing. All lines are known before
anything is written. -/
def pieces (memorySize : Int) (p : Program) : Except EmitError (List String) :=
  (lines memorySize p).map fun ls =>
    opening :: ls.flatMap (fun l => [l.text, "\n"]) ++ [closing]

def source (memorySize : Int) (p : Program) : Except EmitError String :=
  (pieces memorySize p).map String.join

/-- A text output. The fault of a write, if it has one, goes by the number of earlier writes. -/
structure TextOutput where
  fault : Nat → Option Fault
  written : String
  writes : Nat

namespace TextOutput

/-- All writes fail from the given one on. -/
def failingFrom (failAt : Nat) (f : Fault) : TextOutput :=
  ⟨fun n => if failAt ≤ n then some f else none, "", 0⟩

/-- A text whose write fails is not kept. -/
def write (text : String) : EStateM Fault TextOutput Unit := fun o =>
  match o with
  | ⟨fault, written, writes⟩ =>
    match fault writes with
    | some f => .error f ⟨fault, written, writes + 1⟩
    | none => .ok () ⟨fault, written ++ text, writes + 1⟩

/-- The first write that fails is the last. -/
def writeAll : List String → EStateM Fault TextOutput Unit
  | [] => pure ()
  | text :: texts => do
    write text
    writeAll texts

end TextOutput

inductive GenerateError
  | emit (error : EmitError)
  | write (fault : Fault)

/-- Writes the generated program to an output. -/
def generate (memorySize : Int) (p : Program) : EStateM GenerateError TextOutput Unit := fun o =>
  match pieces memorySize p with
  | .error e => .error (.emit e) o
  | .ok ps =>
    match TextOutput.writeAll ps o with
    | .ok _ o => .ok () o
    | .error f o => .error (.write f) o

/-- What reaches an output of which all writes fail from the given one on, and whether one did. -/
def writtenBefore (failAt : Nat) (pieces : List String) : String × Bool :=
  match TextOutput.writeAll pieces (.failingFrom failAt ⟨.system, none, "write failed"⟩) with
  | .ok _ o => (o.written, false)
  | .error _ o => (o.written, true)

end Brainfuck.Emit
