import Brainfuck.Machine
import Brainfuck.Program.Optimize
import Brainfuck.Program.Parse

/-! Interpreting programs. An interpreter keeps the tape of its last run, and each run starts with a
fresh one. A run is given a number of rounds, since it need not end by itself. -/
namespace Brainfuck

structure Interpreter where
  room : Nat
  memorySize : Int
  budget : Option Int
  tape : Tape

/-- How a run stands after its rounds. -/
inductive Ending
  | finished
  | failed (error : RunError)
  | unfinished
  deriving DecidableEq

structure Run where
  interpreter : Interpreter
  streams : Streams
  steps : Nat
  ending : Ending

namespace Interpreter

def create (room : Nat) (memorySize : Int) (budget : Option Int) : Except SizeError Interpreter :=
  (Tape.create room memorySize).map (⟨room, memorySize, budget, ·⟩)

/-- A fresh tape, or the old one if there can be none. Memory is asked for the fresh tape alone, though the
old one is still there. -/
def reset : EStateM SizeError Interpreter Unit := fun i =>
  match Tape.create i.room i.memorySize with
  | .ok tape => .ok () { i with tape }
  | .error e => .error e i

/-- At most the given number of rounds of a run. -/
def run (i : Interpreter) (rounds : Nat) (p : Program) (streams : Streams) : Run :=
  match i.reset with
  | .error e i => ⟨i, streams, 0, .failed (.size e)⟩
  | .ok _ ⟨room, memorySize, budget, tape⟩ =>
    match (Machine.runner budget).walk rounds p ⟨tape, streams, 0⟩ with
    | .ok frames ⟨tape, streams, steps⟩ =>
      ⟨⟨room, memorySize, budget, tape⟩, streams, steps,
        if frames.isEmpty then .finished else .unfinished⟩
    | .error e ⟨tape, streams, steps⟩ =>
      ⟨⟨room, memorySize, budget, tape⟩, streams, steps, .failed e⟩

def display (i : Interpreter) : String :=
  "BrainfuckInterpreter(memory_size=" ++ toString i.memorySize ++ ", max_steps=" ++
    (match i.budget with
      | none => "None"
      | some n => toString n) ++ ")"

end Interpreter

inductive SourceError
  | parse (error : ParseError)
  | run (error : RunError)
  | unfinished
  deriving DecidableEq

/-- The bytes that a source text writes when it is run on the given input. -/
def runSource (rounds room : Nat) (source : String) (input : List UInt8) (memorySize : Int)
    (budget : Option Int) (optimized : Bool) : Except SourceError (List UInt8) := do
  let p ← (Program.parse source).mapError .parse
  let p := if optimized then p.optimize else p
  let i ← (Interpreter.create room memorySize budget).mapError (.run ∘ .size)
  let r := i.run rounds p (.ofBytes input)
  match r.ending with
  | .finished => .ok r.streams.written.toList
  | .failed e => .error (.run e)
  | .unfinished => .error .unfinished

end Brainfuck
