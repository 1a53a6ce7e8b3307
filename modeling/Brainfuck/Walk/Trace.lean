import Brainfuck.Walk
import Brainfuck.Program.Measure

/-! The handler calls of a walk whose answers about loops come from a list; once it is used up every
answer is no. -/
namespace Brainfuck

inductive WalkError
  | unsupported
  | unimplemented
  deriving DecidableEq

def WalkError.message : WalkError → String
  | .unsupported => "Unsupported instruction: Unknown()"
  | .unimplemented => ""

/-- One handler call; those about loops show the length of the body and the answer given. -/
inductive Call
  | act (action : Action)
  | enter (length : Nat) (answer : Bool)
  | again (length : Nat) (answer : Bool)
  deriving DecidableEq

structure Recording where
  answers : List Bool
  calls : Array Call

variable {σ : Type}

namespace Visitor

/-- Handles nothing. -/
def bare : Visitor WalkError σ where
  act
    | .unknown => throw .unsupported
    | _ => throw .unimplemented
  enter _ := throw .unimplemented
  again _ := throw .unimplemented

/-- Enters every loop and handles nothing else. -/
def entering : Visitor WalkError σ := { bare with enter := fun _ => pure true }

/-- Takes the next answer and records the call it belongs to. -/
def answer (call : Bool → Call) : EStateM WalkError Recording Bool := fun r =>
  match r with
  | ⟨[], calls⟩ => .ok false ⟨[], calls.push (call false)⟩
  | ⟨a :: answers, calls⟩ => .ok a ⟨answers, calls.push (call a)⟩

def recorder : Visitor WalkError Recording where
  act
    | .unknown => throw .unsupported
    | a => modify fun ⟨answers, calls⟩ => ⟨answers, calls.push (.act a)⟩
  enter body := answer (.enter body.length)
  again body := answer (.again body.length)

end Visitor

/-- What a walk left behind: the calls it recorded and, if it stopped early, why. -/
structure Trace where
  calls : Array Call
  failure : Option WalkError

namespace Trace

def ofResult {α : Type} : EStateM.Result WalkError Recording α → Trace
  | .ok _ r => ⟨r.calls, none⟩
  | .error e r => ⟨r.calls, some e⟩

end Trace

namespace Program

/-- Each answer opens at most one pass, and no pass is longer than the program has nodes. -/
def traceRounds (answers : List Bool) (p : Program) : Nat :=
  (answers.length + 1) * (p.size + 1)

def trace (answers : List Bool) (p : Program) : Trace :=
  .ofResult (Visitor.recorder.walk (p.traceRounds answers) p ⟨answers, #[]⟩)

/-- The walk of a visitor that handles nothing, which ends at the first instruction. -/
def bareTrace (p : Program) : Trace :=
  .ofResult (Visitor.bare.walk (p.size + 1) p ⟨[], #[]⟩)

/-- The walk that only enters loops, which ends at the first instruction or body end inside one. -/
def enteringTrace (p : Program) : Trace :=
  .ofResult (Visitor.entering.walk (p.size + 2) p ⟨[], #[]⟩)

end Program

end Brainfuck
