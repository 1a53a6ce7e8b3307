import Brainfuck.Streams
import Brainfuck.Tape
import Brainfuck.Walk

/-! What each instruction does to the tape and the streams, and how steps are counted: every simple
instruction before it acts, and every test of a loop's cell. -/
namespace Brainfuck

inductive RunError
  | size (error : SizeError)
  | tape (error : TapeError)
  | endOfInput
  | cannotRead (fault : Fault)
  | cannotWrite (fault : Fault)
  | cannotFlush (fault : Fault)
  | stepLimit
  | unsupported
  | raised (fault : Fault)
  deriving DecidableEq

namespace RunError

def message : RunError → String
  | size e => e.message
  | tape e => e.message
  | endOfInput => "Cannot read from input: end of stream"
  | cannotRead f => "Cannot read from input: " ++ f.text
  | cannotWrite f => "Cannot write to output: " ++ f.text
  | cannotFlush f => "Cannot flush output: " ++ f.text
  | stepLimit => "Brainfuck program exceeded allowed step count"
  | unsupported => "Unsupported instruction: Unknown()"
  | raised f => f.text

/-- A failure of the program being run, which the front ends report; any other error escapes them. -/
def isFailure : RunError → Bool
  | tape (.negativeAddress _ _) => true
  | endOfInput => true
  | cannotRead _ => true
  | cannotWrite _ => true
  | cannotFlush _ => true
  | stepLimit => true
  | _ => false

/-- System faults become failures of the program; any other fault passes through. -/
def ofFault (wrap : Fault → RunError) (f : Fault) : RunError :=
  if f.isSystem then wrap f else raised f

end RunError

structure Machine where
  tape : Tape
  streams : Streams
  steps : Nat

namespace Machine

variable {α : Type}

def onTape (x : EStateM TapeError Tape α) : EStateM RunError Machine α := fun m =>
  match m with
  | ⟨tape, streams, steps⟩ =>
    match x tape with
    | .ok a tape => .ok a ⟨tape, streams, steps⟩
    | .error e tape => .error (.tape e) ⟨tape, streams, steps⟩

def onStreams (wrap : Fault → RunError) (x : EStateM Fault Streams α) :
    EStateM RunError Machine α := fun m =>
  match m with
  | ⟨tape, streams, steps⟩ =>
    match x streams with
    | .ok a streams => .ok a ⟨tape, streams, steps⟩
    | .error f streams => .error (.ofFault wrap f) ⟨tape, streams, steps⟩

theorem onTape_apply (x : EStateM TapeError Tape α) (m : Machine) :
    onTape x m =
      match x m.tape with
      | .ok a t => .ok a { m with tape := t }
      | .error e t => .error (.tape e) { m with tape := t } := by
  obtain ⟨tape, streams, steps⟩ := m
  rfl

theorem onStreams_apply (wrap : Fault → RunError) (x : EStateM Fault Streams α) (m : Machine) :
    onStreams wrap x m =
      match x m.streams with
      | .ok a s => .ok a { m with streams := s }
      | .error f s => .error (.ofFault wrap f) { m with streams := s } := by
  obtain ⟨tape, streams, steps⟩ := m
  rfl

/-- A step beyond the budget is counted and fails. -/
def countStep (budget : Option Int) : EStateM RunError Machine Unit := fun m =>
  match m with
  | ⟨tape, streams, steps⟩ =>
    let m := ⟨tape, streams, steps + 1⟩
    match budget with
    | none => .ok () m
    | some limit => if limit < (steps + 1 : Nat) then .error .stepLimit m else .ok () m

def output : EStateM RunError Machine Unit := do
  let b ← onTape Tape.read
  onStreams .cannotWrite (Streams.write b)

/-- Pending output is flushed before a byte is read. -/
def input : EStateM RunError Machine Unit := do
  onStreams .cannotFlush Streams.flush
  match ← onStreams .cannotRead Streams.read with
  | none => throw .endOfInput
  | some b => onTape (Tape.write b.toNat)

def act : Action → EStateM RunError Machine Unit
  | .apply op n => onTape (Tape.apply op n.val)
  | .output => output
  | .input => input
  | .unknown => throw .unsupported

/-- Whether the cell under the cursor is not zero. -/
def test : EStateM RunError Machine Bool := do
  return (← onTape Tape.read) != 0

/-- The visitor that runs a program within a budget of steps. -/
def runner (budget : Option Int) : Visitor RunError Machine where
  act a := do
    countStep budget
    act a
  enter _ := do
    countStep budget
    test
  again _ := do
    countStep budget
    test

end Machine

end Brainfuck
