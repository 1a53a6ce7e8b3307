import Brainfuck.Instruction

/-! Merging: adjacent applications of one tape operation become one whose count is the sum. -/
namespace Brainfuck

namespace Program

/-- Adds an instruction after those of `done`, which holds its last instruction first. -/
def merge (done : List Instruction) (next : Instruction) : List Instruction :=
  match done, next with
  | .act (.apply op n) :: before, .act (.apply op' n') =>
    if op = op' then .act (.apply op (n + n')) :: before else next :: done
  | _, _ => next :: done

end Program

mutual

def Instruction.optimize : Instruction → Instruction
  | .act a => .act a
  | .loop body => .loop (Program.optimizeOnto [] body)

/-- Merges the instructions of a body one by one after those of `done`. -/
def Program.optimizeOnto : List Instruction → List Instruction → List Instruction
  | done, [] => done.reverse
  | done, i :: is => Program.optimizeOnto (Program.merge done i.optimize) is

end

/-- Merges runs in every body; loops, input, output and unknown instructions stay where they are. -/
def Program.optimize (p : Program) : Program := Program.optimizeOnto [] p

end Brainfuck
