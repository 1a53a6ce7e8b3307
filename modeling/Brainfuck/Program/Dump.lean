import Brainfuck.Instruction
import Brainfuck.Json

/-! A program as nested data. An unknown instruction has no such form. -/
namespace Brainfuck

def TapeOp.name : TapeOp → String
  | .moveRight => "move_right"
  | .moveLeft => "move_left"
  | .increment => "increment"
  | .decrement => "decrement"

def Action.dump? : Action → Option Json
  | .apply op n => some (.ofFields [("op", .ofString op.name), ("count", .integer n.val)])
  | .output => some (.ofFields [("op", .ofString "output")])
  | .input => some (.ofFields [("op", .ofString "input")])
  | .unknown => none

mutual

def Instruction.dump? : Instruction → Option Json
  | .act a => a.dump?
  | .loop body => do
    let items ← Program.dump? body
    return .ofFields [("op", .ofString "loop"), ("body", .list items)]

def Program.dump? : Program → Option (List Json)
  | [] => some []
  | i :: is => do
    let item ← i.dump?
    let items ← Program.dump? is
    return item :: items

end

/-- The deepest nesting of loops that is shown as nested data. -/
def maxDumpDepth : Nat := 100

end Brainfuck
