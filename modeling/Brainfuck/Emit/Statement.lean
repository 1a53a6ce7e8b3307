import Brainfuck.Program.Pass

/-! The statements of a generated program, one line each, indented by the loops around them. -/
namespace Brainfuck.Emit

inductive Statement
  | allocate (size : Int)
  | apply (op : TapeOp) (count : Nat)
  | output
  | input
  | openLoop
  | closeLoop
  deriving DecidableEq

def function : TapeOp → String
  | .moveRight => "move_right"
  | .moveLeft => "move_left"
  | .increment => "increment"
  | .decrement => "decrement"

/-- Cell changes are taken modulo 256; moves are kept whole. -/
def reduce : TapeOp → Nat → Nat
  | .moveRight, n => n
  | .moveLeft, n => n
  | .increment, n => n % 256
  | .decrement, n => n % 256

namespace Statement

/-- Sizes and counts are written however long they are: the limit on the digits of integers is taken as lifted
for writing. -/
def text : Statement → String
  | allocate n => "tape_init(" ++ toString n ++ "u);"
  | apply op n => function op ++ "(" ++ toString n ++ "u);"
  | output => "output();"
  | input => "input();"
  | openLoop => "while (tape.cells[tape.index] != 0) \x7b"
  | closeLoop => "\x7d"

end Statement

/-- A statement and the number of blocks around it. -/
structure Line where
  depth : Nat
  statement : Statement
  deriving DecidableEq

def Line.text (l : Line) : String := "".pushn ' ' (4 * l.depth) ++ l.statement.text

inductive EmitError
  | tooSmall (size : Int)
  | unsupported
  deriving DecidableEq

def EmitError.message : EmitError → String
  | .tooSmall n => "Memory size must be at least 1, got " ++ toString n
  | .unsupported => "Unsupported instruction: Unknown()"

/-- The lines written so far and the depth of the next one. -/
structure Listing where
  lines : Array Line
  depth : Nat

namespace Listing

def add (s : Statement) (l : Listing) : Listing :=
  match l with
  | ⟨lines, depth⟩ => ⟨lines.push ⟨depth, s⟩, depth⟩

def indent (l : Listing) : Listing := { l with depth := l.depth + 1 }

def outdent (l : Listing) : Listing := { l with depth := l.depth - 1 }

def visit (l : Listing) : Visit → Except EmitError Listing
  | .act (.apply op n) => .ok (l.add (.apply op (reduce op n.val)))
  | .act .output => .ok (l.add .output)
  | .act .input => .ok (l.add .input)
  | .act .unknown => .error .unsupported
  | .enter => .ok (l.add .openLoop).indent
  | .leave => .ok (l.outdent.add .closeLoop)

/-- The listing after one more visit, unless an earlier one failed. -/
def extend (l : Except EmitError Listing) (v : Visit) : Except EmitError Listing :=
  l.bind (·.visit v)

end Listing

/-- The lines of the main function, which first allocates the tape. -/
def lines (memorySize : Int) (p : Program) : Except EmitError (List Line) :=
  if memorySize < 1 then .error (.tooSmall memorySize)
  else
    (p.fold Listing.extend (.ok ⟨#[⟨1, .allocate memorySize⟩], 1⟩)).map (·.lines.toList)

end Brainfuck.Emit
