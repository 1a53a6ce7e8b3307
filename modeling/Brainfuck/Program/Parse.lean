import Brainfuck.Instruction

/-! Reading a program from text. A closing bracket without a loop is blamed at once; a text that ends
inside loops is blamed on the innermost one. -/
namespace Brainfuck

/-- Positions count characters from zero, comments included. -/
inductive ParseError
  | unterminatedLoop (position : Nat)
  | unexpectedClose (position : Nat)
  deriving DecidableEq

namespace ParseError

def position : ParseError → Nat
  | unterminatedLoop n => n
  | unexpectedClose n => n

def cause : ParseError → String
  | unterminatedLoop _ => "Missing closing ']' for loop opened"
  | unexpectedClose _ => "Unexpected ']'"

def message (e : ParseError) : String :=
  e.cause ++ " at position " ++ toString e.position

end ParseError

/-- A loop that is still open: where its bracket stands, and what precedes it in its body, last
instruction first. -/
structure OpenLoop where
  position : Nat
  before : List Instruction

namespace Program

/-- Reads on from the character at `position`; `done` is the innermost open body, last instruction
first. -/
def parseFrom : List Char → Nat → List Instruction → List OpenLoop → Except ParseError Program
  | [], _, done, [] => .ok done.reverse
  | [], _, _, l :: _ => .error (.unterminatedLoop l.position)
  | c :: cs, n, done, loops =>
    match Symbol.ofChar? c with
    | none => parseFrom cs (n + 1) done loops
    | some (.tape op) => parseFrom cs (n + 1) (.act (.apply op .one) :: done) loops
    | some .output => parseFrom cs (n + 1) (.act .output :: done) loops
    | some .input => parseFrom cs (n + 1) (.act .input :: done) loops
    | some .loopStart => parseFrom cs (n + 1) [] (⟨n, done⟩ :: loops)
    | some .loopEnd =>
      match loops with
      | [] => .error (.unexpectedClose n)
      | l :: outer => parseFrom cs (n + 1) (.loop done.reverse :: l.before) outer

def parse (source : String) : Except ParseError Program :=
  parseFrom source.toList 0 [] []

end Program

end Brainfuck
