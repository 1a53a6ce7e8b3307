import Brainfuck.Instruction

/-! Log records. -/
namespace Brainfuck.Log

inductive Level
  | debug
  | warning
  | error
  deriving DecidableEq

def Level.text : Level → String
  | debug => "DEBUG"
  | warning => "WARNING"
  | error => "ERROR"

/-- The part of the program that a record comes from. -/
inductive Component
  | reader
  | optimizer
  | generator
  | commandLine
  deriving DecidableEq

structure Record where
  level : Level
  component : Component
  text : String
  deriving DecidableEq

/-- The record as a line of a terminal. -/
def Record.line (r : Record) : String := r.level.text ++ ": " ++ r.text ++ "\n"

def parsed (source : String) (p : Program) : Record :=
  ⟨.debug, .reader,
    "Parsed " ++ toString p.length ++ " top-level instructions from " ++ toString source.length ++
      " characters"⟩

/-- Merging is recorded only if it changed the number of top-level instructions. -/
def optimized (before after : Program) : List Record :=
  if before.length = after.length then []
  else
    [⟨.debug, .optimizer,
      "Optimized " ++ toString before.length ++ " instructions down to " ++
        toString after.length⟩]

end Brainfuck.Log
