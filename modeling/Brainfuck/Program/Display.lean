import Brainfuck.Instruction

/-! The listing of a program as nested constructor calls. Each function writes after the text `s`. -/
namespace Brainfuck

namespace Action

def display : Action → String
  | apply op n => op.title ++ "(count=" ++ toString n.val ++ ")"
  | output => "Output()"
  | input => "Input()"
  | unknown => "Unknown()"

end Action

mutual

def Instruction.displayAfter (s : String) : Instruction → String
  | .act a => s ++ a.display
  | .loop body => Program.displayBodyAfter (s ++ "Loop(body=(") body ++ "))"

/-- The instructions of a body; a lone one keeps a comma. -/
def Program.displayBodyAfter (s : String) : Program → String
  | [] => s
  | [i] => i.displayAfter s ++ ","
  | i :: j :: is => Program.displayRestAfter (i.displayAfter s) (j :: is)

def Program.displayRestAfter (s : String) : Program → String
  | [] => s
  | i :: is => Program.displayRestAfter (i.displayAfter (s ++ ", ")) is

end

def Program.display : Program → String
  | [] => "[]"
  | i :: is => Program.displayRestAfter (i.displayAfter "[") is ++ "]"

end Brainfuck
