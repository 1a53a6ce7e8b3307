import Brainfuck.Text.Integer

/-! Values of options. -/
namespace Brainfuck.CommandLine

inductive ValueError
  | invalid (text : String)
  | notPositive (value : Int)
  deriving DecidableEq

def ValueError.message : ValueError → String
  | .invalid text => "invalid integer: '" ++ text ++ "'"
  | .notPositive n => "must be a positive integer, got " ++ toString n

def positiveInteger (text : String) : Except ValueError Int :=
  match Text.integer? text with
  | none => .error (.invalid text)
  | some n => if n < 1 then .error (.notPositive n) else .ok n

end Brainfuck.CommandLine
