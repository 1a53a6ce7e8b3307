import Brainfuck.Text.Blank
import Brainfuck.Text.Digit

/-! Reading an integer: blanks around it, one sign, and decimal digits with single underscores
between them. -/
namespace Brainfuck.Text

/-- The values of a run of digits; an underscore may stand between two of them. -/
def digitRun? (value? : Char → Option Nat) : List Char → Option (List Nat)
  | [] => none
  | [c] => (value? c).map ([·])
  | c :: '_' :: cs => do
    let d ← value? c
    let ds ← digitRun? value? cs
    return d :: ds
  | c :: cs => do
    let d ← value? c
    let ds ← digitRun? value? cs
    return d :: ds

def ofDigits (digits : List Nat) : Nat :=
  digits.foldl (fun n d => 10 * n + d) 0

/-- Whether a number is negative, and what follows its sign. -/
def splitSign : List Char → Bool × List Char
  | '-' :: cs => (true, cs)
  | '+' :: cs => (false, cs)
  | cs => (false, cs)

def signed (negative : Bool) (n : Nat) : Int :=
  if negative then -n else n

def integer? (text : String) : Option Int := do
  let (negative, cs) := splitSign (trim text.toList)
  let digits ← digitRun? digit? cs
  if maxDigits < digits.length then none
  else return signed negative (ofDigits digits)

end Brainfuck.Text
