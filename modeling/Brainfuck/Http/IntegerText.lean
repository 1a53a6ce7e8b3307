import Brainfuck.Text.Blank
import Brainfuck.Text.Digit

/-! Whole numbers that a request gives as text. Besides the plain form, the text can have blanks around
it, a plus sign, leading zeros, single underscores between digits, and a fraction of zeros. -/
namespace Brainfuck.Http

inductive IntegerTextError
  | invalid
  | tooLong
  deriving DecidableEq

namespace IntegerText

/-- The value of the plain form: a minus sign or none, and then a zero, or digits of which the first is
no zero. -/
def plain? (cs : List Char) : Option Int :=
  let unsigned (cs : List Char) : Option Nat :=
    if cs = ['0'] then some 0
    else if cs = [] ∨ cs.head? = some '0' ∨ Text.maxDigits < cs.length then none
    else if cs.all Char.isDigit then
      some (cs.foldl (fun n d => 10 * n + (d.toNat - '0'.toNat)) 0)
    else none
  match cs with
  | '-' :: cs => (unsigned cs).map fun n => -(n : Int)
  | cs => (unsigned cs).map fun n => (n : Int)

/-- Whether a text starts like the plain form and goes on for too many digits, whatever follows. -/
def isTooLong (cs : List Char) : Bool :=
  let cs := match cs with
    | '-' :: cs => cs
    | cs => cs
  cs.head? != some '0' && Text.maxDigits < (cs.takeWhile Char.isDigit).length

/-- Goes on after a leading zero or underscore, which is kept if only a fraction or nothing follows. -/
def afterZeros (last : Char) : List Char → Option (List Char)
  | [] => some [last]
  | '0' :: cs => afterZeros '0' cs
  | '_' :: cs => afterZeros '_' cs
  | '.' :: cs => some (last :: '.' :: cs)
  | c :: cs => if c.isDigit || c == '-' then some (c :: cs) else none

/-- A number without its leading zeros and the underscores among them. What follows the zeros can have
a sign of its own. -/
def dropZeros : List Char → Option (List Char)
  | '0' :: cs => afterZeros '0' cs
  | c :: cs => if c.isDigit || c == '-' then some (c :: cs) else none
  | [] => none

/-- A fraction of zeros is dropped; there has to be at least one. -/
def dropFraction (cs : List Char) : List Char :=
  match cs.dropWhile (· != '.') with
  | _ :: zeros =>
    if zeros != [] && zeros.all (· == '0') then cs.takeWhile (· != '.') else cs
  | [] => cs

def hasDoubleUnderscore : List Char → Bool
  | '_' :: '_' :: _ => true
  | _ :: cs => hasDoubleUnderscore cs
  | [] => false

/-- Underscores are dropped if each of them stands alone and inside the text. -/
def dropUnderscores (cs : List Char) : List Char :=
  if cs.head? = some '_' ∨ cs.getLast? = some '_' ∨ hasDoubleUnderscore cs then cs
  else cs.filter (· != '_')

/-- The plain form of a text without blanks around it. -/
def clean? (cs : List Char) : Option (List Char) :=
  match cs with
  | '+' :: '-' :: _ => none
  | '+' :: cs => (dropZeros cs).map fun cs => dropUnderscores (dropFraction cs)
  | '-' :: cs => (dropZeros cs).map fun cs => '-' :: dropUnderscores (dropFraction cs)
  | cs => (dropZeros cs).map fun cs => dropUnderscores (dropFraction cs)

end IntegerText

open IntegerText in
/-- The value of a text. Only a text that starts with too many digits is blamed on their number. -/
def integerText (s : String) : Except IntegerTextError Int :=
  if isTooLong s.toList then .error .tooLong
  else
    match (clean? (Text.trim s.toList)).bind plain? with
    | some n => .ok n
    | none => .error .invalid

end Brainfuck.Http
