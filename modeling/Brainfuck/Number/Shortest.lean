import Brainfuck.Number.Binary64

/-! The decimal text of a floating-point number: the fewest digits that read back as it and, of those,
the nearest. Large and small numbers are written with an exponent. -/
namespace Brainfuck.Binary64

/-- A whole number of digits times a power of ten. -/
structure Decimal where
  digits : Nat
  exponent : Int
  deriving DecidableEq

/-- The exponent of the first digit of a value that is not zero. -/
def leading (units : Nat) : Int :=
  if one ≤ units then (Nat.toDigits 10 (units / one)).length - 1
  else -(((List.range 400).find? fun k => decide (one ≤ units * Nat.pow 10 k)).getD 400 : Nat)

def readsBack (units : Nat) (d : Decimal) : Bool :=
  ofDecimal false d.digits d.exponent = finite false units

/-- The multiple of a power of ten next to a value that reads back: the nearer one or, of two that are
as near, the even one. -/
def neighbour? (units : Nat) (exponent : Int) : Option Decimal :=
  let num := units * Nat.pow 10 (-exponent).toNat
  let den := one * Nat.pow 10 exponent.toNat
  let below : Decimal := ⟨num / den, exponent⟩
  let above : Decimal := ⟨num / den + 1, exponent⟩
  let (nearer, other) :=
    if roundDiv num den = num / den then (below, above) else (above, below)
  [nearer, other].find? (readsBack units)

/-- Seventeen digits are always enough. -/
def shortest (units : Nat) : Decimal :=
  let least := leading units
  ((List.range 17).findSome? fun (n : Nat) => neighbour? units (least - n)).getD ⟨units, 0⟩

/-- Digits and the place of the point among them, counted from their start. -/
def layOut (digits : List Char) (point : Int) : List Char :=
  let exponent := point - 1
  if exponent < -4 ∨ 16 ≤ exponent then
    let sign := if exponent < 0 then '-' else '+'
    let rest := digits.drop 1
    digits.take 1 ++ (if rest = [] then [] else '.' :: rest) ++
      'e' :: sign :: (Nat.toDigits 10 exponent.natAbs).leftpad 2 '0'
  else if point ≤ 0 then '0' :: '.' :: List.replicate (-point).toNat '0' ++ digits
  else
    let whole := digits.take point.toNat
    let fraction := digits.drop point.toNat
    whole ++ List.replicate (point.toNat - whole.length) '0' ++
      '.' :: (if fraction = [] then ['0'] else fraction)

def unsignedText (units : Nat) : List Char :=
  if units = 0 then ['0', '.', '0']
  else
    let d := shortest units
    let digits := Nat.toDigits 10 d.digits
    layOut (digits.reverse.dropWhile (· == '0')).reverse (digits.length + d.exponent)

/-- The text of a number; one that is not finite has a name. -/
def text : Binary64 → String
  | finite negative units =>
    .ofList (if negative then '-' :: unsignedText units else unsignedText units)
  | infinite negative => if negative then "-Infinity" else "Infinity"
  | nan => "NaN"

end Brainfuck.Binary64
