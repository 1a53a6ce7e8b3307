import Brainfuck.CodePoint

/-! Code units of 16 bits. A high and a low surrogate together are one character past U+FFFF. -/
namespace Brainfuck.Text

def isHighSurrogate (n : Nat) : Bool := 0xD800 ≤ n && n < 0xDC00

def isLowSurrogate (n : Nat) : Bool := 0xDC00 ≤ n && n < 0xE000

def pairChar (high low : Nat) : Char :=
  .ofNat (0x10000 + (high - 0xD800) * 0x400 + (low - 0xDC00))

/-- Goes on after the code points of `done`, which holds the last one first. -/
def ofUnitsFrom : List CodePoint → List Nat → List CodePoint
  | done, [] => done.reverse
  | done, [u] => (.ofNat u :: done).reverse
  | done, u :: v :: us =>
    if isHighSurrogate u && isLowSurrogate v then ofUnitsFrom (.char (pairChar u v) :: done) us
    else ofUnitsFrom (.ofNat u :: done) (v :: us)
  termination_by _ us => us.length

def ofUnits (us : List Nat) : List CodePoint := ofUnitsFrom [] us

end Brainfuck.Text
