/-! Decimal digits of every script, as of Unicode 14. -/
namespace Brainfuck.Text

/-- The zeros; each is followed by the other nine digits of its script. -/
def zeros : List Nat :=
  [
    48, 1632, 1776, 1984, 2406, 2534, 2662, 2790, 2918, 3046,
    3174, 3302, 3430, 3558, 3664, 3792, 3872, 4160, 4240, 6112,
    6160, 6470, 6608, 6784, 6800, 6992, 7088, 7232, 7248, 42528,
    43216, 43264, 43472, 43504, 43600, 44016, 65296, 66720, 68912, 69734,
    69872, 69942, 70096, 70384, 70736, 70864, 71248, 71360, 71472, 71904,
    72016, 72784, 73040, 73120, 92768, 92864, 93008, 120782, 120792, 120802,
    120812, 120822, 123200, 123632, 125264, 130032
  ]

/-- The value of a decimal digit. -/
def digit? (c : Char) : Option Nat :=
  (zeros.find? fun z => decide (z ≤ c.toNat) && decide (c.toNat < z + 10)).map (c.toNat - ·)

/-- The most digits of an integer that is read from a text. The limit can be adjusted; where integers are
written it is taken as lifted, so that each has a text. An integer that an option takes has no more digits
than may be read, so it is written alike under either limit. -/
def maxDigits : Nat := 4300

end Brainfuck.Text
