/-! Decimal numbers rounded to 64-bit floating point. A finite value is counted in units of 2^-1074, of
which every other finite value is a multiple. -/
namespace Brainfuck

inductive Binary64
  | finite (negative : Bool) (units : Nat)
  | infinite (negative : Bool)
  | nan
  deriving DecidableEq

namespace Binary64

/-- The quotient rounded to the nearest whole number, and to the even one of two. -/
def roundDiv (num den : Nat) : Nat :=
  let q := num / den
  let r := num % den
  if den < 2 * r ∨ (2 * r = den ∧ q % 2 = 1) then q + 1 else q

/-- The units in one. -/
def one : Nat := Nat.pow 2 1074

/-- The units in 2^1024, which is past every finite value. -/
def bound : Nat := Nat.pow 2 1024 * one

/-- The nearest value with at most 53 significant bits. -/
def ofRatio (negative : Bool) (num den : Nat) : Binary64 :=
  let scaled := num * one
  let step := Nat.pow 2 ((scaled / den).log2 - 52)
  let units := roundDiv scaled (den * step) * step
  if units < bound then .finite negative units else .infinite negative

/-- The value of `digits` times a power of ten. Exponents far outside the range are not worked out. -/
def ofDecimal (negative : Bool) (digits : Nat) (exponent : Int) : Binary64 :=
  let magnitude : Int := (Nat.toDigits 10 digits).length + exponent
  if digits = 0 ∨ magnitude < -400 then .finite negative 0
  else if 400 < magnitude then .infinite negative
  else if 0 ≤ exponent then ofRatio negative (digits * Nat.pow 10 exponent.toNat) 1
  else ofRatio negative digits (Nat.pow 10 (-exponent).toNat)

def isFinite : Binary64 → Bool
  | finite _ _ => true
  | _ => false

end Binary64

end Brainfuck
