/-
# Finite doubles

A finite double is `±significand · 2 ^ exponent` with a significand below
`2 ^ 53` and an exponent from -1074 to 971; the significand has its full 53
bits unless the exponent is -1074, so each value but zero is written in one
way. `round` takes any nonnegative rational to the nearest double, ties to the
even significand, and gives `none` from `2 ^ 1024 - 2 ^ 970` on. Products and
quotients are exact results, rounded once.

Key definitions: `Binary64`, `Binary64.round`, `Binary64.ofNat?`, `Binary64.mul?`,
`Binary64.div?`, `Binary64.equiv`.
-/

namespace GrammarSync

/-- A finite double, `±significand · 2 ^ exponent`. -/
structure Binary64 where
  negative : Bool
  significand : Nat
  exponent : Int
deriving DecidableEq, Repr

namespace Binary64

/-- The exponent of zero and of the smallest doubles. -/
def minExponent : Int := -1074

/-- The exponent of the largest doubles. -/
def maxExponent : Int := 971

/-- The sizes of full significands start here. -/
def fullSignificand : Nat := Nat.pow 2 52

/-- Zero, with a sign. -/
def zero (negative : Bool) : Binary64 :=
  ⟨negative, 0, minExponent⟩

/-- `x` with the sign given. -/
def withSign (negative : Bool) (x : Binary64) : Binary64 :=
  { x with negative }

/-- Numerator and denominator of `num / den · 2 ^ e`. -/
def scaled (num den : Nat) (e : Int) : Nat × Nat :=
  if e < 0 then (num, den * Nat.pow 2 e.natAbs) else (num * Nat.pow 2 e.natAbs, den)

/-- The quotient to the nearest number, a half to the even neighbour. -/
def nearestEven (num den : Nat) : Nat :=
  let q := num / den
  let r := num % den
  if 2 * r < den then q
  else if den < 2 * r then q + 1
  else if q % 2 = 0 then q else q + 1

/-- The exponent at which `num / den` has a significand of 53 bits, or the least exponent. -/
def unitExponent (num den : Nat) : Int :=
  let e := (num.log2 : Int) - (den.log2 : Int) - 52
  let (n, d) := scaled num den (-e)
  max minExponent (if n / d < fullSignificand then e - 1 else e)

/-- The double nearest to `num / den · 2 ^ e`, ties to even; `none` if it is out of range. -/
def round (num den : Nat) (e : Int) : Option Binary64 :=
  let (n, d) := scaled num den e
  if n = 0 then some (zero false)
  else
    let u := unitExponent n d
    let (a, b) := scaled n d (-u)
    let m := nearestEven a b
    let (m, u) := if m = 2 * fullSignificand then (fullSignificand, u + 1) else (m, u)
    if maxExponent < u then none else some ⟨false, m, u⟩

/-- The double nearest to a natural number; `none` if it is out of range. -/
def ofNat? (n : Nat) : Option Binary64 :=
  round n 1 0

/-- The magnitude of the product, rounded. -/
def mul? (x y : Binary64) : Option Binary64 :=
  round (x.significand * y.significand) 1 (x.exponent + y.exponent)

/-- The magnitude of the quotient, rounded; `y` is not zero. -/
def div? (x y : Binary64) : Option Binary64 :=
  round x.significand y.significand (x.exponent - y.exponent)

/-- Whether the value is zero, of either sign. -/
def isZero (x : Binary64) : Bool :=
  x.significand = 0

/-- Equality of values: the two zeros are equal. -/
def equiv (x y : Binary64) : Bool :=
  x = y || (x.isZero && y.isZero)

end Binary64
end GrammarSync
