/-
# Shortest decimal digits

Every real number near enough to a double rounds to it. `shortest` gives, of
all decimals with the fewest digits that do, the one nearest to the double.
The numbers that round to `m · 2 ^ e` lie between the midpoints to its
neighbours, the midpoints included when `m` is even.

A decimal is its digits `d₁d₂…` and the exponent of the first:
`d₁.d₂… · 10 ^ exponent`.

Key definitions: `Decimal`, `Binary64.shortest`.
-/
import GrammarSync.Number.Binary64

namespace GrammarSync

/-- `d₁.d₂… · 10 ^ exponent`. -/
structure Decimal where
  digits : List Char
  exponent : Int
deriving DecidableEq, Repr

/-- Which neighbour an exact half goes to. -/
inductive Tie where
  | even
  | up
deriving DecidableEq, Repr

namespace Decimal

/-- The greatest `k` below the bound with `num · 10 ^ k < den`, counted from `k`. -/
def leadingZeros (num den : Nat) : Nat → Nat → Nat
  | 0, k => k
  | bound + 1, k => if num * 10 < den then leadingZeros (num * 10) den bound (k + 1) else k

/-- The exponent of the leading digit of `num / den`, for `0 < num`. -/
def leadingExponent (num den : Nat) : Int :=
  if den ≤ num then ((Nat.toDigits 10 (num / den)).length : Int) - 1
  else - (leadingZeros num den 400 0 : Int) - 1

/-- Numerator and denominator of `num / den · 10 ^ s`. -/
def scaled (num den : Nat) (s : Int) : Nat × Nat :=
  if s < 0 then (num, den * Nat.pow 10 s.natAbs) else (num * Nat.pow 10 s.natAbs, den)

/-- The decimal of the number `n`, whose last digit has the place value `10 ^ unit`;
zeros at its end are dropped. -/
def ofUnits (n : Nat) (unit : Int) : Decimal :=
  let ds := Nat.toDigits 10 n
  ⟨(ds.reverse.dropWhile (· = '0')).reverse, unit + ds.length - 1⟩

end Decimal

namespace Binary64

open Decimal

/-- A number and the interval around it, over one denominator. -/
structure Rounding where
  low : Nat
  num : Nat
  high : Nat
  den : Nat
  /-- Whether the ends belong to the interval. -/
  closed : Bool

/-- The numbers that round to `x`. -/
def rounding (x : Binary64) : Rounding :=
  let m := x.significand
  let below := if m = fullSignificand ∧ minExponent < x.exponent then 1 else 2
  let e := x.exponent - 2
  if e < 0 then ⟨4 * m - below, 4 * m, 4 * m + 2, Nat.pow 2 e.natAbs, m % 2 = 0⟩
  else
    let s := Nat.pow 2 e.natAbs
    ⟨(4 * m - below) * s, 4 * m * s, (4 * m + 2) * s, 1, m % 2 = 0⟩

/-- Whether `c · 10 ^ (-s)` lies in the interval. -/
def Rounding.holds (r : Rounding) (s : Int) (c : Nat) : Bool :=
  let (low, den) := Decimal.scaled r.low r.den s
  let high := (Decimal.scaled r.high r.den s).1
  if r.closed then low ≤ c * den && c * den ≤ high else low < c * den && c * den < high

/-- The neighbour of the number on the grid of step `10 ^ (-s)` that lies in the interval,
the nearer one if both do. -/
def Rounding.neighbour? (r : Rounding) (tie : Tie) (s : Int) : Option Nat :=
  let (num, den) := Decimal.scaled r.num r.den s
  let c := num / den
  match r.holds s c, r.holds s (c + 1) with
  | false, false => none
  | true, false => some c
  | false, true => some (c + 1)
  | true, true =>
    if 2 * num < (2 * c + 1) * den then some c
    else if (2 * c + 1) * den < 2 * num then some (c + 1)
    else match tie with
      | .up => some (c + 1)
      | .even => some (if c % 2 = 0 then c else c + 1)

/-- The first grid, from one digit on, with a neighbour in the interval; at most `bound`
more digits are tried. -/
def Rounding.search (r : Rounding) (tie : Tie) (lead : Int) : Nat → Nat → Decimal
  | 0, p => ofUnits (r.num / r.den) (lead - p)
  | bound + 1, p =>
    match r.neighbour? tie (p - lead) with
    | some c => ofUnits c (lead - p)
    | none => r.search tie lead bound (p + 1)

/-- The shortest decimal that rounds to `x`, nearest to `x` among those of its length;
its sign is not part of it. Seventeen digits always suffice. -/
def shortest (tie : Tie) (x : Binary64) : Decimal :=
  if x.isZero then ⟨['0'], 0⟩
  else
    let r := x.rounding
    r.search tie (leadingExponent r.num r.den) 17 0

end Binary64
end GrammarSync
