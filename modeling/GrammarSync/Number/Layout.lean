/-
# Writing decimals

A decimal is written positionally (`0.00012`, `1500.0`) or with an exponent
(`1.2e-7`). A `Layout` fixes which exponents are positional, whether a whole
number keeps a fraction, and which way an exact half goes among the shortest
digits.

Key definitions: `Layout`, `Layout.write`.
-/
import GrammarSync.Number.Shortest

namespace GrammarSync

/-- How doubles are written. -/
structure Layout where
  /-- Whether a leading digit at this exponent is written positionally. -/
  positional : Int → Bool
  /-- Whether a whole number written positionally ends in `.0`. -/
  keepsFraction : Bool
  tie : Tie

namespace Decimal

/-- Positional digits: those before the point and those after it. -/
def positional (d : Decimal) : List Char × List Char :=
  if d.exponent < 0 then
    (['0'], List.replicate (d.exponent.natAbs - 1) '0' ++ d.digits)
  else
    let places := d.exponent.toNat + 1
    (d.digits.take places ++ List.replicate (places - d.digits.length) '0', d.digits.drop places)

/-- `d.ddde±n`: the sign always, a point only before further digits. -/
def scientific (d : Decimal) : List Char :=
  let mantissa := match d.digits with
    | first :: second :: rest => first :: '.' :: second :: rest
    | ds => ds
  let sign := if d.exponent < 0 then '-' else '+'
  mantissa ++ 'e' :: sign :: Nat.toDigits 10 d.exponent.natAbs

end Decimal

/-- The text of a double. -/
def Layout.write (l : Layout) (x : Binary64) : String :=
  let d := x.shortest l.tie
  let text :=
    if l.positional d.exponent then
      match d.positional with
      | (whole, []) => if l.keepsFraction then whole ++ ['.', '0'] else whole
      | (whole, fraction) => whole ++ '.' :: fraction
    else d.scientific
  String.ofList (if x.negative then '-' :: text else text)

end GrammarSync
