/-
# Numerals and their values

A numeral is a number as it is spelled: a sign, digits, perhaps a fraction and
an exponent. Its value is an integer if it has neither fraction nor exponent
and fits 64 bits (`-0` does not: it is the negative zero of the doubles), and
a double otherwise.

The double is computed from a significand of at most 64 bits. Once a further
digit would not fit, the digits that follow are dropped: a dropped digit
before the point counts one power of ten, one after it counts nothing. The
significand is then rounded to a double and multiplied or divided, rounding
again, by a rounded power of ten.

Key definitions: `Numeral`, `Numeral.value`.
-/
import GrammarSync.Number.Binary64

namespace GrammarSync

/-- A number of a document: an integer of at most 64 bits, or a double. -/
inductive Number where
  | int (i : Int)
  | float (x : Binary64)
deriving DecidableEq, Repr

/-- Equality of numbers: an integer is no double, and the zeros of the doubles are equal. -/
def Number.equiv : Number → Number → Bool
  | .int i, .int j => i = j
  | .float x, .float y => x.equiv y
  | _, _ => false

/-- The spelled exponent of a numeral. -/
structure Exponent where
  negative : Bool
  digits : List Char
deriving DecidableEq, Repr

/-- A number as it is spelled. -/
structure Numeral where
  negative : Bool
  whole : List Char
  fraction : Option (List Char)
  exponent : Option Exponent
deriving DecidableEq, Repr

/-- Why a numeral has no value. -/
inductive NumeralFault where
  /-- The exponent does not fit; this many of its digits follow the one that shows it. -/
  | exponentOverflow (unread : Nat)
  /-- The value is beyond the largest double. -/
  | overflow
deriving DecidableEq, Repr

namespace Numeral

/-- The value of a decimal digit. -/
def digitValue (c : Char) : Nat :=
  c.toNat - '0'.toNat

/-- The bound of the significand. -/
def significandBound : Nat := Nat.pow 2 64

/-- The bound of the exponent. -/
def exponentBound : Nat := Nat.pow 2 31

/-- The significand of the digits before the point and the count of those dropped. -/
def readWhole (significand dropped : Nat) : List Char → Nat × Nat
  | [] => (significand, dropped)
  | c :: rest =>
    let next := significand * 10 + digitValue c
    if dropped = 0 ∧ next < significandBound then readWhole next 0 rest
    else readWhole significand (dropped + 1) rest

/-- The significand after the digits behind the point and the count of those used. -/
def readFraction (significand used : Nat) : List Char → Nat × Nat
  | [] => (significand, used)
  | c :: rest =>
    let next := significand * 10 + digitValue c
    if next < significandBound then readFraction next (used + 1) rest else (significand, used)

/-- The value of an exponent's digits, or the count of those behind the first that is too much. -/
def readExponent (value : Nat) : List Char → Except Nat Nat
  | [] => .ok value
  | c :: rest =>
    let next := value * 10 + digitValue c
    if next < exponentBound then readExponent next rest else .error rest.length

/-- `x · 10 ^ k` in doubles. -/
def timesPower (x : Binary64) (k : Nat) : Option Binary64 := do
  let p ← Binary64.ofNat? (Nat.pow 10 k)
  x.mul? p

/-- `x / 10 ^ k` in doubles. -/
def overPower (x : Binary64) (k : Nat) : Option Binary64 := do
  let p ← Binary64.ofNat? (Nat.pow 10 k)
  x.div? p

/-- Divide by `10 ^ 308`, `steps` times or until nothing is left. -/
def divideDown (x : Binary64) : Nat → Option Binary64
  | 0 => some x
  | steps + 1 =>
    if x.isZero then some x else (overPower x 308).bind (divideDown · steps)

/-- `significand · 10 ^ exponent`, computed in doubles. -/
def scale (significand : Nat) (exponent : Int) : Option Binary64 := do
  let x ← Binary64.ofNat? significand
  let k := exponent.natAbs
  if 0 ≤ exponent then
    if k ≤ 308 then timesPower x k else if x.isZero then some x else none
  else
    let steps := (k - 1) / 308
    let y ← divideDown x steps
    if y.isZero then some y else overPower y (k - 308 * steps)

/-- A double with its sign, if it is in range. -/
def signed (negative : Bool) : Option Binary64 → Except NumeralFault Number
  | some x => .ok (.float (x.withSign negative))
  | none => .error .overflow

/-- The value of a numeral. -/
def value (n : Numeral) : Except NumeralFault Number :=
  let (m, dropped) := readWhole 0 0 n.whole
  if n.fraction.isNone ∧ n.exponent.isNone ∧ dropped = 0 then
    if !n.negative then .ok (.int m)
    else if 0 < m ∧ m ≤ Nat.pow 2 63 then .ok (.int (-m))
    else signed n.negative (Binary64.ofNat? m)
  else
    let (m, used) := readFraction m 0 (n.fraction.getD [])
    let shift := (dropped : Int) - used
    match n.exponent with
    | none => signed n.negative (scale m shift)
    | some e =>
      match readExponent 0 e.digits with
      | .ok k => signed n.negative (scale m (if e.negative then shift - k else shift + k))
      | .error unread =>
        if m ≠ 0 ∧ !e.negative then .error (.exponentOverflow unread)
        else .ok (.float (Binary64.zero n.negative))

end Numeral
end GrammarSync
