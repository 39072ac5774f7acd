/-
# Printing JSON

Values are printed in one line (`Json.compact`) or one element a line, two
spaces deeper in each container (`Json.pretty`). Empty containers are `[]` and
the two braces in both. In strings the quotation mark, the backslash and the
characters below the space are escaped, and nothing else.

Key definitions: `printString`, `printNumber`, `Json.compact`, `Json.pretty`.
-/
import GrammarSync.Json.Value
import GrammarSync.Number.Layout

namespace GrammarSync
namespace Json

/-- Doubles in JSON: positional while the leading digit stands at 10⁻⁵ to 10¹⁵, always with a
fraction or an exponent. -/
def layout : Layout :=
  ⟨fun n => -5 ≤ n && n ≤ 15, true, .even⟩

/-- The digits of an integer, behind a minus sign if it is negative. -/
def printInt (i : Int) : List Char :=
  if i < 0 then '-' :: Nat.toDigits 10 i.natAbs else Nat.toDigits 10 i.natAbs

/-- A number. -/
def printNumber : Number → List Char
  | .int i => printInt i
  | .float x => (layout.write x).toList

/-- The lower-case hexadecimal digit of a number below 16. -/
def hexDigit (n : Nat) : Char :=
  if n < 10 then Char.ofNat ('0'.toNat + n) else Char.ofNat ('a'.toNat + (n - 10))

/-- How a character stands in a string. -/
def printChar (c : Char) : List Char :=
  match c with
  | '"' => ['\\', '"']
  | '\\' => ['\\', '\\']
  | '\x08' => ['\\', 'b']
  | '\x0c' => ['\\', 'f']
  | '\n' => ['\\', 'n']
  | '\r' => ['\\', 'r']
  | '\t' => ['\\', 't']
  | c =>
    if c.toNat < 0x20 then ['\\', 'u', '0', '0', hexDigit (c.toNat / 16), hexDigit (c.toNat % 16)]
    else [c]

/-- A string between quotation marks. -/
def printString (s : String) : List Char :=
  '"' :: s.toList.flatMap printChar ++ ['"']

/-- A word of JSON for a truth value. -/
def printBool (b : Bool) : List Char :=
  (if b then "true" else "false").toList

/-- What stands in front of an element at a depth: nothing, or a new line with its blanks. -/
def lineBreak (pretty : Bool) (depth : Nat) : List Char :=
  if pretty then '\n' :: List.replicate (2 * depth) ' ' else []

/-- What stands between a key and its value. -/
def colon (pretty : Bool) : List Char :=
  if pretty then [':', ' '] else [':']

mutual
/-- A value whose container is at the depth given. -/
def print (pretty : Bool) (depth : Nat) : Json → List Char
  | .null => "null".toList
  | .bool b => printBool b
  | .number n => printNumber n
  | .string s => printString s
  | .array [] => ['[', ']']
  | .array (v :: rest) =>
    '[' :: lineBreak pretty (depth + 1) ++ print pretty (depth + 1) v ++
      printItems pretty (depth + 1) rest ++ lineBreak pretty depth ++ [']']
  | .object [] => ['\x7b', '\x7d']
  | .object ((k, v) :: rest) =>
    '\x7b' :: lineBreak pretty (depth + 1) ++ printString k ++ colon pretty ++
      print pretty (depth + 1) v ++ printMembers pretty (depth + 1) rest ++
      lineBreak pretty depth ++ ['\x7d']

/-- The items behind the first, each behind a comma. -/
def printItems (pretty : Bool) (depth : Nat) : List Json → List Char
  | [] => []
  | v :: rest =>
    ',' :: lineBreak pretty depth ++ print pretty depth v ++ printItems pretty depth rest

/-- The members behind the first, each behind a comma. -/
def printMembers (pretty : Bool) (depth : Nat) : List (String × Json) → List Char
  | [] => []
  | (k, v) :: rest =>
    ',' :: lineBreak pretty depth ++ printString k ++ colon pretty ++ print pretty depth v ++
      printMembers pretty depth rest
end

/-- The value in one line, without blanks. -/
def compact (v : Json) : String :=
  String.ofList (print false 0 v)

/-- The value with one element a line. -/
def pretty (v : Json) : String :=
  String.ofList (print true 0 v)

end Json
end GrammarSync
