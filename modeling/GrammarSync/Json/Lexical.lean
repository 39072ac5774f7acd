/-
# Blanks, words, strings and numerals of JSON

Each reader takes the characters from its token's start on (a string's from
behind the opening quotation mark) and gives the token with what remains, or
the first fault.

Surrogate halves occur only as escapes `\uXXXX`, always a high one and then a
low one. The four digits of such an escape are four *bytes* of the text: if
fewer are left the text ends too early, otherwise they must be hexadecimal.

Key definitions: `skipBlanks`, `readWord`, `readString`, `readNumeral`,
`readNumber`.
-/
import GrammarSync.Json.Fault
import GrammarSync.Number.Numeral

namespace GrammarSync
namespace Json

open Text

/-- What a reader of a JSON text gives, or the fault it stopped at. -/
abbrev Checked := Except (Fault Cause)

/-- Whether a character may stand between tokens. -/
def isBlank (c : Char) : Bool :=
  c = ' ' || c = '\n' || c = '\t' || c = '\r'

/-- The text from the next token on. -/
def skipBlanks (cs : List Char) : List Char :=
  cs.dropWhile isBlank

/-- Read the letters that must follow. -/
def readWord : List Char → List Char → Checked (List Char)
  | [], cs => .ok cs
  | _ :: _, [] => .error (.atEnd .endInValue)
  | e :: es, c :: cs =>
    if c = e then readWord es cs else .error (.next .wordExpected (c :: cs))

/-! ### Strings -/

/-- The value of a hexadecimal digit. -/
def hexValue? (c : Char) : Option Nat :=
  if '0' ≤ c && c ≤ '9' then some (c.toNat - '0'.toNat)
  else if 'a' ≤ c && c ≤ 'f' then some (c.toNat - 'a'.toNat + 10)
  else if 'A' ≤ c && c ≤ 'F' then some (c.toNat - 'A'.toNat + 10)
  else none

/-- The number of four hexadecimal digits. -/
def hexNumber? : List Char → Option Nat
  | [a, b, c, d] => do
    let a ← hexValue? a
    let b ← hexValue? b
    let c ← hexValue? c
    let d ← hexValue? d
    some (((a * 16 + b) * 16 + c) * 16 + d)
  | _ => none

/-- The number in the next four bytes. -/
def readHex (cs : List Char) : Checked Nat :=
  if byteCount (cs.take 4) < 4 then .error (.atEnd .endInString)
  else match hexNumber? (cs.take 4) with
    | some n => .ok n
    | none => .error ⟨.escapeInvalid, byteCount cs - 4⟩

/-- Whether a number is the first half of a surrogate pair. -/
def isHighSurrogate (n : Nat) : Bool :=
  0xD800 ≤ n && n ≤ 0xDBFF

/-- Whether a number is the second half of a surrogate pair. -/
def isLowSurrogate (n : Nat) : Bool :=
  0xDC00 ≤ n && n ≤ 0xDFFF

/-- The character of a surrogate pair. -/
def joinSurrogates (high low : Nat) : Char :=
  Char.ofNat (0x10000 + (high - 0xD800) * 0x400 + (low - 0xDC00))

/-- The character of an escape of one letter. -/
def shortEscape? : Char → Option Char
  | '"' => some '"'
  | '\\' => some '\\'
  | '/' => some '/'
  | 'b' => some '\x08'
  | 'f' => some '\x0c'
  | 'n' => some '\n'
  | 'r' => some '\r'
  | 't' => some '\t'
  | _ => none

/-- The low half behind a high one, which must be an escape of its own. -/
def readLowSurrogate : List Char → Checked Nat
  | [] => .error (.atEnd .endInString)
  | '\\' :: [] => .error (.atEnd .endInString)
  | '\\' :: 'u' :: digits => do
    let low ← readHex digits
    if isLowSurrogate low then .ok low
    else .error (.here .loneSurrogate (digits.drop 4))
  | '\\' :: rest => .error (.next .surrogateUnpaired rest)
  | rest => .error (.next .surrogateUnpaired rest)

/-- The character of the escape behind a backslash, and how many characters it takes. -/
def readEscape : List Char → Checked (Char × Nat)
  | [] => .error (.atEnd .endInString)
  | 'u' :: digits => do
    let n ← readHex digits
    if isLowSurrogate n then .error (.here .loneSurrogate (digits.drop 4))
    else if isHighSurrogate n then
      let low ← readLowSurrogate (digits.drop 4)
      .ok (joinSurrogates n low, 11)
    else .ok (Char.ofNat n, 5)
  | c :: rest =>
    match shortEscape? c with
    | some d => .ok (d, 1)
    | none => .error (.next .escapeInvalid (c :: rest))

/-- The characters up to the closing quotation mark, after the first `skip` of them, which an
escape has used. -/
def readChars (skip : Nat) : List Char → Checked (List Char × List Char)
  | [] => .error (.atEnd .endInString)
  | c :: rest =>
    match skip with
    | skip + 1 => readChars skip rest
    | 0 =>
      if c = '"' then .ok ([], rest)
      else if c = '\\' then
        match readEscape rest with
        | .error e => .error e
        | .ok (d, used) =>
          match readChars used rest with
          | .error e => .error e
          | .ok (ds, left) => .ok (d :: ds, left)
      else if c.toNat < 0x20 then .error (.next .controlCharacter (c :: rest))
      else
        match readChars 0 rest with
        | .error e => .error e
        | .ok (ds, left) => .ok (c :: ds, left)

/-- A string, from behind its opening quotation mark. -/
def readString (cs : List Char) : Checked (String × List Char) := do
  let (ds, rest) ← readChars 0 cs
  .ok (String.ofList ds, rest)

/-! ### Numbers -/

/-- Whether a character is a decimal digit. -/
def isDigit (c : Char) : Bool :=
  '0' ≤ c && c ≤ '9'

/-- The digits in front of the point: a zero alone, or digits that start with no zero. -/
def readWhole : List Char → Checked (List Char × List Char)
  | [] => .error (.atEnd .endInValue)
  | c :: rest =>
    if c = '0' then
      match rest with
      | d :: _ => if isDigit d then .error (.next .numberInvalid rest) else .ok (['0'], rest)
      | [] => .ok (['0'], [])
    else if isDigit c then .ok (c :: rest.takeWhile isDigit, rest.dropWhile isDigit)
    else .error (.next .numberInvalid (c :: rest))

/-- The digits behind a point, if a point follows. -/
def readFraction : List Char → Checked (Option (List Char) × List Char)
  | '.' :: rest =>
    match rest with
    | [] => .error (.atEnd .endInValue)
    | c :: _ =>
      if isDigit c then .ok (some (rest.takeWhile isDigit), rest.dropWhile isDigit)
      else .error (.next .numberInvalid rest)
  | cs => .ok (none, cs)

/-- The sign of an exponent and what follows it. -/
def readSign : List Char → Bool × List Char
  | '+' :: rest => (false, rest)
  | '-' :: rest => (true, rest)
  | cs => (false, cs)

/-- The exponent, if one follows. -/
def readExponent : List Char → Checked (Option Exponent × List Char)
  | [] => .ok (none, [])
  | c :: rest =>
    if c = 'e' || c = 'E' then
      let (negative, digits) := readSign rest
      match digits with
      | [] => .error (.atEnd .endInValue)
      | d :: _ =>
        if isDigit d then
          .ok (some ⟨negative, digits.takeWhile isDigit⟩, digits.dropWhile isDigit)
        else .error (.next .numberInvalid digits)
    else .ok (none, c :: rest)

/-- A numeral, from behind its minus sign if it has one. -/
def readNumeral (negative : Bool) (cs : List Char) : Checked (Numeral × List Char) := do
  let (whole, cs) ← readWhole cs
  let (fraction, cs) ← readFraction cs
  let (exponent, cs) ← readExponent cs
  .ok (⟨negative, whole, fraction, exponent⟩, cs)

/-- A number, from behind its minus sign if it has one. -/
def readNumber (negative : Bool) (cs : List Char) : Checked (Number × List Char) := do
  let (numeral, rest) ← readNumeral negative cs
  match numeral.value with
  | .ok n => .ok (n, rest)
  | .error .overflow => .error (.here .numberTooLarge rest)
  | .error (.exponentOverflow unread) =>
    .error ⟨.numberTooLarge, unread + byteCount rest⟩

end Json
end GrammarSync
