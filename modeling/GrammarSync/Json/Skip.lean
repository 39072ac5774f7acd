/-
# Skipping JSON values

A value that nobody asks for is passed over: only its form is checked. Its
containers may be nested to any depth, its numbers may have any size, and the
escapes in its strings need not pair. Within it, a text that ends in a numeral
makes the numeral invalid, and a comma must be followed by an element.

Key definitions: `skipString`, `skipNumeral`, `skipValue`.
-/
import GrammarSync.Json.Reader

namespace GrammarSync
namespace Json

/-- How many characters the escape behind a backslash takes. -/
def skipEscape : List Char → Checked Nat
  | [] => .error (.atEnd .endInString)
  | 'u' :: digits => do
    let _ ← readHex digits
    .ok 5
  | c :: rest =>
    match shortEscape? c with
    | some _ => .ok 1
    | none => .error (.next .escapeInvalid (c :: rest))

/-- The text behind the closing quotation mark; the first `skip` characters belong to an escape. -/
def skipChars (skip : Nat) : List Char → Checked (List Char)
  | [] => .error (.atEnd .endInString)
  | c :: rest =>
    match skip with
    | skip + 1 => skipChars skip rest
    | 0 =>
      if c = '"' then .ok rest
      else if c = '\\' then
        match skipEscape rest with
        | .error e => .error e
        | .ok used => skipChars used rest
      else if c.toNat < 0x20 then .error (.here .controlCharacter (c :: rest))
      else skipChars 0 rest

/-- The text behind a string, from behind its opening quotation mark. -/
def skipString (cs : List Char) : Checked (List Char) :=
  skipChars 0 cs

/-- The text behind the digits in front of a point. -/
def skipWhole : List Char → Checked (List Char)
  | [] => .error (.atEnd .numberInvalid)
  | c :: rest =>
    if c = '0' then
      match rest with
      | d :: _ => if isDigit d then .error (.next .numberInvalid rest) else .ok rest
      | [] => .ok []
    else if isDigit c then .ok (rest.dropWhile isDigit)
    else .error (.next .numberInvalid (c :: rest))

/-- The text behind a fraction, if one follows. -/
def skipFraction : List Char → Checked (List Char)
  | '.' :: rest =>
    match rest with
    | [] => .error (.atEnd .numberInvalid)
    | c :: _ => if isDigit c then .ok (rest.dropWhile isDigit) else .error (.next .numberInvalid rest)
  | cs => .ok cs

/-- The text behind an exponent, if one follows. -/
def skipExponent : List Char → Checked (List Char)
  | [] => .ok []
  | c :: rest =>
    if c = 'e' || c = 'E' then
      let digits := (readSign rest).2
      match digits with
      | [] => .error (.atEnd .numberInvalid)
      | d :: _ =>
        if isDigit d then .ok (digits.dropWhile isDigit) else .error (.next .numberInvalid digits)
    else .ok (c :: rest)

/-- The text behind a numeral, from behind its minus sign if it has one. -/
def skipNumeral (cs : List Char) : Checked (List Char) := do
  let cs ← skipWhole cs
  let cs ← skipFraction cs
  skipExponent cs

/-- A container that is being passed over. -/
inductive Frame where
  | list
  | object

/-- Where the passing stands: in front of a value, of a key, or behind a value. -/
inductive Place where
  | value
  | key
  | behind

/-- Pass over what is left of the open containers, innermost first. -/
def skipFrom : Nat → Place → List Frame → List Char → Checked (List Char)
  | 0, _, _, cs => .error (.here .endInValue cs)
  | steps + 1, .value, frames, cs =>
    match skipBlanks cs with
    | [] => .error (.atEnd .endInValue)
    | c :: rest =>
      if c = 'n' then
        match readWord ['u', 'l', 'l'] rest with
        | .error e => .error e
        | .ok rest => skipFrom steps .behind frames rest
      else if c = 't' then
        match readWord ['r', 'u', 'e'] rest with
        | .error e => .error e
        | .ok rest => skipFrom steps .behind frames rest
      else if c = 'f' then
        match readWord ['a', 'l', 's', 'e'] rest with
        | .error e => .error e
        | .ok rest => skipFrom steps .behind frames rest
      else if c = '"' then
        match skipString rest with
        | .error e => .error e
        | .ok rest => skipFrom steps .behind frames rest
      else if c = '-' then
        match skipNumeral rest with
        | .error e => .error e
        | .ok rest => skipFrom steps .behind frames rest
      else if isDigit c then
        match skipNumeral (c :: rest) with
        | .error e => .error e
        | .ok rest => skipFrom steps .behind frames rest
      else if c = '[' then
        match skipBlanks rest with
        | [] => .error (.atEnd .endInList)
        | d :: rest =>
          if d = ']' then skipFrom steps .behind frames rest
          else skipFrom steps .value (.list :: frames) (d :: rest)
      else if c = '\x7b' then
        match skipBlanks rest with
        | [] => .error (.atEnd .endInObject)
        | d :: rest =>
          if d = '\x7d' then skipFrom steps .behind frames rest
          else skipFrom steps .key (.object :: frames) (d :: rest)
      else .error (.next .valueExpected (c :: rest))
  | steps + 1, .key, frames, cs =>
    match skipBlanks cs with
    | [] => .error (.atEnd .endInObject)
    | c :: rest =>
      if c = '"' then
        match skipString rest with
        | .error e => .error e
        | .ok rest =>
          match readColon rest with
          | .error e => .error e
          | .ok rest => skipFrom steps .value frames rest
      else .error (.next .keyExpected (c :: rest))
  | _ + 1, .behind, [], cs => .ok cs
  | steps + 1, .behind, .list :: frames, cs =>
    match skipBlanks cs with
    | [] => .error (.atEnd .endInList)
    | c :: rest =>
      if c = ',' then skipFrom steps .value (.list :: frames) rest
      else if c = ']' then skipFrom steps .behind frames rest
      else .error (.next .listEndExpected (c :: rest))
  | steps + 1, .behind, .object :: frames, cs =>
    match skipBlanks cs with
    | [] => .error (.atEnd .endInObject)
    | c :: rest =>
      if c = ',' then skipFrom steps .key (.object :: frames) rest
      else if c = '\x7d' then skipFrom steps .behind frames rest
      else .error (.next .objectEndExpected (c :: rest))

/-- The text behind a value. -/
def skipValue (cs : List Char) : Checked (List Char) :=
  skipFrom (stepsFor cs) .value [] cs

end Json
end GrammarSync
