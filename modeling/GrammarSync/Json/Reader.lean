/-
# Reading JSON texts

A text is one value between blanks. Containers may be nested 127 deep. The
reader follows the text from left to right and stops at the first fault.

`Step` is what stands between two elements of a container: the end of the
container, or the start of a further element. An object of the text may repeat
a key: `readDocument` merges repetitions, `readValue` keeps them.

Readers are called with more steps than the text has characters, twice over:
every second call leaves at least one character behind.

Key definitions: `nextItem`, `nextKey`, `readValue`, `readDocument`.
-/
import GrammarSync.Json.Lexical
import GrammarSync.Json.Value

namespace GrammarSync
namespace Json

/-- What follows inside a container: its end, or an element. -/
inductive Step where
  /-- The container is closed; the text behind it. -/
  | stop (rest : List Char)
  /-- An element starts. -/
  | more (rest : List Char)

/-- The step in a list, in front of its first item or behind an item. -/
def nextItem (first : Bool) (cs : List Char) : Checked Step :=
  match skipBlanks cs with
  | [] => .error (.atEnd .endInList)
  | c :: rest =>
    if c = ']' then .ok (.stop rest)
    else if first then .ok (.more (c :: rest))
    else if c = ',' then
      match skipBlanks rest with
      | [] => .error (.atEnd .endInValue)
      | d :: rest =>
        if d = ']' then .error (.next .trailingComma (d :: rest)) else .ok (.more (d :: rest))
    else .error (.next .listEndExpected (c :: rest))

/-- The step in an object, in front of its first member or behind a member; a member starts
behind the quotation mark of its key. -/
def nextKey (first : Bool) (cs : List Char) : Checked Step :=
  match skipBlanks cs with
  | [] => .error (.atEnd .endInObject)
  | c :: rest =>
    if c = '\x7d' then .ok (.stop rest)
    else if first then
      if c = '"' then .ok (.more rest) else .error (.next .keyExpected (c :: rest))
    else if c = ',' then
      match skipBlanks rest with
      | [] => .error (.atEnd .endInValue)
      | d :: rest =>
        if d = '"' then .ok (.more rest)
        else if d = '\x7d' then .error (.next .trailingComma (d :: rest))
        else .error (.next .keyExpected (d :: rest))
    else .error (.next .objectEndExpected (c :: rest))

/-- The text behind the colon that must follow a key. -/
def readColon (cs : List Char) : Checked (List Char) :=
  match skipBlanks cs with
  | [] => .error (.atEnd .endInObject)
  | c :: rest => if c = ':' then .ok rest else .error (.next .colonExpected (c :: rest))

/-- A word's value, if its letters follow. -/
def readLiteral (letters : List Char) (value : Json) (cs : List Char) : Checked (Json × List Char) := do
  let rest ← readWord letters cs
  .ok (value, rest)

mutual
/-- A value; `depth` more containers may be nested in it. -/
def readValue (steps depth : Nat) (cs : List Char) : Checked (Json × List Char) :=
  match steps with
  | 0 => .error (.here .endInValue cs)
  | steps + 1 =>
    match skipBlanks cs with
    | [] => .error (.atEnd .endInValue)
    | c :: rest =>
      if c = 'n' then readLiteral ['u', 'l', 'l'] .null rest
      else if c = 't' then readLiteral ['r', 'u', 'e'] (.bool true) rest
      else if c = 'f' then readLiteral ['a', 'l', 's', 'e'] (.bool false) rest
      else if c = '"' then do
        let (s, rest) ← readString rest
        .ok (.string s, rest)
      else if c = '-' then do
        let (n, rest) ← readNumber true rest
        .ok (.number n, rest)
      else if isDigit c then do
        let (n, rest) ← readNumber false (c :: rest)
        .ok (.number n, rest)
      else if c = '[' then
        match depth with
        | 0 => .error (.next .tooDeep (c :: rest))
        | depth + 1 => do
          let (items, rest) ← readItems steps depth true rest
          .ok (.array items, rest)
      else if c = '\x7b' then
        match depth with
        | 0 => .error (.next .tooDeep (c :: rest))
        | depth + 1 => do
          let (members, rest) ← readMembers steps depth true rest
          .ok (.object members, rest)
      else .error (.next .valueExpected (c :: rest))

/-- The items up to the end of a list. -/
def readItems (steps depth : Nat) (first : Bool) (cs : List Char) : Checked (List Json × List Char) :=
  match steps with
  | 0 => .error (.here .endInList cs)
  | steps + 1 => do
    match ← nextItem first cs with
    | .stop rest => .ok ([], rest)
    | .more rest =>
      let (v, rest) ← readValue steps depth rest
      let (vs, rest) ← readItems steps depth false rest
      .ok (v :: vs, rest)

/-- The members up to the end of an object. -/
def readMembers (steps depth : Nat) (first : Bool) (cs : List Char) :
    Checked (List (String × Json) × List Char) :=
  match steps with
  | 0 => .error (.here .endInObject cs)
  | steps + 1 => do
    match ← nextKey first cs with
    | .stop rest => .ok ([], rest)
    | .more rest =>
      let (key, rest) ← readString rest
      let rest ← readColon rest
      let (v, rest) ← readValue steps depth rest
      let (ms, rest) ← readMembers steps depth false rest
      .ok ((key, v) :: ms, rest)
end

/-- How deep containers may be nested. -/
def depthLimit : Nat := 127

/-- More steps than reading a text takes. -/
def stepsFor (cs : List Char) : Nat :=
  2 * cs.length + 2

/-- Behind the value of a text only blanks may follow. -/
def readEnd (cs : List Char) : Checked Unit :=
  match skipBlanks cs with
  | [] => .ok ()
  | c :: rest => .error (.next .trailingCharacters (c :: rest))

/-- The value of a whole text, repeated keys merged. -/
def readDocument (text : String) : Checked Json := do
  let cs := text.toList
  let (v, rest) ← readValue (stepsFor cs) depthLimit cs
  readEnd rest
  .ok v.merged

end Json
end GrammarSync
