/-
# Faults of a JSON text

A fault is a cause and the place where it shows. While a text is read, the
place is kept as the number of bytes that are still unread there; the line and
the column are worked out once, when the fault is described.

Key definitions: `Fault`, `Fault.here`, `Fault.next`, `Json.Cause`,
`Fault.describe`.
-/
import GrammarSync.Text.Position

namespace GrammarSync

open Text

/-- A cause and the count of bytes unread where it shows. -/
structure Fault (ε : Type) where
  cause : ε
  unread : Nat
deriving DecidableEq, Repr

namespace Fault

variable {ε δ : Type}

/-- A fault in front of the rest of the text. -/
def here (cause : ε) (rest : List Char) : Fault ε :=
  ⟨cause, byteCount rest⟩

/-- A fault behind the next byte, or at the end of the text. -/
def next (cause : ε) (rest : List Char) : Fault ε :=
  ⟨cause, byteCount rest - 1⟩

/-- A fault at the end of the text. -/
def atEnd (cause : ε) : Fault ε :=
  ⟨cause, 0⟩

/-- The fault with its cause changed. -/
def map (f : ε → δ) (x : Fault ε) : Fault δ :=
  ⟨f x.cause, x.unread⟩

/-- The place of a fault in the text that was read. -/
def position (x : Fault ε) (text : String) : Position :=
  let bytes := text.toUTF8.data.toList
  .ofOffset bytes (bytes.length - x.unread)

/-- The cause's message and the place. -/
def describe (message : ε → String) (x : Fault ε) (text : String) : String :=
  message x.cause ++ " at " ++ (x.position text).describe

end Fault

namespace Json

/-- What is wrong with a JSON text. -/
inductive Cause where
  | endInValue
  | endInList
  | endInObject
  | endInString
  | valueExpected
  | wordExpected
  | colonExpected
  | listEndExpected
  | objectEndExpected
  | keyExpected
  | trailingComma
  | trailingCharacters
  | tooDeep
  | numberInvalid
  | numberTooLarge
  | controlCharacter
  | escapeInvalid
  | loneSurrogate
  | surrogateUnpaired
deriving DecidableEq, Repr

/-- The message of a cause. -/
def Cause.message : Cause → String
  | .endInValue => "EOF while parsing a value"
  | .endInList => "EOF while parsing a list"
  | .endInObject => "EOF while parsing an object"
  | .endInString => "EOF while parsing a string"
  | .valueExpected => "expected value"
  | .wordExpected => "expected ident"
  | .colonExpected => "expected `:`"
  | .listEndExpected => "expected `,` or `]`"
  | .objectEndExpected => "expected `,` or `\x7d`"
  | .keyExpected => "key must be a string"
  | .trailingComma => "trailing comma"
  | .trailingCharacters => "trailing characters"
  | .tooDeep => "recursion limit exceeded"
  | .numberInvalid => "invalid number"
  | .numberTooLarge => "number out of range"
  | .controlCharacter => "control character (\\u0000-\\u001F) found while parsing a string"
  | .escapeInvalid => "invalid escape"
  | .loneSurrogate => "lone leading surrogate in hex escape"
  | .surrogateUnpaired => "unexpected end of hex escape"

end Json
end GrammarSync
