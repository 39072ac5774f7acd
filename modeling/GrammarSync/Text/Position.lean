/-
# Places in a text

A place is a line, counted from one, and a column: the number of bytes between
the last line break before the place and the place itself.

Key definitions: `Position`, `Position.ofOffset`.
-/

namespace GrammarSync
namespace Text

/-- A place in a text. -/
structure Position where
  line : Nat
  column : Nat
deriving DecidableEq, Repr

/-- The byte of a line break. -/
def lineBreak : UInt8 := 10

/-- The place after the first `offset` bytes. -/
def Position.ofOffset (bytes : List UInt8) (offset : Nat) : Position :=
  let before := bytes.take offset
  ⟨1 + before.count lineBreak, (before.reverse.takeWhile (· ≠ lineBreak)).length⟩

/-- `line L column C`. -/
def Position.describe (p : Position) : String :=
  "line " ++ toString p.line ++ " column " ++ toString p.column

/-- The length of a text in bytes of UTF-8. -/
def byteCount (cs : List Char) : Nat :=
  cs.foldr (fun c n => c.utf8Size + n) 0

end Text
end GrammarSync
