/-
# Quoted texts in messages

A message shows a text between quotation marks on one line: a quotation mark,
a backslash and the usual controls have short escapes, and every other
character without a shape of its own is given by its code point, `\u{200b}`.

Key definitions: `quoted`.
-/
import GrammarSync.Text.Printable

namespace GrammarSync
namespace Text

/-- How a character stands in a quoted text. -/
def quotedChar (c : Char) : List Char :=
  match c with
  | '\x00' => ['\\', '0']
  | '\t' => ['\\', 't']
  | '\r' => ['\\', 'r']
  | '\n' => ['\\', 'n']
  | '"' => ['\\', '"']
  | '\\' => ['\\', '\\']
  | c =>
    if showsItself c then [c]
    else ['\\', 'u', '\x7b'] ++ Nat.toDigits 16 c.toNat ++ ['\x7d']

/-- A text between quotation marks. -/
def quoted (s : String) : String :=
  String.ofList ('"' :: s.toList.flatMap quotedChar ++ ['"'])

end Text
end GrammarSync
