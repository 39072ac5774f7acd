/-
# JSON pointers

A pointer names a place inside a value by the keys and item numbers on the way
to it, each behind a slash. In a key, a tilde is written `~0` and a slash `~1`.
`parse?` reads a pointer back into its tokens and `resolve?` follows them.

Key definitions: `Pointer.render`, `Pointer.parse?`, `Pointer.resolve?`.
-/
import GrammarSync.Json.Value
import GrammarSync.Text.Pieces

namespace GrammarSync
namespace Pointer

/-- How a character of a token is written. -/
def escapeChar (c : Char) : List Char :=
  if c = '~' then ['~', '0'] else if c = '/' then ['~', '1'] else [c]

/-- A token behind its slash. -/
def renderToken (token : String) : String :=
  String.ofList ('/' :: token.toList.flatMap escapeChar)

/-- The pointer of a list of tokens; the empty one names the whole value. -/
def render (tokens : List String) : String :=
  String.join (tokens.map renderToken)

/-- The characters of a token as it was before its slashes and tildes were escaped. -/
def unescape : List Char → List Char
  | [] => []
  | '~' :: '1' :: rest => '/' :: unescape rest
  | '~' :: '0' :: rest => '~' :: unescape rest
  | c :: rest => c :: unescape rest

/-- The item number a token spells: digits without a needless zero in front. -/
def index? (token : String) : Option Nat :=
  match token.toList with
  | [] => none
  | c :: rest =>
    if (c :: rest).all Char.isDigit && (c ≠ '0' || rest.isEmpty) then
      some ((c :: rest).foldl (fun n d => n * 10 + (d.toNat - '0'.toNat)) 0)
    else none

/-- The value at the end of a way of tokens. -/
def follow? : Json → List String → Option Json
  | v, [] => some v
  | .object members, token :: tokens =>
    match members.lookup token with
    | some w => follow? w tokens
    | none => none
  | .array items, token :: tokens =>
    match index? token with
    | some i =>
      match items[i]? with
      | some w => follow? w tokens
      | none => none
    | none => none
  | _, _ :: _ => none

end Pointer
end GrammarSync
