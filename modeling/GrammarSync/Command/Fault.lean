/-
# Faults of a run

Everything that ends a run before it is done: an input that is missing or
cannot be read, a text that is malformed or has the wrong shape, a category
that the scope table needs and the taxonomy lacks. A fault has a message, a
code and often a line of help; on the command line the message and the help
are one failure with exit code 1.

Key definitions: `RunFault`, `RunFault.message`, `RunFault.help?`, `Failure`.
-/
import GrammarSync.Command.Files
import GrammarSync.Grammar.Shape
import GrammarSync.Scope.Table
import GrammarSync.Taxonomy.Fault

namespace GrammarSync

/-- The two files that a run reads. -/
inductive Input where
  | taxonomy
  | grammar
deriving DecidableEq, Repr

/-- The name by which an input is known. -/
def Input.fileName : Input → String
  | .taxonomy => "syntax-data.json"
  | .grammar => "hew.tmLanguage.json"

/-- How a different file is chosen. -/
def Input.hint : Input → String
  | .taxonomy => "Set HEW_SYNTAX_DATA env var (or pass --syntax-data) to the correct path."
  | .grammar => "Pass --grammar with the path to hew.tmLanguage.json."

/-- Why a run ends early. -/
inductive RunFault where
  | missingInput (input : Input) (path : String)
  | malformedInput (path : String) (cause : Taxonomy.Cause) (position : Text.Position)
  | invalidShape (path pointer detail : String)
  | missingCategory (path : String) (missing : MissingCategory)
  | inaccessible (path : String) (fault : FileFault)

namespace RunFault

/-- The message of a fault. -/
def message : RunFault → String
  | .missingInput input path => input.fileName ++ " not found at " ++ path
  | .malformedInput path cause position =>
    "failed to parse " ++ path ++ ": " ++ cause.message ++ " at " ++ position.describe
  | .invalidShape path pointer detail =>
    "unexpected shape in " ++ path ++ " at `" ++ pointer ++ "`: " ++ detail
  | .missingCategory path missing =>
    missing.role.part ++ " category `" ++ missing.category ++ "` (needed by " ++ missing.scope ++
      ") is missing from " ++ path
  | .inaccessible path fault => "I/O error on " ++ path ++ ": " ++ fault.message

/-- The code of a fault. -/
def code : RunFault → String
  | .missingInput .. => "hew_grammar::missing_input"
  | .malformedInput .. => "hew_grammar::malformed_input"
  | .invalidShape .. => "hew_grammar::invalid_shape"
  | .missingCategory .. => "hew_grammar::missing_category"
  | .inaccessible .. => "hew_grammar::io"

/-- What to do about a fault. -/
def help? : RunFault → Option String
  | .missingInput input _ => some input.hint
  | .invalidShape .. =>
    some ("Pattern nodes need string `name`/`match`/`comment` fields and an array of objects " ++
      "for `patterns`.")
  | .missingCategory .. =>
    some "Update the scope table in hew_vocab if the category was renamed upstream."
  | .malformedInput .. => none
  | .inaccessible .. => none

end RunFault

/-- The message and the exit code with which a command ends early. -/
structure Failure where
  message : String
  exitCode : Nat
deriving DecidableEq, Repr

namespace Failure

/-- A failure with exit code 1. -/
def plain (message : String) : Failure :=
  ⟨message, 1⟩

/-- The message of a fault, its help on a line of its own. -/
def ofFault (f : RunFault) : Failure :=
  plain ("Error: " ++ f.message ++
    match f.help? with
    | some help => "\n" ++ help
    | none => "")

end Failure
end GrammarSync
