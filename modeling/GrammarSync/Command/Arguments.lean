/-
# The command line

The words of a command line are options of the program, one of its commands,
and options of that command. The two path options may stand on either side of
the command's name; behind it they count more. An option takes the word behind
it, or what stands behind an equals sign in its own word.

A word behind an option waits until the next option or the end before it is
checked: the option must have got one, must not have got one before at the
same level, and a path must not be empty. So an unknown word further on is
reported first.

Key definitions: `UsageError`, `Invocation`, `parseArguments`.
-/
import GrammarSync.Command.Run

namespace GrammarSync

/-- Why a command line does not lead to a run. -/
inductive UsageError where
  | argumentConflict
  | tooManyValues
  | invalidValue
  | unknownArgument
  | invalidSubcommand
  | displayHelp
  | displayVersion
deriving DecidableEq, Repr

namespace UsageError

/-- What the program prints for `--version`. -/
def versionText : String :=
  "hew-grammar 0.3.0\n"

/-- What the program prints for `--help`. -/
def helpText : String :=
  String.intercalate "\n"
    ["Keep the Hew TextMate grammar in sync with syntax-data.json",
      "",
      "Usage: hew-grammar [OPTIONS] [COMMAND]",
      "",
      "Commands:",
      "  sync  Update the grammar from syntax-data.json",
      "  lint  Check the grammar's structure",
      "  help  Print this message",
      "",
      "Options:",
      "      --syntax-data <PATH>  Path to the compiler's syntax-data.json [env: HEW_SYNTAX_DATA]",
      "      --grammar <PATH>      Path to the TextMate grammar to update",
      "      --check               With sync: report what would change without writing",
      "      --scope-name <SCOPE>  With lint: expected top-level scopeName",
      "  -h, --help                Print help",
      "  -V, --version             Print version",
      ""]

/-- What the program prints instead of running. -/
def message : UsageError → String
  | .argumentConflict => "error: an option is given twice\n"
  | .tooManyValues => "error: a value for an option that takes none\n"
  | .invalidValue => "error: an option without the value it needs\n"
  | .unknownArgument => "error: unexpected argument\n"
  | .invalidSubcommand => "error: unrecognized subcommand\n"
  | .displayHelp => helpText
  | .displayVersion => versionText

/-- The exit code of a command line that does not lead to a run. -/
def exitCode : UsageError → Nat
  | .displayHelp => 0
  | .displayVersion => 0
  | _ => 2

end UsageError

/-- A command with its own options. -/
inductive Command where
  | sync (check : Bool)
  | lint (scopeName : Option String)
deriving DecidableEq, Repr

/-- What a command line asks for; a path that is not given has its default. -/
structure Invocation where
  command : Option Command
  syntaxData : Option String
  grammar : Option String
deriving DecidableEq, Repr

namespace Arguments

/-- The part of a command line: in front of a command's name, or behind it. -/
inductive Level where
  | top
  | sync
  | lint
deriving DecidableEq, Repr

/-- An option that takes a value. -/
inductive Setting where
  | syntaxData
  | grammar
  | scopeName
deriving DecidableEq, Repr

/-- An option by its name. -/
inductive Choice where
  | setting (s : Setting)
  | check
  | help
  | version
deriving DecidableEq, Repr

/-- The option of a long name at a level. -/
def longOption? (level : Level) (name : String) : Option Choice :=
  if name = "syntax-data" then some (.setting .syntaxData)
  else if name = "grammar" then some (.setting .grammar)
  else if name = "scope-name" && level = .lint then some (.setting .scopeName)
  else if name = "check" && level = .sync then some .check
  else if name = "help" then some .help
  else if name = "version" && level = .top then some .version
  else none

/-- The option of a letter at a level. -/
def shortOption? (level : Level) (letter : Char) : Option Choice :=
  if letter = 'h' then some .help
  else if letter = 'V' && level = .top then some .version
  else none

/-- The options read at a level. -/
structure Settings where
  syntaxData : Option String
  grammar : Option String
  scopeName : Option String
  check : Bool
  /-- The last option and the word behind it, not yet checked. -/
  waiting : Option (Setting × Option String)

namespace Settings

/-- No option is read. -/
def empty : Settings :=
  ⟨none, none, none, false, none⟩

/-- The value of an option. -/
def get? (s : Settings) : Setting → Option String
  | .syntaxData => s.syntaxData
  | .grammar => s.grammar
  | .scopeName => s.scopeName

/-- Whether the next word belongs to the last option. -/
def wants (s : Settings) : Option Setting :=
  match s.waiting with
  | some (o, none) => some o
  | _ => none

/-- Give an option its value. -/
def assign (s : Settings) (o : Setting) (value : String) : Except UsageError Settings :=
  if (s.get? o).isSome then .error .argumentConflict
  else match o with
    | .syntaxData =>
      if value.isEmpty then .error .invalidValue else .ok { s with syntaxData := some value }
    | .grammar =>
      if value.isEmpty then .error .invalidValue else .ok { s with grammar := some value }
    | .scopeName => .ok { s with scopeName := some value }

/-- Check the option that waits. -/
def settle (s : Settings) : Except UsageError Settings :=
  match s.waiting with
  | none => .ok s
  | some (_, none) => .error .invalidValue
  | some (o, some value) => { s with waiting := none }.assign o value

/-- Take an option with what stands behind its equals sign. -/
def take (s : Settings) (c : Choice) (value : Option String) : Except UsageError Settings :=
  match c, value with
  | .setting o, none => do
    let s ← s.settle
    .ok { s with waiting := some (o, none) }
  | .setting o, some value => do
    let s ← s.settle
    s.assign o value
  | _, some _ => .error .tooManyValues
  | .check, none => do
    let s ← s.settle
    if s.check then .error .argumentConflict else .ok { s with check := true }
  | .help, none => do
    let _ ← s.settle
    .error .displayHelp
  | .version, none => do
    let _ ← s.settle
    .error .displayVersion

end Settings

/-- The name and the value of a word that starts with two dashes. -/
def splitLong (name : List Char) : String × Option String :=
  match name.dropWhile (· ≠ '=') with
  | [] => (String.ofList name, none)
  | _ :: value => (String.ofList (name.takeWhile (· ≠ '=')), some (String.ofList value))

/-- The words behind `help`: a command's name or nothing. -/
def help (words : List String) : UsageError :=
  match words with
  | [] => .displayHelp
  | [name] =>
    if name = "sync" || name = "lint" || name = "help" then .displayHelp else .invalidSubcommand
  | _ => .invalidSubcommand

/-- What a word without dashes is, if no option wants it. -/
def strayWord (level : Level) : UsageError :=
  match level with
  | .top => .invalidSubcommand
  | _ => .unknownArgument

/-- The command of a name. -/
def commandLevel? (name : String) : Option Level :=
  if name = "sync" then some .sync
  else if name = "lint" then some .lint
  else none

/-- Read the words of a level; stops at a command's name, with the words behind it. -/
def read (level : Level) (s : Settings) :
    List String → Except UsageError (Settings × Option (Level × List String))
  | [] => .ok (s, none)
  | word :: rest =>
    let wanted := s.wants
    match (if level = .top && wanted.isNone then commandLevel? word else none) with
    | some command => .ok (s, some (command, rest))
    | none =>
      if level = .top && wanted.isNone && word = "help" then .error (help rest)
      else match word.toList with
        | ['-', '-'] => if rest.isEmpty then .ok (s, none) else .error .unknownArgument
        | '-' :: '-' :: name =>
          let (name, value) := splitLong name
          match longOption? level name with
          | none => .error .unknownArgument
          | some c => do
            let s ← s.take c value
            read level s rest
        | '-' :: letter :: _ =>
          match shortOption? level letter with
          | none => .error .unknownArgument
          | some c => do
            let s ← s.take c none
            read level s rest
        | _ =>
          match wanted with
          | some o => read level { s with waiting := some (o, some word) } rest
          | none => .error (strayWord level)

/-- The end of a level: the last option is checked, and so is the path in the environment. -/
def close (s : Settings) (env : Option String) : Except UsageError Settings := do
  let s ← s.settle
  if env = some "" then .error .invalidValue else .ok s

/-- The command of a level with its options. -/
def command (level : Level) (s : Settings) : Option Command :=
  match level with
  | .top => none
  | .sync => some (.sync s.check)
  | .lint => some (.lint s.scopeName)

end Arguments

open Arguments in
/-- What a command line asks for; `env` is the path of the taxonomy in the environment, which
counts if no option gives one. -/
def parseArguments (words : List String) (env : Option String) : Except UsageError Invocation := do
  let (top, found) ← Arguments.read .top Settings.empty words
  match found with
  | none =>
    let top ← close top env
    .ok ⟨none, top.syntaxData.or env, top.grammar⟩
  | some (level, rest) =>
    let (sub, _) ← Arguments.read level Settings.empty rest
    let sub ← close sub env
    let top ← close top env
    .ok ⟨command level sub, (sub.syntaxData.or top.syntaxData).or env, sub.grammar.or top.grammar⟩

/-- The scope name that a lint expects if no option says otherwise. -/
def defaultScopeName : String :=
  "source.hew"

/-- The path of the taxonomy if neither an option nor the environment gives one. -/
def defaultSyntaxData : String :=
  "../hew/docs/syntax-data.json"

/-- The path of the grammar if no option gives one. -/
def defaultGrammar : String :=
  "syntaxes/hew.tmLanguage.json"

namespace Invocation

/-- Whether nothing is to be written. -/
def check (i : Invocation) : Bool :=
  match i.command with
  | some (.sync check) => check
  | _ => false

/-- The scope name that a lint expects. -/
def scopeName (i : Invocation) : String :=
  match i.command with
  | some (.lint (some name)) => name
  | _ => defaultScopeName

/-- The settings of the command. -/
def config (i : Invocation) : Config where
  syntaxData := i.syntaxData.getD defaultSyntaxData
  grammar := i.grammar.getD defaultGrammar
  check := i.check
  scopeName := i.scopeName

/-- Run the command; without a name it is a synchronization. -/
def run (i : Invocation) (files : Files) (sink : Sink) : Run :=
  match i.command with
  | some (.lint _) => runLint files sink i.config
  | _ => runSync files sink i.config

end Invocation
end GrammarSync
