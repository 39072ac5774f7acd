/-
# The two commands

`runSync` brings the grammar of a file in line with the taxonomy of another;
in check mode it only says what would change, and fails if anything would.
`runLint` checks the structure of a grammar. A report goes to a sink, which
may take only so many bytes: a text that does not fit ends the command.

Key definitions: `Sink`, `Config`, `Run`, `runSync`, `runLint`.
-/
import GrammarSync.Command.Load
import GrammarSync.Grammar.Lint
import GrammarSync.Scope.Hew
import GrammarSync.Sync.Run

namespace GrammarSync

/-- Where a report goes. -/
structure Sink where
  written : String
  /-- The bytes that fit, if not any number does. -/
  capacity : Option Nat
  /-- What is said of a text that does not fit. -/
  fault : String

namespace Sink

/-- A sink that takes every report. -/
def unbounded : Sink :=
  ⟨"", none, ""⟩

/-- A sink that takes a number of bytes. -/
def bounded (capacity : Nat) (fault : String) : Sink :=
  ⟨"", some capacity, fault⟩

/-- Whether the text fits behind what is written. -/
def fits (s : Sink) (text : String) : Bool :=
  match s.capacity with
  | none => true
  | some n => s.written.utf8ByteSize + text.utf8ByteSize ≤ n

/-- Write texts one after the other until one does not fit; says whether all did. -/
def write (s : Sink) : List String → Sink × Bool
  | [] => (s, true)
  | text :: rest =>
    if s.fits text then write { s with written := s.written ++ text } rest else (s, false)

/-- The failure of a text that does not fit. -/
def failure (s : Sink) : Failure :=
  .plain ("Error writing output: " ++ s.fault)

end Sink

/-- The settings of a command. -/
structure Config where
  syntaxData : String
  grammar : String
  /-- Say what would change and write nothing. -/
  check : Bool
  /-- The scope name that the structural checks expect. -/
  scopeName : String
deriving DecidableEq, Repr

/-- How a command ends: the files, the report, and a failure if there is one. -/
structure Run where
  files : Files
  sink : Sink
  failure : Option Failure

/-- The exit code of a command. -/
def Run.exitCode (r : Run) : Nat :=
  match r.failure with
  | some f => f.exitCode
  | none => 0

/-- The first input that is missing. -/
def missingInput? (files : Files) (c : Config) : Option RunFault :=
  if !files.present c.syntaxData then some (.missingInput .taxonomy c.syntaxData)
  else if !files.present c.grammar then some (.missingInput .grammar c.grammar)
  else none

/-- The first lines of the report. -/
def headerLines (c : Config) : List String :=
  ["Reading syntax data from: " ++ c.syntaxData ++ "\n",
    (if c.check then "Checking grammar at:     " else "Updating grammar at:     ") ++ " " ++
      c.grammar ++ "\n\n"]

/-- The body of the report. -/
def bodyLines (c : Config) (version : Taxonomy.Version) (o : Outcome) : List String :=
  ["TextMate grammar " ++ (if c.check then "checked against" else "updated from") ++
      " syntax-data.json v" ++ version.display ++ "\n\n",
    ChangeLog.render o.changes, Outcome.renderSkipped o.skipped, o.coverage.render]

/-- The failure of a check that finds changes. -/
def outOfDate (o : Outcome) : Failure :=
  .plain ("Grammar is out of date: " ++ toString o.changes.length ++
    " pattern(s) would change. Run `hew-grammar sync` to apply.")

/-- Both inputs. -/
def loadInputs (files : Files) (c : Config) : Except RunFault (Taxonomy × Document) :=
  match loadTaxonomy files c.syntaxData .hew with
  | .error e => .error e
  | .ok taxonomy =>
    match loadGrammar files c.grammar with
    | .error e => .error e
    | .ok d => .ok (taxonomy, d)

/-- The files with the grammar stored, unless only checking. -/
def storeResult (files : Files) (c : Config) (d : Document) : Except RunFault Files :=
  if c.check then .ok files else storeGrammar files c.grammar d

/-- The end of a run whose grammar is stored: the body of the report, and `Done.` unless a check
finds changes. -/
def finishSync (files : Files) (sink : Sink) (c : Config) (version : Taxonomy.Version)
    (o : Outcome) : Run :=
  match sink.write (bodyLines c version o) with
  | (sink, false) => ⟨files, sink, some sink.failure⟩
  | (sink, true) =>
    if c.check && !o.inSync then ⟨files, sink, some (outOfDate o)⟩
    else
      match sink.write ["Done.\n"] with
      | (sink, false) => ⟨files, sink, some sink.failure⟩
      | (sink, true) => ⟨files, sink, none⟩

/-- Synchronize the grammar of a file. -/
def runSync (files : Files) (sink : Sink) (c : Config) : Run :=
  match missingInput? files c with
  | some e => ⟨files, sink, some (.ofFault e)⟩
  | none =>
    match sink.write (headerLines c) with
    | (sink, false) => ⟨files, sink, some sink.failure⟩
    | (sink, true) =>
      match loadInputs files c with
      | .error e => ⟨files, sink, some (.ofFault e)⟩
      | .ok (taxonomy, d) =>
        let (d, o) := synchronize .hew taxonomy d
        match storeResult files c d with
        | .error e => ⟨files, sink, some (.ofFault e)⟩
        | .ok files => finishSync files sink c taxonomy.version o

/-- The report of a lint that finds issues. -/
def issueLines (c : Config) (issues : List Issue) : List String :=
  (toString issues.length ++ " issue(s) in " ++ c.grammar ++ ":\n") ::
    issues.map fun i => "  - " ++ i.describe ++ "\n"

/-- Check the structure of the grammar of a file. -/
def runLint (files : Files) (sink : Sink) (c : Config) : Run :=
  match loadGrammar files c.grammar with
  | .error e => ⟨files, sink, some (.ofFault e)⟩
  | .ok d =>
    let issues := lint d .hew c.scopeName
    let lines := if issues.isEmpty then ["✓ " ++ c.grammar ++ " passed lint\n"]
      else issueLines c issues
    match sink.write lines with
    | (sink, false) => ⟨files, sink, some sink.failure⟩
    | (sink, true) => ⟨files, sink, if issues.isEmpty then none else some (.plain "")⟩

end GrammarSync
