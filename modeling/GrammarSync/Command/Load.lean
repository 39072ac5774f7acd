/-
# Loading and storing

Texts become taxonomies and grammars, each step with its own faults: a
taxonomy must declare every category that the rules of the table name, a
grammar must have the right shape. `path` says where a text comes from.

Key definitions: `parseTaxonomy`, `parseGrammar`, `loadTaxonomy`,
`loadGrammar`, `storeGrammar`.
-/
import GrammarSync.Command.Fault
import GrammarSync.Json.Reader
import GrammarSync.Taxonomy.Reader

namespace GrammarSync

/-- The taxonomy of a text, with all categories that the table needs. -/
def parseTaxonomy (text path : String) (t : ScopeTable) : Except RunFault Taxonomy :=
  match Taxonomy.readTaxonomy text with
  | .error f => .error (.malformedInput path f.cause (f.position text))
  | .ok taxonomy =>
    match t.missingCategories taxonomy with
    | missing :: _ => .error (.missingCategory path missing)
    | [] => .ok taxonomy

/-- The grammar of a text. -/
def parseGrammar (text path : String) : Except RunFault Document :=
  match Json.readDocument text with
  | .error f => .error (.malformedInput path (.malformed f.cause) (f.position text))
  | .ok v =>
    match Document.ofJson v with
    | .error f => .error (.invalidShape path (f.pointer "") f.problem.message)
    | .ok d => .ok d

/-- The text of an input. -/
def readInput (files : Files) (input : Input) (path : String) : Except RunFault String :=
  if files.present path then
    match files.read path with
    | .ok text => .ok text
    | .error e => .error (.inaccessible path e)
  else .error (.missingInput input path)

/-- The taxonomy of a file. -/
def loadTaxonomy (files : Files) (path : String) (t : ScopeTable) : Except RunFault Taxonomy :=
  match readInput files .taxonomy path with
  | .error e => .error e
  | .ok text => parseTaxonomy text path t

/-- The grammar of a file. -/
def loadGrammar (files : Files) (path : String) : Except RunFault Document :=
  match readInput files .grammar path with
  | .error e => .error e
  | .ok text => parseGrammar text path

/-- The files with a grammar stored. -/
def storeGrammar (files : Files) (path : String) (d : Document) : Except RunFault Files :=
  match files.write path d.render with
  | .ok files => .ok files
  | .error e => .error (.inaccessible path e)

end GrammarSync
