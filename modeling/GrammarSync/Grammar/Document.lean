/-
# Grammar documents

A grammar has a scope name, a sequence of patterns, and a repository of named
sections, which are nodes. Every other key of the document is raw. As in a
node, the order of all keys is kept beside the fields and the raw values.

Key definitions: `Document`, `Document.sectionPatterns?`, `Document.printed?`,
`Document.toJson`, `Document.render`, `Document.equiv`.
-/
import GrammarSync.Grammar.Node
import GrammarSync.Json.Printer

namespace GrammarSync

/-- A grammar. -/
structure Document where
  scopeName : String
  patterns : List Node
  /-- The sections in their order. -/
  repository : List (String × Node)
  /-- The values of the raw keys. -/
  rest : List (String × Json)
  /-- The keys in their order, required and raw. -/
  order : List String

namespace Document

/-- The value of a raw key. -/
def raw? (d : Document) (key : String) : Option Json :=
  d.rest.lookup key

/-- A section. -/
def section? (d : Document) (name : String) : Option Node :=
  d.repository.lookup name

/-- The patterns of a section, if it is there and has some. -/
def sectionPatterns? (d : Document) (name : String) : Option (List Node) :=
  (d.section? name).bind (·.children)

/-- Change the patterns of a section, if it is there and has some. -/
def modifySection (d : Document) (name : String) (f : List Node → List Node) : Document :=
  { d with repository :=
      Entries.modify name (fun s => { s with children := s.children.map f }) d.repository }

/-- What is printed under a key, if anything: a required field, or a raw value. -/
def printed? (d : Document) (key : String) : Option Json :=
  if key = "scopeName" then some (.string d.scopeName)
  else if key = "patterns" then some (.array (Node.toJsonAll d.patterns))
  else if key = "repository" then some (.object (d.repository.map fun e => (e.1, e.2.toJson)))
  else d.raw? key

/-- The document as a JSON value. -/
def toJson (d : Document) : Json :=
  .object (Entries.listed d.printed? d.order)

/-- The document as it is stored: one element a line, and a line break at the end. -/
def render (d : Document) : String :=
  d.toJson.pretty ++ "\n"

/-- Whether every section of the first list has an equal in the second. -/
def equivSections (xs ys : List (String × Node)) : Bool :=
  xs.all fun e =>
    match ys.lookup e.1 with
    | some n => e.2.equiv n
    | none => false

/-- Equality of documents with their order of keys; the order of sections does not count, and
raw values are equivalent, in any order. -/
def equiv (c d : Document) : Bool :=
  c.scopeName == d.scopeName && Node.equivAll c.patterns d.patterns &&
    (c.repository.length == d.repository.length && equivSections c.repository d.repository) &&
    (Json.object c.rest).equiv (.object d.rest) && c.order == d.order

end Document
end GrammarSync
