/-
# From JSON values to grammars

A node is an object whose `name`, `match` and `comment` are strings and whose
`patterns` are a list of nodes, where these keys are present. A document is an
object with a string `scopeName`, a list of nodes `patterns` and an object of
nodes `repository`. Members are checked in their order, each with all that is
nested in it before the next; the first value of a wrong kind is reported with
its place. Only then missing fields are looked for.

Key definitions: `ShapeFault`, `readNode`, `Node.ofJson`, `Document.ofJson`.
-/
import GrammarSync.Grammar.Document
import GrammarSync.Json.Pointer

namespace GrammarSync

/-- What is wrong with the shape of a value. -/
inductive ShapeProblem where
  | unexpected (wanted found : Json.Kind)
  | missing (field : String)
deriving DecidableEq, Repr

/-- The message of a problem. -/
def ShapeProblem.message : ShapeProblem → String
  | .unexpected wanted found => "expected " ++ wanted.describe ++ ", found " ++ found.describe
  | .missing field => "missing required field `" ++ field ++ "`"

/-- A problem and the way to the value that has it. -/
structure ShapeFault where
  path : List String
  problem : ShapeProblem
deriving DecidableEq, Repr

namespace ShapeFault

/-- The pointer to the value, inside a value that `base` points to. -/
def pointer (base : String) (f : ShapeFault) : String :=
  base ++ Pointer.render f.path

/-- A value of a wrong kind. -/
def unexpected (wanted : Json.Kind) (v : Json) : ShapeFault :=
  ⟨[], .unexpected wanted v.kind⟩

end ShapeFault

/-- What checking the shape of a value gives, or the first problem. -/
abbrev Shaped := Except ShapeFault

namespace Shape

/-- The check of a part, its problem placed under the part's token. -/
def within {α : Type} (token : String) : Shaped α → Shaped α
  | .ok a => .ok a
  | .error f => .error ⟨token :: f.path, f.problem⟩

/-- A string. -/
def readText : Json → Shaped String
  | .string s => .ok s
  | v => .error (.unexpected .string v)

/-- A member of a node, with its value. -/
inductive Field where
  | name (s : String)
  | regex (s : String)
  | comment (s : String)
  | children (nodes : List Node)
  | raw (key : String) (value : Json)

namespace Field

/-- The key of a member. -/
def key : Field → String
  | .name _ => "name"
  | .regex _ => "match"
  | .comment _ => "comment"
  | .children _ => "patterns"
  | .raw key _ => key

/-- The scope name a member gives. -/
def name? : Field → Option String
  | .name s => some s
  | _ => none

/-- The regular expression a member gives. -/
def regex? : Field → Option String
  | .regex s => some s
  | _ => none

/-- The comment a member gives. -/
def comment? : Field → Option String
  | .comment s => some s
  | _ => none

/-- The nested nodes a member gives. -/
def children? : Field → Option (List Node)
  | .children nodes => some nodes
  | _ => none

/-- The raw value a member gives, with its key. -/
def raw? : Field → Option (String × Json)
  | .raw key value => some (key, value)
  | _ => none

end Field

/-- The node of a list of members. -/
def node (fields : List Field) : Node where
  name := fields.findSome? Field.name?
  regex := fields.findSome? Field.regex?
  comment := fields.findSome? Field.comment?
  children := fields.findSome? Field.children?
  rest := fields.filterMap Field.raw?
  order := fields.map Field.key

mutual
/-- A node. -/
def readNode : Json → Shaped Node
  | .object members =>
    match readFields members with
    | .ok fields => .ok (node fields)
    | .error f => .error f
  | .null => .error (.unexpected .object .null)
  | .bool b => .error (.unexpected .object (.bool b))
  | .number n => .error (.unexpected .object (.number n))
  | .string s => .error (.unexpected .object (.string s))
  | .array items => .error (.unexpected .object (.array items))

/-- The members of a node. -/
def readFields : List (String × Json) → Shaped (List Field)
  | [] => .ok []
  | (key, value) :: rest =>
    match within key (readField key value) with
    | .error f => .error f
    | .ok field =>
      match readFields rest with
      | .error f => .error f
      | .ok fields => .ok (field :: fields)

/-- A member of a node. -/
def readField (key : String) (value : Json) : Shaped Field :=
  if key = "name" then (readText value).map .name
  else if key = "match" then (readText value).map .regex
  else if key = "comment" then (readText value).map .comment
  else if key = "patterns" then (readNodes value).map .children
  else .ok (.raw key value)

/-- A list of nodes. -/
def readNodes : Json → Shaped (List Node)
  | .array items => readItems 0 items
  | .null => .error (.unexpected .array .null)
  | .bool b => .error (.unexpected .array (.bool b))
  | .number n => .error (.unexpected .array (.number n))
  | .string s => .error (.unexpected .array (.string s))
  | .object members => .error (.unexpected .array (.object members))

/-- The nodes of a list, counted from `i`. -/
def readItems (i : Nat) : List Json → Shaped (List Node)
  | [] => .ok []
  | v :: rest =>
    match within (toString i) (readNode v) with
    | .error f => .error f
    | .ok n =>
      match readItems (i + 1) rest with
      | .error f => .error f
      | .ok nodes => .ok (n :: nodes)
end

/-- The sections of a repository. -/
def readSections : List (String × Json) → Shaped (List (String × Node))
  | [] => .ok []
  | (key, value) :: rest =>
    match within key (readNode value) with
    | .error f => .error f
    | .ok n =>
      match readSections rest with
      | .error f => .error f
      | .ok sections => .ok ((key, n) :: sections)

/-- A repository. -/
def readRepository : Json → Shaped (List (String × Node))
  | .object members => readSections members
  | v => .error (.unexpected .object v)

/-- A member of a document, with its value. -/
inductive DocumentField where
  | scopeName (s : String)
  | patterns (nodes : List Node)
  | repository (sections : List (String × Node))
  | raw (key : String) (value : Json)

namespace DocumentField

/-- The key of a member. -/
def key : DocumentField → String
  | .scopeName _ => "scopeName"
  | .patterns _ => "patterns"
  | .repository _ => "repository"
  | .raw key _ => key

/-- The scope name a member gives. -/
def scopeName? : DocumentField → Option String
  | .scopeName s => some s
  | _ => none

/-- The patterns a member gives. -/
def patterns? : DocumentField → Option (List Node)
  | .patterns nodes => some nodes
  | _ => none

/-- The sections a member gives. -/
def repository? : DocumentField → Option (List (String × Node))
  | .repository sections => some sections
  | _ => none

/-- The raw value a member gives, with its key. -/
def raw? : DocumentField → Option (String × Json)
  | .raw key value => some (key, value)
  | _ => none

end DocumentField

/-- A member of a document. -/
def readDocumentField (key : String) (value : Json) : Shaped DocumentField :=
  if key = "scopeName" then (readText value).map .scopeName
  else if key = "patterns" then (readNodes value).map .patterns
  else if key = "repository" then (readRepository value).map .repository
  else .ok (.raw key value)

/-- The members of a document. -/
def readDocumentFields : List (String × Json) → Shaped (List DocumentField)
  | [] => .ok []
  | (key, value) :: rest =>
    match within key (readDocumentField key value) with
    | .error f => .error f
    | .ok field =>
      match readDocumentFields rest with
      | .error f => .error f
      | .ok fields => .ok (field :: fields)

/-- A required member's value. -/
def require {α : Type} (field : String) : Option α → Shaped α
  | some a => .ok a
  | none => .error ⟨[], .missing field⟩

/-- The document of a list of members. -/
def document (fields : List DocumentField) : Shaped Document := do
  let scopeName ← require "scopeName" (fields.findSome? DocumentField.scopeName?)
  let patterns ← require "patterns" (fields.findSome? DocumentField.patterns?)
  let repository ← require "repository" (fields.findSome? DocumentField.repository?)
  .ok ⟨scopeName, patterns, repository, fields.filterMap DocumentField.raw?,
    fields.map DocumentField.key⟩

end Shape

/-- The node of a JSON value. -/
def Node.ofJson (v : Json) : Shaped Node :=
  Shape.readNode v

/-- The document of a JSON value. -/
def Document.ofJson : Json → Shaped Document
  | .object members => do
    let fields ← Shape.readDocumentFields members
    Shape.document fields
  | v => .error (.unexpected .object v)

end GrammarSync
