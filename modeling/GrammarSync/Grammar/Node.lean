/-
# Pattern nodes

A node of a grammar is an object. Four of its keys have a meaning here: its
scope name, its regular expression, its comment and the nodes nested in it.
Every other key is raw: its value is kept as it is. The order of all keys is
kept beside the fields and the raw values, and printing follows it. Nothing in
the type makes the order agree with what is there: a typed key that is in the
order but has no value prints as null, a raw one is left out.

A node comes before the nodes nested in it, in their order
(`Node.preorder`).

Key definitions: `Node`, `Node.preorder`, `Node.setRegex`, `Node.printed?`,
`Node.toJson`, `Node.equiv`.
-/
import GrammarSync.Json.Value

namespace GrammarSync

/-- A pattern node. -/
structure Node where
  name : Option String
  regex : Option String
  comment : Option String
  children : Option (List Node)
  /-- The values of the raw keys. -/
  rest : List (String × Json)
  /-- The keys in their order, typed and raw. -/
  order : List String

namespace Node

instance : Inhabited Node :=
  ⟨⟨none, none, none, none, [], []⟩⟩

/-- A generated pattern: a comment, a scope name and a regular expression, in this order. -/
def generated (comment name regex : String) : Node :=
  ⟨some name, some regex, some comment, none, [], ["comment", "name", "match"]⟩

/-- The value of a raw key. -/
def raw? (n : Node) (key : String) : Option Json :=
  n.rest.lookup key

/-- The target of an include. -/
def include? (n : Node) : Option String :=
  (n.raw? "include").bind Json.text?

/-- The node with a regular expression set; the key comes last if the node had none. -/
def setRegex (n : Node) (regex : String) : Node :=
  { n with
    regex := some regex
    order := if n.regex.isNone then n.order ++ ["match"] else n.order }

mutual
/-- A node and the nodes nested in it, each before those nested in it. -/
def preorder : Node → List Node
  | ⟨name, regex, comment, none, rest, order⟩ => [⟨name, regex, comment, none, rest, order⟩]
  | ⟨name, regex, comment, some nodes, rest, order⟩ =>
    ⟨name, regex, comment, some nodes, rest, order⟩ :: preorderAll nodes

/-- The nodes of a sequence with those nested in them. -/
def preorderAll : List Node → List Node
  | [] => []
  | n :: rest => preorder n ++ preorderAll rest
end

/-- A text or null. -/
def optionalText : Option String → Json
  | some s => .string s
  | none => .null

/-- What is printed under a key, if anything: a typed field, null if it is missing, or a raw value;
`nested` is the value of the nested nodes. -/
def printed? (n : Node) (nested : Json) (key : String) : Option Json :=
  if key = "name" then some (optionalText n.name)
  else if key = "match" then some (optionalText n.regex)
  else if key = "comment" then some (optionalText n.comment)
  else if key = "patterns" then some nested
  else n.raw? key

mutual
/-- The node as a JSON value. -/
def toJson : Node → Json
  | ⟨name, regex, comment, none, rest, order⟩ =>
    .object (Entries.listed (printed? ⟨name, regex, comment, none, rest, order⟩ .null) order)
  | ⟨name, regex, comment, some nodes, rest, order⟩ =>
    .object (Entries.listed (printed? ⟨name, regex, comment, some nodes, rest, order⟩
      (.array (toJsonAll nodes))) order)

/-- The values of a sequence of nodes. -/
def toJsonAll : List Node → List Json
  | [] => []
  | n :: rest => toJson n :: toJsonAll rest
end

mutual
/-- Equality of nodes with their order of keys; raw values are equivalent, in any order. -/
def equiv : Node → Node → Bool
  | ⟨name, regex, comment, none, rest, order⟩, ⟨name', regex', comment', none, rest', order'⟩ =>
    name == name' && regex == regex' && comment == comment' &&
      (Json.object rest).equiv (.object rest') && order == order'
  | ⟨name, regex, comment, some nodes, rest, order⟩,
    ⟨name', regex', comment', some nodes', rest', order'⟩ =>
    name == name' && regex == regex' && comment == comment' && equivAll nodes nodes' &&
      (Json.object rest).equiv (.object rest') && order == order'
  | _, _ => false

/-- Equality node by node. -/
def equivAll : List Node → List Node → Bool
  | [], [] => true
  | m :: ms, n :: ns => equiv m n && equivAll ms ns
  | _, _ => false
end

end Node
end GrammarSync
