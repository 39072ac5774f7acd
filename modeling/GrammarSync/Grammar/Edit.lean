/-
# Editing grammars

A node of a document is found by item numbers from the top sequence or from a
section; a sequence is the top one or the nested nodes of a node. An edit at a
place that does not exist gives nothing.

Key definitions: `Place`, `Sequence`, `Document.node?`, `Document.modifyNode`,
`Document.modifySequence`, `Edit`, `Edit.apply`.
-/
import GrammarSync.Grammar.Document

namespace GrammarSync

/-- Where a node stands. -/
inductive Place where
  /-- Under the item `i` of the top sequence. -/
  | pattern (i : Nat) (steps : List Nat)
  /-- Under a section. -/
  | inSection (name : String) (steps : List Nat)

/-- Where a sequence of nodes stands. -/
inductive Sequence where
  | top
  | under (place : Place)

namespace Node

/-- The node at the end of a way of item numbers. -/
def follow? : List Nat → Node → Option Node
  | [], n => some n
  | i :: steps, n => (n.children.bind (·[i]?)).bind (follow? steps)

/-- Change the node at the end of a way of item numbers. -/
def modifyAt (f : Node → Option Node) : List Nat → Node → Option Node
  | [], n => f n
  | i :: steps, n => do
    let nodes ← n.children
    let child ← nodes[i]?
    let child ← modifyAt f steps child
    some { n with children := some (nodes.set i child) }

/-- Change the nested nodes, if the node has some. -/
def modifyChildren (f : List Node → Option (List Node)) (n : Node) : Option Node := do
  let nodes ← n.children
  let nodes ← f nodes
  some { n with children := some nodes }

end Node

/-- A sequence with a node at an index, or last if the index is beyond its end. -/
def insertNode (index : Nat) (node : Node) (nodes : List Node) : List Node :=
  nodes.take index ++ node :: nodes.drop index

/-- A sequence without the node at an index, if there is one. -/
def removeNode (index : Nat) (nodes : List Node) : Option (List Node) :=
  if index < nodes.length then some (nodes.eraseIdx index) else none

namespace Document

/-- The node at a place. -/
def node? (d : Document) : Place → Option Node
  | .pattern i steps => d.patterns[i]?.bind (Node.follow? steps)
  | .inSection name steps => (d.section? name).bind (Node.follow? steps)

/-- Change the node at a place. -/
def modifyNode (f : Node → Option Node) (d : Document) : Place → Option Document
  | .pattern i steps => do
    let n ← d.patterns[i]?
    let n ← Node.modifyAt f steps n
    some { d with patterns := d.patterns.set i n }
  | .inSection name steps => do
    let n ← d.section? name
    let n ← Node.modifyAt f steps n
    some { d with repository := Entries.modify name (fun _ => n) d.repository }

/-- The nodes of a sequence. -/
def sequence? (d : Document) : Sequence → Option (List Node)
  | .top => some d.patterns
  | .under place => (d.node? place).bind (·.children)

/-- Change a sequence. -/
def modifySequence (f : List Node → Option (List Node)) (d : Document) :
    Sequence → Option Document
  | .top => do
    let nodes ← f d.patterns
    some { d with patterns := nodes }
  | .under place => d.modifyNode (Node.modifyChildren f) place

/-- Put a section in its place, or last if its name is new. -/
def setSection (d : Document) (name : String) (node : Node) : Document :=
  { d with repository := Entries.put name node d.repository }

/-- Remove a section. -/
def removeSection (d : Document) (name : String) : Document :=
  { d with repository := Entries.erase name d.repository }

end Document

/-- A change to a document made by hand. -/
inductive Edit where
  | setRegex (place : Place) (regex : String)
  | insert (sequence : Sequence) (index : Nat) (node : Node)
  | remove (sequence : Sequence) (index : Nat)
  | setSection (name : String) (node : Node)
  | removeSection (name : String)

/-- The document after an edit. -/
def Edit.apply (d : Document) : Edit → Option Document
  | .setRegex place regex => d.modifyNode (fun n => some (n.setRegex regex)) place
  | .insert sequence index node =>
    d.modifySequence (fun nodes => some (insertNode index node nodes)) sequence
  | .remove sequence index => d.modifySequence (removeNode index) sequence
  | .setSection name node => some (d.setSection name node)
  | .removeSection name => some (d.removeSection name)

end GrammarSync
