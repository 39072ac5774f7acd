/-
# Refreshing the patterns of a grammar

A node is managed if its name is a scope with a group and it has a regular
expression. Refreshing gives every managed node of the top sequence and of the
sections' sequences, at any depth, the expression of its scope's first group.
The nodes of the sections themselves are not refreshed, and nothing but
expressions changes.

A run does this in one walk (`Document.update`): the top sequence and then the
sections, a node before the nodes nested in it. The walk carries a tally of the
scopes that it found and of the changes that it made, and every node adds to
what the nodes before it left. What becomes of the grammar, the changes and
the scopes are also given apart, each by a definition of its own.

Key definitions: `Tally`, `Node.visit`, `Node.update`, `Document.update`,
`managing?`, `Node.refresh`, `Document.refresh`, `Document.sequences`,
`refreshChanges`, `managedScopes`.
-/
import GrammarSync.Grammar.Lint
import GrammarSync.Scope.Group
import GrammarSync.Sync.Change

namespace GrammarSync

/-! ### The walk -/

/-- What a walk has found and done so far. -/
structure Tally where
  /-- The scopes that have a managed node. -/
  handled : WordSet
  changes : ChangeLog

/-- Bring the expression of a node up to date; `label` is that of the sequence the walk is in. -/
def Node.visit (groups : List ScopeGroup) (label : String) (n : Node) (s : Tally) : Node × Tally :=
  match n.name.bind (ScopeGroup.find? groups), n.regex with
  | some g, some current =>
    if current = g.regex then (n, ⟨s.handled.insert g.scope, s.changes⟩)
    else (n.setRegex g.regex,
      ⟨s.handled.insert g.scope, s.changes ++ [.updated g.scope label current g.regex]⟩)
  | _, _ => (n, s)

mutual
/-- Walk through a node and then through the nodes nested in it. -/
def Node.update (groups : List ScopeGroup) (label : String) : Node → Tally → Node × Tally
  | ⟨name, regex, comment, none, rest, order⟩, s =>
    Node.visit groups label ⟨name, regex, comment, none, rest, order⟩ s
  | ⟨name, regex, comment, some nodes, rest, order⟩, s =>
    let (n, s) := Node.visit groups label ⟨name, regex, comment, some nodes, rest, order⟩ s
    let (nodes, s) := Node.updateAll groups label nodes s
    ({ n with children := some nodes }, s)

/-- Walk through a sequence. -/
def Node.updateAll (groups : List ScopeGroup) (label : String) :
    List Node → Tally → List Node × Tally
  | [], s => ([], s)
  | n :: rest, s =>
    let (n, s) := Node.update groups label n s
    let (rest, s) := Node.updateAll groups label rest s
    (n :: rest, s)
end

/-- Walk through the sequence of a section, if it has one. -/
def Node.updateSection (groups : List ScopeGroup) (label : String) (n : Node) (s : Tally) :
    Node × Tally :=
  match n.children with
  | none => (n, s)
  | some nodes =>
    let (nodes, s) := Node.updateAll groups label nodes s
    ({ n with children := some nodes }, s)

namespace Document

/-- Walk through sections. -/
def updateSections (groups : List ScopeGroup) :
    List (String × Node) → Tally → List (String × Node) × Tally
  | [], s => ([], s)
  | (name, n) :: rest, s =>
    let (n, s) := n.updateSection groups (sectionLabel name) s
    let (rest, s) := updateSections groups rest s
    ((name, n) :: rest, s)

/-- Walk through a grammar, after the changes of a log. -/
def update (groups : List ScopeGroup) (log : ChangeLog) (d : Document) : Document × Tally :=
  let (patterns, s) := Node.updateAll groups topLabel d.patterns ⟨WordSet.empty, log⟩
  let (repository, s) := updateSections groups d.repository s
  ({ d with patterns, repository }, s)

end Document

/-! ### What the walk does -/

/-- The group that manages a node. -/
def managing? (groups : List ScopeGroup) (n : Node) : Option ScopeGroup :=
  match n.name, n.regex with
  | some name, some _ => ScopeGroup.find? groups name
  | _, _ => none

/-- The expression of a node after refreshing. -/
def refreshedRegex (groups : List ScopeGroup) (n : Node) : Option String :=
  match managing? groups n with
  | some g => some g.regex
  | none => n.regex

mutual
/-- A node with its managed parts refreshed. -/
def Node.refresh (groups : List ScopeGroup) : Node → Node
  | ⟨name, regex, comment, none, rest, order⟩ =>
    ⟨name, refreshedRegex groups ⟨name, regex, comment, none, rest, order⟩, comment, none,
      rest, order⟩
  | ⟨name, regex, comment, some nodes, rest, order⟩ =>
    ⟨name, refreshedRegex groups ⟨name, regex, comment, some nodes, rest, order⟩, comment,
      some (Node.refreshAll groups nodes), rest, order⟩

/-- A sequence with its managed nodes refreshed. -/
def Node.refreshAll (groups : List ScopeGroup) : List Node → List Node
  | [] => []
  | n :: rest => Node.refresh groups n :: Node.refreshAll groups rest
end

/-- The change that refreshing makes to a node itself. -/
def refreshChange? (groups : List ScopeGroup) (path : String) (n : Node) : Option Change :=
  match managing? groups n, n.regex with
  | some g, some current =>
    if current = g.regex then none else some (.updated g.scope path current g.regex)
  | _, _ => none

/-- The changes that refreshing makes to a sequence. -/
def refreshChanges (groups : List ScopeGroup) (path : String) (nodes : List Node) : ChangeLog :=
  (Node.preorderAll nodes).filterMap (refreshChange? groups path)

/-- The scopes of the managed nodes of a sequence. -/
def managedScopes (groups : List ScopeGroup) (nodes : List Node) : List String :=
  (Node.preorderAll nodes).filterMap fun n => (managing? groups n).map (·.scope)

namespace Document

/-- The sequences that are refreshed, each with its label. -/
def sequences (d : Document) : List (String × List Node) :=
  (topLabel, d.patterns) ::
    d.repository.filterMap fun e => e.2.children.map fun nodes => (sectionLabel e.1, nodes)

/-- A document with its managed nodes refreshed. -/
def refresh (groups : List ScopeGroup) (d : Document) : Document :=
  { d with
    patterns := Node.refreshAll groups d.patterns
    repository := d.repository.map fun e =>
      (e.1, { e.2 with children := e.2.children.map (Node.refreshAll groups) }) }

/-- The changes that refreshing makes. -/
def refreshChanges (groups : List ScopeGroup) (d : Document) : ChangeLog :=
  d.sequences.flatMap fun s => GrammarSync.refreshChanges groups s.1 s.2

/-- The scopes of the managed nodes. -/
def managedScopes (groups : List ScopeGroup) (d : Document) : WordSet :=
  WordSet.ofList (d.sequences.flatMap fun s => GrammarSync.managedScopes groups s.2)

end Document
end GrammarSync
