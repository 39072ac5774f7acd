/-
# Structural checks

A grammar is checked for the scope name that editors expect, for includes
`#name` of sections that do not exist, and for patterns of the scope table
that stand behind their section's catch-all in the section's own sequence,
where they never match.

Key definitions: `Issue`, `unresolved?`, `includeIssues`, `shadowIssues`,
`lint`.
-/
import GrammarSync.Grammar.Document
import GrammarSync.Scope.Table

namespace GrammarSync

/-- A structural problem of a grammar. -/
inductive Issue where
  | unexpectedScopeName (wanted found : String)
  /-- `context` is the sequence or section in which the include stands. -/
  | unresolvedInclude (context reference : String)
  | shadowedByCatchAll (target scope catchAll : String)
deriving DecidableEq, Repr

/-- An issue in one line. -/
def Issue.describe : Issue → String
  | .unexpectedScopeName wanted found =>
    "scopeName is `" ++ found ++ "`, expected `" ++ wanted ++ "`"
  | .unresolvedInclude context reference =>
    "include `" ++ reference ++ "` in " ++ context ++ " does not resolve to a repository entry"
  | .shadowedByCatchAll target scope catchAll =>
    "`" ++ scope ++ "` comes after catch-all `" ++ catchAll ++ "` in repository." ++ target ++
      " and is never reached"

/-- The label of a section. -/
def sectionLabel (name : String) : String :=
  "repository." ++ name

/-- The label of the top sequence. -/
def topLabel : String :=
  "patterns"

namespace Lint

/-- The section that an include of the same grammar names. -/
def includedSection? (reference : String) : Option String :=
  match reference.toList with
  | '#' :: name => some (String.ofList name)
  | _ => none

/-- The include of a node, if it names a section that does not exist. -/
def unresolved? (d : Document) (n : Node) : Option String :=
  match n.include? with
  | none => none
  | some reference =>
    match includedSection? reference with
    | none => none
    | some name => if (d.section? name).isNone then some reference else none

/-- The unresolved includes of a list of nodes. -/
def unresolvedIn (d : Document) (context : String) (nodes : List Node) : List Issue :=
  (nodes.filterMap (unresolved? d)).map (.unresolvedInclude context)

/-- The unresolved includes: of the top sequence, then of every section from its own node on. -/
def includeIssues (d : Document) : List Issue :=
  unresolvedIn d topLabel (Node.preorderAll d.patterns) ++
    d.repository.flatMap fun e => unresolvedIn d (sectionLabel e.1) e.2.preorder

/-- The nodes behind the first one with a name. -/
def behind (name : String) (nodes : List Node) : List Node :=
  (nodes.dropWhile (·.name ≠ some name)).drop 1

/-- The name of a node, if the table has a rule for it. -/
def managedName? (t : ScopeTable) (n : Node) : Option String :=
  n.name.filter fun name => (t.rule? name).isSome

/-- The shadowed patterns of a route's section. -/
def shadowIssuesOf (d : Document) (t : ScopeTable) (r : Route) : List Issue :=
  match r.catchAll, d.sectionPatterns? r.target with
  | some catchAll, some nodes =>
    ((behind catchAll nodes).filterMap (managedName? t)).map
      fun scope => .shadowedByCatchAll r.target scope catchAll
  | _, _ => []

/-- The shadowed patterns, in the order of the routes. -/
def shadowIssues (d : Document) (t : ScopeTable) : List Issue :=
  t.routes.flatMap (shadowIssuesOf d t)

/-- The scope name, if it is not the one expected. -/
def scopeNameIssues (d : Document) (wanted : String) : List Issue :=
  if d.scopeName = wanted then [] else [.unexpectedScopeName wanted d.scopeName]

end Lint

/-- All issues of a grammar. -/
def lint (d : Document) (t : ScopeTable) (wanted : String) : List Issue :=
  Lint.scopeNameIssues d wanted ++ Lint.includeIssues d ++ Lint.shadowIssues d t

end GrammarSync
