/-
# Inserting missing patterns

A scope of a group that no node carries yet gets a generated pattern in the
section its route names: in front of the section's first catch-all node if the
table declares a catch-all and the section has it, last otherwise. A scope
without a route is passed over; one whose section is missing or has no
patterns is skipped and reported.

Key definitions: `Skipped`, `insertBefore`, `Insertion`, `insertGroup`,
`insertMissing`.
-/
import GrammarSync.Sync.Refresh

namespace GrammarSync

/-- A scope that has a route to a section without a sequence. -/
structure Skipped where
  scope : String
  target : String
deriving DecidableEq, Repr

/-- A sequence with a node in front of the first node of a name, or last if there is none. -/
def insertBefore (anchor : Option String) (node : Node) (nodes : List Node) : List Node :=
  match anchor with
  | none => nodes ++ [node]
  | some name =>
    nodes.takeWhile (·.name ≠ some name) ++ node :: nodes.dropWhile (·.name ≠ some name)

/-- The pattern generated for a group. -/
def ScopeGroup.pattern (g : ScopeGroup) : Node :=
  .generated g.comment g.scope g.regex

/-- A document on its way through the groups. -/
structure Insertion where
  document : Document
  /-- The scopes that have a pattern. -/
  handled : WordSet
  changes : ChangeLog
  skipped : List Skipped

/-- Insert the pattern of a group, if its scope has none. -/
def insertGroup (t : ScopeTable) (s : Insertion) (g : ScopeGroup) : Insertion :=
  if g.scope ∈ s.handled then s
  else
    match t.route? g.scope with
    | none => s
    | some route =>
      if (s.document.sectionPatterns? route.target).isNone then
        { s with skipped := s.skipped ++ [⟨g.scope, route.target⟩] }
      else
        { s with
          document := s.document.modifySection route.target
            (insertBefore (t.catchAll? route.target) g.pattern)
          handled := s.handled.insert g.scope
          changes := s.changes ++ [.added g.scope (sectionLabel route.target) g.regex] }

/-- Insert the patterns of all groups whose scope is not handled. -/
def insertMissing (t : ScopeTable) (groups : List ScopeGroup) (handled : WordSet)
    (d : Document) : Insertion :=
  groups.foldl (insertGroup t) ⟨d, handled, [], []⟩

end GrammarSync
