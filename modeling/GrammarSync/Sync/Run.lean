/-
# Synchronizing a grammar with a taxonomy

A run refreshes the managed patterns of a grammar, inserts those that are
missing, and checks the coverage of the reserved words. Its log has the
updates first and then the additions.

Key definitions: `Outcome`, `synchronize`.
-/
import GrammarSync.Sync.Coverage
import GrammarSync.Sync.Insert

namespace GrammarSync

/-- What a run did and found. -/
structure Outcome where
  changes : ChangeLog
  skipped : List Skipped
  coverage : Coverage

namespace Outcome

/-- Nothing had to be changed. -/
def inSync (o : Outcome) : Bool :=
  o.changes.isEmpty

/-- A skipped scope with its section. -/
def describeSkipped (s : Skipped) : String :=
  s.scope ++ " (" ++ sectionLabel s.target ++ ")"

/-- The warning about skipped scopes, nothing if there is none. -/
def renderSkipped (skipped : List Skipped) : String :=
  Coverage.block "Scopes not inserted, target section missing or without patterns"
    (skipped.map describeSkipped)

end Outcome

/-- The synchronized grammar and what the run did and found. -/
def synchronize (t : ScopeTable) (taxonomy : Taxonomy) (d : Document) : Document × Outcome :=
  let groups := t.groups taxonomy
  let (updated, s) := d.update groups []
  let inserted := insertMissing t groups s.handled updated
  (inserted.document,
    ⟨s.changes ++ inserted.changes, inserted.skipped, Coverage.verify taxonomy groups⟩)

end GrammarSync
