/-
# Changes and their report

A synchronization changes the regular expression of a pattern or adds a
pattern. The log lists its changes in the order in which they were made; its
report has one block for each.

Key definitions: `Change`, `ChangeLog.render`.
-/

namespace GrammarSync

/-- A change to a grammar; `path` labels the sequence in which the pattern stands. -/
inductive Change where
  | updated (scope path previous regex : String)
  | added (scope path regex : String)
deriving DecidableEq, Repr

namespace Change

/-- Whether a pattern was changed. -/
def isUpdated : Change → Bool
  | .updated .. => true
  | .added .. => false

/-- Whether a pattern was added. -/
def isAdded (c : Change) : Bool :=
  !c.isUpdated

/-- The lines of a change. -/
def render : Change → String
  | .added scope path regex =>
    "  + " ++ scope ++ " (new pattern in " ++ path ++ ")\n    " ++ regex ++ "\n\n"
  | .updated scope path previous regex =>
    "  ~ " ++ scope ++ " (" ++ path ++ ")\n    old: " ++ previous ++ "\n    new: " ++ regex ++ "\n\n"

end Change

/-- Changes in the order in which they were made. -/
abbrev ChangeLog := List Change

/-- The report of a log. -/
def ChangeLog.render (log : ChangeLog) : String :=
  if log.isEmpty then "No changes needed, grammar already in sync.\n"
  else toString log.length ++ " pattern(s) changed:\n\n" ++ String.join (log.map Change.render)

end GrammarSync
