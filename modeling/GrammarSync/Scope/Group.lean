/-
# Scope groups

The group of a rule is the set of words its scope gets from a taxonomy: the
words of its categories and its additions, or, for contextual names, the names
that are not excluded and its additions. A category that the taxonomy does not
declare gives no words. Of several groups of one scope the first is looked up.

Key definitions: `ScopeGroup`, `Rule.words`, `ScopeTable.groups`,
`ScopeGroup.find?`.
-/
import GrammarSync.Scope.Table
import GrammarSync.Words.Alternation

namespace GrammarSync

/-- A scope with its words. -/
structure ScopeGroup where
  scope : String
  role : Role
  comment : String
  keywords : WordSet
deriving DecidableEq

/-- The words that a rule takes from a taxonomy and adds to it. -/
def Rule.words (r : Rule) (taxonomy : Taxonomy) : List String :=
  let taken := match r.role with
    | .keyword => r.categories.flatMap fun c => (taxonomy.keywordCategory? c).getD []
    | .typeName => r.categories.flatMap fun c => (taxonomy.typeCategory? c).getD []
    | .contextual => taxonomy.contextualNames.filter (· ∉ r.excluded)
  taken ++ r.extras

/-- The group of a rule. -/
def Rule.group (r : Rule) (taxonomy : Taxonomy) : ScopeGroup :=
  ⟨r.scope, r.role, r.patternComment, WordSet.ofList (r.words taxonomy)⟩

/-- The groups of a table, in rule order. -/
def ScopeTable.groups (t : ScopeTable) (taxonomy : Taxonomy) : List ScopeGroup :=
  t.rules.map (·.group taxonomy)

namespace ScopeGroup

/-- The first group of a scope. -/
def find? (groups : List ScopeGroup) (scope : String) : Option ScopeGroup :=
  groups.find? (·.scope = scope)

/-- The groups of a role, in order. -/
def withRole (groups : List ScopeGroup) (role : Role) : List ScopeGroup :=
  groups.filter (·.role = role)

/-- The pattern that matches the words of a group. -/
def regex (g : ScopeGroup) : String :=
  g.keywords.alternation

end ScopeGroup
end GrammarSync
