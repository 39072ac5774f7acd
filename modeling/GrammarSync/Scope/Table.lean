/-
# The scope table

A scope is the name under which an editor colours words. The table says which
words a scope gets (a rule per scope, fed by categories of the taxonomy and by
fixed additions) and into which section of a grammar a new pattern for it goes
(the first route whose stem the scope starts with).

Key definitions: `Role`, `Rule`, `Route`, `ScopeTable`, `ScopeTable.rule?`,
`ScopeTable.route?`, `ScopeTable.catchAll?`, `ScopeTable.missingCategories`.
-/
import GrammarSync.Taxonomy.Basic

namespace GrammarSync

/-- Which part of a taxonomy feeds a scope. -/
inductive Role where
  | keyword
  | typeName
  | contextual
deriving DecidableEq, Repr

/-- The name of a role's part of the taxonomy. -/
def Role.part : Role → String
  | .keyword => "keywords"
  | .typeName => "types"
  | .contextual => "contextual_identifiers"

/-- The words of one scope. -/
structure Rule where
  scope : String
  role : Role
  /-- Categories whose words belong to the scope; without effect for contextual names. -/
  categories : List String
  /-- Words added to those of the taxonomy. -/
  extras : List String
  /-- Contextual names that stay out; without effect for the other roles. -/
  excluded : List String
  comment : Option String
deriving DecidableEq, Repr

/-- The comment of generated patterns whose rule has none of its own. -/
def generatedComment : String :=
  "Generated from syntax-data.json"

/-- The comment of a pattern generated for the rule. -/
def Rule.patternComment (r : Rule) : String :=
  r.comment.getD generatedComment

/-- Scopes that start with `stem` go into the section `target`, in front of its pattern named
`catchAll` if it has one. -/
structure Route where
  stem : String
  target : String
  catchAll : Option String
deriving DecidableEq, Repr

/-- Whether the route takes a scope. -/
def Route.takes (r : Route) (scope : String) : Bool :=
  r.stem.toList.isPrefixOf scope.toList

/-- A category that a rule names and the taxonomy does not declare. -/
structure MissingCategory where
  scope : String
  role : Role
  category : String
deriving DecidableEq, Repr

/-- Rules and routes, in order. -/
structure ScopeTable where
  rules : List Rule
  routes : List Route
deriving DecidableEq, Repr

namespace ScopeTable

/-- The table without rules and routes. -/
def empty : ScopeTable :=
  ⟨[], []⟩

/-- The first rule of a scope. -/
def rule? (t : ScopeTable) (scope : String) : Option Rule :=
  t.rules.find? (·.scope = scope)

/-- The first route that takes a scope. -/
def route? (t : ScopeTable) (scope : String) : Option Route :=
  t.routes.find? (·.takes scope)

/-- The first catch-all that a route into the section declares. -/
def catchAll? (t : ScopeTable) (target : String) : Option String :=
  (t.routes.filter (·.target = target)).findSome? (·.catchAll)

/-- Whether a taxonomy declares a category in the part that a role reads. -/
def declares (taxonomy : Taxonomy) (role : Role) (category : String) : Bool :=
  match role with
  | .keyword => (taxonomy.keywordCategory? category).isSome
  | .typeName => (taxonomy.typeCategory? category).isSome
  | .contextual => true

/-- The categories that the rules name and the taxonomy does not declare, in rule order. -/
def missingCategories (t : ScopeTable) (taxonomy : Taxonomy) : List MissingCategory :=
  t.rules.flatMap fun r =>
    (r.categories.filter fun c => !declares taxonomy r.role c).map fun c => ⟨r.scope, r.role, c⟩

end ScopeTable
end GrammarSync
