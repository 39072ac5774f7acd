/-
# The reference page of a scope table

The page lists the rules of each role and then the routes, one table row each.
Its sections are set apart by one blank line, whatever line breaks stand at
the end of what comes before (`startSection`).

Key definitions: `trimLineBreaks`, `startSection`, `ruleRow`, `routeRow`,
`scopeReference`.
-/
import GrammarSync.Scope.Table

namespace GrammarSync
namespace Reference

/-- The number of line breaks at the end of a text. -/
def endingLineBreaks (out : String) : Nat :=
  (out.toList.reverse.takeWhile (· = '\n')).length

/-- The text with at most two line breaks at its end. -/
def trimLineBreaks (out : String) : String :=
  String.ofList (out.toList.take (out.toList.length - (endingLineBreaks out - 2)))

/-- The text with a heading behind it, set apart by one blank line. -/
def startSection (out heading : String) : String :=
  let out := trimLineBreaks out
  let gap := if out.isEmpty then ""
    else match endingLineBreaks out with
      | 0 => "\n\n"
      | 1 => "\n"
      | _ => ""
  out ++ gap ++ heading ++ "\n\n"

/-- A text between backticks. -/
def code (s : String) : String :=
  "`" ++ s ++ "`"

/-- Texts between backticks, with commas between them. -/
def codeList (items : List String) : String :=
  ", ".intercalate (items.map code)

/-- The categories a rule's row shows; contextual names are taken as a whole. -/
def shownCategories (r : Rule) : List String :=
  match r.role with
  | .contextual => ["*"]
  | _ => r.categories

/-- The section a rule's row shows. -/
def shownTarget (t : ScopeTable) (r : Rule) : String :=
  match t.route? r.scope with
  | some route => route.target
  | none => "(not inserted)"

/-- A row of cells. -/
def row (cells : List String) : String :=
  "| " ++ " | ".intercalate cells ++ " |\n"

/-- The row of a rule. -/
def ruleRow (t : ScopeTable) (r : Rule) : String :=
  row [code r.scope, codeList (shownCategories r), codeList r.extras, codeList r.excluded,
    shownTarget t r]

/-- The row of a route. -/
def routeRow (r : Route) : String :=
  row [code r.stem, r.target, (r.catchAll.map code).getD ""]

/-- The page with the section of a role behind it. -/
def addRules (t : ScopeTable) (out heading : String) (role : Role) : String :=
  startSection out heading ++
    row ["Scope", "Taxonomy " ++ code role.part, "Fixed additions", "Excluded", "Section"] ++
    "|---|---|---|---|---|\n" ++
    String.join ((t.rules.filter (·.role = role)).map (ruleRow t)) ++ "\n"

/-- The page with the section of the routes behind it. -/
def addRoutes (t : ScopeTable) (out : String) : String :=
  startSection out "## Section routing" ++
    row ["Scope prefix", "Section", "Inserted before"] ++
    "|---|---|---|\n" ++
    String.join (t.routes.map routeRow) ++ "\n"

/-- The head of the page. -/
def head : String :=
  "# Hew grammar scopes\n\n" ++
  "!!! warning \"Generated file\"\n" ++
  "    Do not edit this page by hand.\n\n" ++
  "    Regenerate with: `cargo run -p hew_vocab --bin generate_scope_reference`\n\n"

/-- The sections of the page. -/
def render (t : ScopeTable) : String :=
  let out := addRules t head "## Keyword scopes" .keyword
  let out := addRules t out "## Type scopes" .typeName
  let out := addRules t out "## Contextual scopes" .contextual
  addRoutes t out

end Reference

/-- The reference page as it is stored: it ends in one or two line breaks. -/
def scopeReference (t : ScopeTable) : String :=
  let out := Reference.trimLineBreaks (Reference.render t)
  if Reference.endingLineBreaks out = 0 then out ++ "\n" else out

end GrammarSync
