/-
# The reference page records its table

The page of a table lists the rules of each role under the heading of the role
and the routes under their own (`scopeReference_eq`). Its rows can be read
back: a row gives what it says about its rule (`RuleRow.recordOf`) or its
route (`RouteRow.routeOf`), and no row is lost, doubled or put under another
heading (`records_scopeReference`). So two tables have one page just if they
have the same rules in each role, as far as the page records them, and the
same routes (`reference_records_table`).

The page says nothing about comments and about the order of rules with
different roles, and a contextual rule's categories, which have no effect, are
left out of it.

Key definitions: `ScopeTable.Tabular`, `Rule.recorded`, `RuleRow`, `RouteRow`,
`Records`.
Key theorems: `scopeReference_eq`, `records_scopeReference`,
`reference_records_table`.
-/
import GrammarSync.Proofs.PageLayout
import GrammarSync.Proofs.Restore

namespace GrammarSync

open Reference

/-- A rule whose texts can stand in a table. -/
def Rule.Tabular (r : Rule) : Prop :=
  Reference.Tabular r.scope ∧ (∀ s ∈ r.categories, Reference.Tabular s) ∧
    (∀ s ∈ r.extras, Reference.Tabular s) ∧ ∀ s ∈ r.excluded, Reference.Tabular s

instance (r : Rule) : Decidable r.Tabular :=
  inferInstanceAs (Decidable (_ ∧ _))

/-- A route whose texts can stand in a table. -/
def Route.Tabular (r : Route) : Prop :=
  Reference.Tabular r.stem ∧ Reference.Tabular r.target ∧
    ∀ s ∈ r.catchAll.toList, Reference.Tabular s

instance (r : Route) : Decidable r.Tabular :=
  inferInstanceAs (Decidable (_ ∧ _))

/-- A scope table whose texts can stand in the tables of the page. -/
structure ScopeTable.Tabular (t : ScopeTable) : Prop where
  rules : ∀ r ∈ t.rules, r.Tabular
  routes : ∀ r ∈ t.routes, r.Tabular

/-- The rules of a role, in table order. -/
def ScopeTable.rulesOf (t : ScopeTable) (role : Role) : List Rule :=
  t.rules.filter (·.role = role)

/-- What the page records of a rule: scope, categories, additions and exclusions. Contextual rules
read no categories. -/
def Rule.recorded (r : Rule) : String × List String × List String × List String :=
  (r.scope, if r.role = .contextual then [] else r.categories, r.extras, r.excluded)

namespace Reference

/-- Where the patterns of a scope go: into the section of the first route whose stem the scope
starts with, if there is one. -/
inductive GoesTo (t : ScopeTable) (scope : String) : String → Prop
  | inserted {front : List Route} {route : Route} {rest : List Route}
      (hroutes : t.routes = front ++ route :: rest)
      (hpassed : ∀ r ∈ front, ¬r.stem.toList <+: scope.toList)
      (htaken : route.stem.toList <+: scope.toList) : GoesTo t scope route.target
  | left (hpassed : ∀ r ∈ t.routes, ¬r.stem.toList <+: scope.toList) :
      GoesTo t scope "(not inserted)"

/-- The row of a rule. -/
def RuleRow (t : ScopeTable) (r : Rule) (row : List String) : Prop :=
  ∃ scope categories extras excluded target, row = [scope, categories, extras, excluded, target] ∧
    quoted scope = [r.scope] ∧ (r.role ≠ .contextual → quoted categories = r.categories) ∧
    quoted extras = r.extras ∧ quoted excluded = r.excluded ∧ GoesTo t r.scope target

/-- The row of a route. -/
def RouteRow (r : Route) (row : List String) : Prop :=
  ∃ stem before, row = [stem, r.target, before] ∧ quoted stem = [r.stem] ∧
    quoted before = r.catchAll.toList

/-- A page that records a table. The rules of each role stand under the heading of the role and the
routes under their own, a row for each and in table order; no row of a table stands in front of the
first heading; and each heading has exactly one blank line in front of it. -/
structure Records (t : ScopeTable) (page : String) : Prop where
  tables : ∃ keywords types contextual routes,
    tables page = [("## Keyword scopes", keywords), ("## Type scopes", types),
      ("## Contextual scopes", contextual), ("## Section routing", routes)] ∧
    List.Forall₂ (RuleRow t) (t.rulesOf .keyword) keywords ∧
    List.Forall₂ (RuleRow t) (t.rulesOf .typeName) types ∧
    List.Forall₂ (RuleRow t) (t.rulesOf .contextual) contextual ∧
    List.Forall₂ RouteRow t.routes routes
  front : ∀ l ∈ (parts (lines page)).1, ¬InTable l
  apart : Apart (lines page)

/-! ### The tables of the page -/

/-- The cells of a rule's row. -/
def ruleCells (t : ScopeTable) (r : Rule) : List String :=
  [code r.scope, codeList (shownCategories r), codeList r.extras, codeList r.excluded,
    shownTarget t r]

/-- The cells of a route's row. -/
def routeCells (r : Route) : List String :=
  [code r.stem, r.target, (r.catchAll.map code).getD ""]

/-- The names of the columns above the rows of rules. -/
def ruleColumns (role : Role) : List String :=
  ["Scope", "Taxonomy " ++ code role.part, "Fixed additions", "Excluded", "Section"]

/-- The names of the columns above the rows of routes. -/
def routeColumns : List String :=
  ["Scope prefix", "Section", "Inserted before"]

/-- The table of a role. -/
def rulesTable (t : ScopeTable) (heading : String) (role : Role) : Table where
  heading := heading
  columns := ruleColumns role
  ruler := "|---|---|---|---|---|"
  rows := (t.rulesOf role).map (ruleCells t)

/-- The table of the routes. -/
def routesTable (t : ScopeTable) : Table where
  heading := "## Section routing"
  columns := routeColumns
  ruler := "|---|---|---|"
  rows := t.routes.map routeCells

/-- The tables of the page. -/
def pageTables (t : ScopeTable) : List Table :=
  [rulesTable t "## Keyword scopes" .keyword, rulesTable t "## Type scopes" .typeName,
    rulesTable t "## Contextual scopes" .contextual, routesTable t]

/-- The lines in front of the first heading. -/
def frontLines : List String :=
  ["# Hew grammar scopes", "", "!!! warning \"Generated file\"",
    "    Do not edit this page by hand.", "",
    "    Regenerate with: `cargo run -p hew_vocab --bin generate_scope_reference`", ""]

theorem head_eq : head = unlines frontLines := by
  decide +kernel

theorem addRules_unlines {ls : List String} (h : Closed ls) (t : ScopeTable) (heading : String)
    (role : Role) :
    addRules t (unlines ls) heading role = unlines (ls ++ (rulesTable t heading role).lines) := by
  have hrows : (t.rules.filter (·.role = role)).map (ruleRow t) =
      (rulesTable t heading role).rows.map row := by
    rw [rulesTable, List.map_map]
    rfl
  rw [addRules, hrows, ← startSection_table h]
  rfl

theorem addRoutes_unlines {ls : List String} (h : Closed ls) (t : ScopeTable) :
    addRoutes t (unlines ls) = unlines (ls ++ (routesTable t).lines) := by
  have hrows : t.routes.map routeRow = (routesTable t).rows.map row := by
    rw [routesTable, List.map_map]
    rfl
  rw [addRoutes, hrows, ← startSection_table h]
  rfl

theorem closed_frontLines : Closed frontLines :=
  ⟨frontLines.take 5,
    "    Regenerate with: `cargo run -p hew_vocab --bin generate_scope_reference`", rfl,
    tick, by decide, by decide⟩

/-- The front has no heading and no table. -/
theorem frontLines_plain : ∀ l ∈ frontLines, ¬OpensSection l ∧ ¬InTable l ∧ '\n' ∉ l.toList := by
  decide +kernel

theorem apart_frontLines : Apart frontLines := by
  intro front heading rest heq hheading
  have hmem : heading ∈ frontLines := heq ▸ List.mem_append_right _ List.mem_cons_self
  exact absurd hheading (frontLines_plain heading hmem).1

/-! ### The rows -/

theorem tabular_shownCategories {r : Rule} (h : ∀ s ∈ r.categories, Tabular s) :
    ∀ s ∈ shownCategories r, Tabular s := by
  unfold shownCategories
  split
  · decide
  · exact h

theorem goesTo_shownTarget (t : ScopeTable) (r : Rule) : GoesTo t r.scope (shownTarget t r) := by
  unfold shownTarget
  split
  case h_1 route hroute =>
    obtain ⟨htakes, front, rest, hroutes, hpassed⟩ := List.find?_eq_some_iff_append.mp hroute
    refine .inserted hroutes (fun q hq hprefix => ?_) (List.isPrefixOf_iff_prefix.mp htakes)
    have htaken : q.takes r.scope = true := List.isPrefixOf_iff_prefix.mpr hprefix
    simpa [htaken] using hpassed q hq
  case h_2 hroute =>
    refine .left fun q hq hprefix => ?_
    exact List.find?_eq_none.mp hroute q hq (List.isPrefixOf_iff_prefix.mpr hprefix)

theorem ruleRow_ruleCells (t : ScopeTable) {r : Rule} (h : r.Tabular) :
    RuleRow t r (ruleCells t r) := by
  obtain ⟨hscope, hcategories, hextras, hexcluded⟩ := h
  refine ⟨_, _, _, _, _, rfl, quoted_code hscope.1, fun hrole => ?_,
    quoted_codeList fun s hs => (hextras s hs).1, quoted_codeList fun s hs => (hexcluded s hs).1,
    goesTo_shownTarget t r⟩
  have hshown : shownCategories r = r.categories := by
    unfold shownCategories
    split
    · exact absurd ‹r.role = .contextual› hrole
    · rfl
  rw [hshown]
  exact quoted_codeList fun s hs => (hcategories s hs).1

theorem routeRow_routeCells {r : Route} (h : r.Tabular) : RouteRow r (routeCells r) := by
  obtain ⟨hstem, -, hcatchAll⟩ := h
  refine ⟨_, _, rfl, quoted_code hstem.1, ?_⟩
  cases hc : r.catchAll with
  | none => rfl
  | some c =>
    rw [hc] at hcatchAll
    exact quoted_code (hcatchAll c List.mem_cons_self).1

theorem cell_of_mem_routeCells {r : Route} (h : r.Tabular) : ∀ c ∈ routeCells r, Cell c := by
  obtain ⟨hstem, htarget, hcatchAll⟩ := h
  have hbefore : Cell ((r.catchAll.map code).getD "") := by
    cases hc : r.catchAll with
    | none => decide
    | some c =>
      rw [hc] at hcatchAll
      exact cell_code (hcatchAll c List.mem_cons_self)
  simp only [routeCells, List.forall_mem_cons]
  exact ⟨cell_code hstem, htarget.2, hbefore, fun _ hc => absurd hc List.not_mem_nil⟩

theorem cell_of_mem_ruleColumns (role : Role) : ∀ c ∈ ruleColumns role, Cell c := by
  cases role <;> decide

theorem cell_of_mem_routeColumns : ∀ c ∈ routeColumns, Cell c := by
  decide

theorem ruler_rules : Ruler "|---|---|---|---|---|" :=
  ⟨by decide, ⟨'|', by decide, by decide⟩, by decide⟩

theorem ruler_routes : Ruler "|---|---|---|" :=
  ⟨by decide, ⟨'|', by decide, by decide⟩, by decide⟩

theorem heading_routes :
    OpensSection "## Section routing" ∧ '\n' ∉ "## Section routing".toList := by
  decide

section

variable {t : ScopeTable} (h : t.Tabular)
include h

theorem tabular_of_goesTo {scope target : String} (htarget : GoesTo t scope target) :
    Tabular target := by
  cases htarget with
  | @inserted front route rest hroutes _ _ =>
    have hroute : route ∈ t.routes := hroutes ▸ List.mem_append_right _ List.mem_cons_self
    exact (h.routes route hroute).2.1
  | left _ => decide

theorem cell_of_mem_ruleCells {r : Rule} (hr : r ∈ t.rules) : ∀ c ∈ ruleCells t r, Cell c := by
  obtain ⟨hscope, hcategories, hextras, hexcluded⟩ := h.rules r hr
  have htarget : Tabular (shownTarget t r) := tabular_of_goesTo h (goesTo_shownTarget t r)
  simp only [ruleCells, List.forall_mem_cons]
  exact ⟨cell_code hscope, cell_codeList (tabular_shownCategories hcategories),
    cell_codeList hextras, cell_codeList hexcluded, htarget.2,
    fun _ hc => absurd hc List.not_mem_nil⟩

theorem sound_rulesTable (heading : String)
    (hheading : OpensSection heading ∧ '\n' ∉ heading.toList) (role : Role) :
    (rulesTable t heading role).Sound where
  heading := hheading
  columns := cell_of_mem_ruleColumns role
  ruler := ruler_rules
  rows := by
    intro row hrow
    obtain ⟨r, hr, rfl⟩ := List.mem_map.mp hrow
    exact ⟨List.cons_ne_nil _ _, cell_of_mem_ruleCells h (List.mem_filter.mp hr).1⟩

theorem sound_routesTable : (routesTable t).Sound where
  heading := heading_routes
  columns := cell_of_mem_routeColumns
  ruler := ruler_routes
  rows := by
    intro row hrow
    obtain ⟨r, hr, rfl⟩ := List.mem_map.mp hrow
    exact ⟨List.cons_ne_nil _ _, cell_of_mem_routeCells (h.routes r hr)⟩

/-- The tables of the page can be read back. -/
theorem sound_pageTables : ∀ b ∈ pageTables t, b.Sound := by
  simp only [pageTables, List.forall_mem_cons]
  exact ⟨sound_rulesTable h _ (by decide) _, sound_rulesTable h _ (by decide) _,
    sound_rulesTable h _ (by decide) _, sound_routesTable h, fun _ hb => absurd hb List.not_mem_nil⟩

/-- The page is its front and its tables. -/
theorem scopeReference_eq :
    scopeReference t = unlines (frontLines ++ (pageTables t).flatMap Table.lines) := by
  have hkeywords := sound_rulesTable h "## Keyword scopes" (by decide) .keyword
  have htypes := sound_rulesTable h "## Type scopes" (by decide) .typeName
  have hcontextual := sound_rulesTable h "## Contextual scopes" (by decide) .contextual
  have hrender : render t =
      unlines (frontLines ++ (rulesTable t "## Keyword scopes" .keyword).lines ++
        (rulesTable t "## Type scopes" .typeName).lines ++
        (rulesTable t "## Contextual scopes" .contextual).lines ++ (routesTable t).lines) := by
    rw [render, head_eq, addRules_unlines closed_frontLines, addRules_unlines (hkeywords.closed _),
      addRules_unlines (htypes.closed _), addRoutes_unlines (hcontextual.closed _)]
  obtain ⟨htrim, hending⟩ := ((sound_routesTable h).closed _).trimLineBreaks_unlines
  rw [scopeReference, hrender, htrim, hending, if_neg (by decide)]
  simp only [pageTables, List.flatMap_cons, List.flatMap_nil, List.append_assoc, List.append_nil]

theorem forall₂_ruleCells (role : Role) :
    List.Forall₂ (RuleRow t) (t.rulesOf role) ((t.rulesOf role).map (ruleCells t)) := by
  rw [List.forall₂_map_right_iff, List.forall₂_same]
  exact fun r hr => ruleRow_ruleCells t (h.rules r (List.mem_filter.mp hr).1)

theorem forall₂_routeCells : List.Forall₂ RouteRow t.routes (t.routes.map routeCells) := by
  rw [List.forall₂_map_right_iff, List.forall₂_same]
  exact fun r hr => routeRow_routeCells (h.routes r hr)

/-- The page of a table records it. -/
theorem records_scopeReference : Records t (scopeReference t) := by
  have hlines : lines (scopeReference t) =
      frontLines ++ (pageTables t).flatMap Table.lines ++ [""] := by
    rw [scopeReference_eq h]
    exact lines_tables (sound_pageTables h) fun l hl => (frontLines_plain l hl).2.2
  obtain ⟨hbefore, htables⟩ := parts_tables (sound_pageTables h)
  have hparts := parts_append (fun l hl => (frontLines_plain l hl).1)
    ((pageTables t).flatMap Table.lines ++ [""])
  rw [← List.append_assoc, ← hlines] at hparts
  -- the front holds no heading and no table, so what is read is the tables behind it
  refine ⟨⟨_, _, _, _, ?_, forall₂_ruleCells h _, forall₂_ruleCells h _, forall₂_ruleCells h _,
    forall₂_routeCells h⟩, ?_, ?_⟩
  · rw [tables, hparts, htables]
    rfl
  · intro l hl
    rw [hparts] at hl
    rcases List.mem_append.mp hl with hl | hl
    · exact (frontLines_plain l hl).2.1
    · exact hbefore l hl
  · rw [hlines]
    exact apart_tables (sound_pageTables h) apart_frontLines closed_frontLines

end

/-! ### One page, one table -/

/-- What the row of a rule says, given the role of its table. -/
def recordOf (role : Role) : List String → String × List String × List String × List String
  | [scope, categories, extras, excluded, _] =>
    ((quoted scope).headD "", if role = .contextual then [] else quoted categories, quoted extras,
      quoted excluded)
  | _ => ("", [], [], [])

/-- The route of a row. -/
def routeOf : List String → Route
  | [stem, target, before] => ⟨(quoted stem).headD "", target, (quoted before).head?⟩
  | _ => ⟨"", "", none⟩

theorem RuleRow.recordOf {t : ScopeTable} {r : Rule} {row : List String} (h : RuleRow t r row) :
    r.recorded = recordOf r.role row := by
  obtain ⟨scope, categories, extras, excluded, target, rfl, hscope, hcategories, hextras, hexcluded,
    -⟩ := h
  rw [Rule.recorded, Reference.recordOf, hscope, hextras, hexcluded]
  by_cases hrole : r.role = .contextual
  · rw [if_pos hrole, if_pos hrole]
    rfl
  · rw [if_neg hrole, if_neg hrole, hcategories hrole]
    rfl

theorem RouteRow.routeOf {r : Route} {row : List String} (h : RouteRow r row) :
    r = routeOf row := by
  obtain ⟨stem, before, rfl, hstem, hbefore⟩ := h
  rw [Reference.routeOf, hstem, hbefore]
  cases r with
  | mk stem target catchAll => cases catchAll <;> rfl

/-- The rows under the heading of a role say what is recorded of its rules. -/
theorem recorded_of_rows {t : ScopeTable} {role : Role} {rows : List (List String)}
    (h : List.Forall₂ (RuleRow t) (t.rulesOf role) rows) :
    (t.rulesOf role).map Rule.recorded = rows.map (recordOf role) := by
  apply map_eq_map_of_forall₂ h
  intro r hr row hrow
  have hrole : r.role = role := of_decide_eq_true (List.mem_filter.mp hr).2
  rw [hrow.recordOf, hrole]

theorem routes_of_rows {routes : List Route} {rows : List (List String)}
    (h : List.Forall₂ RouteRow routes rows) : routes = rows.map routeOf := by
  rw [← map_eq_map_of_forall₂ h fun _ _ _ hrow => hrow.routeOf, List.map_id']

/-- A page records one table only. -/
theorem Records.unique {t u : ScopeTable} {page : String} (ht : Records t page)
    (hu : Records u page) :
    (∀ role, (t.rulesOf role).map Rule.recorded = (u.rulesOf role).map Rule.recorded) ∧
      t.routes = u.routes := by
  obtain ⟨keywords, types, contextual, routes, htables, hkeywords, htypes, hcontextual, hroutes⟩ :=
    ht.tables
  obtain ⟨keywords', types', contextual', routes', htables', hkeywords', htypes', hcontextual',
    hroutes'⟩ := hu.tables
  rw [htables] at htables'
  simp only [List.cons.injEq, Prod.mk.injEq, true_and, and_true] at htables'
  obtain ⟨rfl, rfl, rfl, rfl⟩ := htables'
  refine ⟨fun role => ?_, by rw [routes_of_rows hroutes, routes_of_rows hroutes']⟩
  cases role with
  | keyword => rw [recorded_of_rows hkeywords, recorded_of_rows hkeywords']
  | typeName => rw [recorded_of_rows htypes, recorded_of_rows htypes']
  | contextual => rw [recorded_of_rows hcontextual, recorded_of_rows hcontextual']

/-- The cells of a rule's row, from what is recorded of the rule. -/
def recordedCells (t : ScopeTable) (role : Role) :
    String × List String × List String × List String → List String
  | (scope, categories, extras, excluded) =>
    [code scope, codeList (if role = .contextual then ["*"] else categories), codeList extras,
      codeList excluded, ((t.route? scope).map (·.target)).getD "(not inserted)"]

theorem ruleCells_eq (t : ScopeTable) (r : Rule) :
    ruleCells t r = recordedCells t r.role r.recorded := by
  have htarget : shownTarget t r = ((t.route? r.scope).map (·.target)).getD "(not inserted)" := by
    unfold shownTarget
    cases t.route? r.scope <;> rfl
  have hcategories : shownCategories r = if r.role = .contextual then ["*"] else
      (if r.role = .contextual then [] else r.categories) := by
    unfold shownCategories
    cases r.role <;> rfl
  rw [ruleCells, htarget, hcategories, recordedCells, Rule.recorded]

/-- Tables with the same records have the same tables on their pages. -/
theorem pageTables_congr {t u : ScopeTable}
    (hrules : ∀ role, (t.rulesOf role).map Rule.recorded = (u.rulesOf role).map Rule.recorded)
    (hroutes : t.routes = u.routes) : pageTables t = pageTables u := by
  have hcells : recordedCells t = recordedCells u := by
    funext role ⟨scope, categories, extras, excluded⟩
    rw [recordedCells, recordedCells, ScopeTable.route?, ScopeTable.route?, hroutes]
  have hrows : ∀ (s : ScopeTable) (role : Role), (s.rulesOf role).map (ruleCells s) =
      ((s.rulesOf role).map Rule.recorded).map (recordedCells s role) := by
    intro s role
    rw [List.map_map]
    apply List.map_congr_left
    intro r hr
    have hrole : r.role = role := of_decide_eq_true (List.mem_filter.mp hr).2
    rw [ruleCells_eq, hrole]
    rfl
  simp only [pageTables, rulesTable, routesTable, hrows, hrules, hroutes, hcells]

end Reference

/-- **The reference page records the whole table.** For tables whose texts can stand on the page:
each rule has one row under the heading of its role, in table order, that shows its scope,
categories, additions, exclusions and the section of the first route that takes it; each route has
one row, in order; and each heading has exactly one blank line in front of it. So two tables have
the same page just if they have the same rules in each role, as far as they are recorded, and the
same routes. -/
theorem reference_records_table :
    (∀ t : ScopeTable, t.Tabular → Records t (scopeReference t)) ∧
    ∀ t u : ScopeTable, t.Tabular → u.Tabular →
      (scopeReference t = scopeReference u ↔
        (∀ role, (t.rulesOf role).map Rule.recorded = (u.rulesOf role).map Rule.recorded) ∧
          t.routes = u.routes) := by
  refine ⟨fun t ht => records_scopeReference ht, fun t u ht hu => ⟨fun hpage => ?_, ?_⟩⟩
  · have hrecords := records_scopeReference hu
    rw [← hpage] at hrecords
    exact (records_scopeReference ht).unique hrecords
  · rintro ⟨hrules, hroutes⟩
    rw [scopeReference_eq ht, scopeReference_eq hu, pageTables_congr hrules hroutes]

/-- Rules of all roles in turn, with a comma and an empty text among their categories, a scope that
no route takes, and a route with an empty catch-all. -/
def mixedTable : ScopeTable where
  rules :=
    [⟨"key.a", .keyword, ["a, b", ""], ["x"], [], none⟩,
      ⟨"v", .contextual, [], ["ok"], ["self"], none⟩, ⟨"type.a", .typeName, [], [], ["a, b"], none⟩,
      ⟨"key.b", .keyword, ["a, b"], [], [], none⟩]
  routes := [⟨"key.a", "first", none⟩, ⟨"key", "rest", some ""⟩, ⟨"v", "", some "v.all"⟩]

/-- The same table, role by role, with other comments and categories without effect. -/
def sortedTable : ScopeTable where
  rules :=
    [⟨"key.a", .keyword, ["a, b", ""], ["x"], [], some "Words"⟩,
      ⟨"key.b", .keyword, ["a, b"], [], [], none⟩, ⟨"type.a", .typeName, [], [], ["a, b"], none⟩,
      ⟨"v", .contextual, ["a"], ["ok"], ["self"], none⟩]
  routes := mixedTable.routes

/-- The same table with two categories in place of one with a comma in it. -/
def splitTable : ScopeTable where
  rules := mixedTable.rules.map fun r =>
    if r.scope = "key.b" then { r with categories := ["a", "b"] } else r
  routes := mixedTable.routes

theorem mixedTable_recorded :
    (mixedTable.Tabular ∧ sortedTable.Tabular ∧ splitTable.Tabular) ∧
    Records mixedTable (scopeReference mixedTable) ∧ mixedTable ≠ sortedTable ∧
    scopeReference mixedTable = scopeReference sortedTable ∧
    scopeReference mixedTable ≠ scopeReference splitTable := by
  obtain ⟨hrecords, hpages⟩ := reference_records_table
  have hmixed : mixedTable.Tabular := ⟨by decide, by decide⟩
  have hsorted : sortedTable.Tabular := ⟨by decide, by decide⟩
  have hsplit : splitTable.Tabular := ⟨by decide, by decide⟩
  refine ⟨⟨hmixed, hsorted, hsplit⟩, hrecords _ hmixed, by decide, ?_, ?_⟩
  · refine (hpages _ _ hmixed hsorted).mpr ⟨fun role => ?_, rfl⟩
    cases role <;> decide
  · intro hpage
    have hkeywords := ((hpages _ _ hmixed hsplit).mp hpage).1 .keyword
    exact absurd hkeywords (by decide)

end GrammarSync
