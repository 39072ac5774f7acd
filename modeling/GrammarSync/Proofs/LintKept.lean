/-
# A run keeps what lint finds

The issues of a grammar depend on its scope name, on the references of its
includes, on the names of its sections, and on the names behind the catch-alls
of its sections (`lint_congr`). Refreshing changes expressions only. An
insertion puts in a node without an include, in front of the section's
catch-all if it has one: behind the first catch-all stands what stood there
before (`Lint.behind_insertBefore`).

The catch-all of a section is looked up in two ways: where a pattern is
inserted it is the first that a route into the section declares, where
patterns are checked it is that of each route. The two agree in a table whose
catch-alls have no rules and are one for each section
(`ScopeTable.CatchAllsApart`), and by such a table a run changes no issue
(`lint_kept`).

Key definitions: `ScopeTable.CatchAllsApart`, `Document.unreached?`,
`Node.references`, `Document.sectionReferences`, `Lint.dangling?`.
Key theorems: `ScopeTable.CatchAllsApart.catchAll?_eq`, `Lint.behind_insertBefore`,
`lint_congr`, `lint_refresh`, `lint_add`, `Document.unreached?_synchronize`,
`managedFor_behind_synchronize`, `lint_kept`.
-/
import GrammarSync.Proofs.Completeness
import GrammarSync.Proofs.Frame
import GrammarSync.Scope.Hew
import Mathlib.Data.List.DropRight
import Mathlib.Data.List.TakeWhile

namespace GrammarSync

/-! ### Tables whose catch-alls stand apart -/

/-- A table whose catch-alls are not scopes of rules, with one catch-all at most for each
section. -/
structure ScopeTable.CatchAllsApart (t : ScopeTable) : Prop where
  unruled : ∀ route ∈ t.routes, ∀ r ∈ t.rules, route.catchAll ≠ some r.scope
  single : ∀ p ∈ t.routes, ∀ q ∈ t.routes, p.target = q.target →
    p.catchAll.isSome → q.catchAll.isSome → p.catchAll = q.catchAll

instance (t : ScopeTable) : Decidable t.CatchAllsApart :=
  decidable_of_iff (_ ∧ _) ⟨fun h => ⟨h.1, h.2⟩, fun h => ⟨h.unruled, h.single⟩⟩

/-- The catch-all that an insertion looks for is that of each route into the section that declares
one. -/
theorem ScopeTable.CatchAllsApart.catchAll?_eq {t : ScopeTable} (h : t.CatchAllsApart)
    {route : Route} (hroute : route ∈ t.routes) {name : String}
    (hname : route.catchAll = some name) : t.catchAll? route.target = some name := by
  have hmem : route ∈ t.routes.filter (·.target = route.target) :=
    List.mem_filter.mpr ⟨hroute, decide_eq_true rfl⟩
  have hsome : (t.catchAll? route.target).isSome := by
    rw [catchAll?, List.isSome_findSome?, List.any_eq_true]
    exact ⟨route, hmem, by rw [hname]; rfl⟩
  obtain ⟨first, hfirst⟩ := Option.isSome_iff_exists.mp hsome
  obtain ⟨p, hp, hcatch⟩ := List.exists_of_findSome?_eq_some hfirst
  obtain ⟨hp, htarget⟩ := List.mem_filter.mp hp
  have heq : p.catchAll = route.catchAll := by
    refine h.single p hp route hroute (of_decide_eq_true htarget) ?_ ?_
    · rw [hcatch]; rfl
    · rw [hname]; rfl
  rw [hfirst, ← hcatch, heq, hname]

/-! ### Behind the catch-all -/

namespace Lint

/-- What is inserted in front of the first node of a name is not behind it; without such a node
nothing is behind it, before and after. -/
theorem behind_insertBefore {name : String} {node : Node} (h : node.name ≠ some name)
    (nodes : List Node) : behind name (insertBefore (some name) node nodes) = behind name nodes := by
  have hbefore : ∀ n ∈ nodes.takeWhile (·.name ≠ some name), decide (n.name ≠ some name) = true :=
    List.all_eq_true.mp List.all_takeWhile
  unfold behind insertBefore
  rw [List.dropWhile_append_of_pos hbefore, List.dropWhile_cons_of_pos (by simpa using h),
    List.dropWhile_idempotent]

theorem behind_refreshAll (groups : List ScopeGroup) (name : String) (nodes : List Node) :
    behind name (Node.refreshAll groups nodes) = Node.refreshAll groups (behind name nodes) := by
  have hname : ((fun n : Node => decide (n.name ≠ some name)) ∘ Node.refresh groups) =
      fun n => decide (n.name ≠ some name) := by
    funext n
    simp
  simp only [behind, Node.refreshAll_eq_map, List.dropWhile_map, hname, List.map_drop]

theorem behind_sublist (name : String) (nodes : List Node) : (behind name nodes).Sublist nodes :=
  (List.drop_sublist 1 _).trans (List.dropWhile_sublist _)

theorem managedName?_refresh (t : ScopeTable) (groups : List ScopeGroup) (n : Node) :
    managedName? t (n.refresh groups) = managedName? t n := by
  rw [managedName?, Node.refresh_name, managedName?]

end Lint

namespace Document

/-- The nodes behind the catch-all of a route's section, if the route declares one and the section
has patterns. -/
def unreached? (d : Document) (route : Route) : Option (List Node) :=
  route.catchAll.bind fun name => (d.sectionPatterns? route.target).map (Lint.behind name)

theorem unreached?_refresh (groups : List ScopeGroup) (d : Document) (route : Route) :
    (d.refresh groups).unreached? route = (d.unreached? route).map (Node.refreshAll groups) := by
  unfold unreached?
  rw [sectionPatterns?_refresh]
  cases route.catchAll with
  | none => rfl
  | some name =>
    cases d.sectionPatterns? route.target with
    | none => rfl
    | some nodes => exact congrArg some (Lint.behind_refreshAll groups name nodes)

variable {t : ScopeTable} (taxonomy : Taxonomy)

/-- An addition comes behind no catch-all. -/
theorem unreached?_add (h : t.CatchAllsApart) {route : Route} (hroute : route ∈ t.routes)
    {a : Addition} (ha : a.rule ∈ t.rules) (d : Document) :
    (d.add t taxonomy a).unreached? route = d.unreached? route := by
  unfold unreached?
  cases hname : route.catchAll with
  | none => rfl
  | some name =>
    rw [Option.bind_some, Option.bind_some, add, sectionPatterns?_modifySection]
    split
    · rename_i htarget
      have hanchor : t.catchAll? a.target = some name := by
        rw [← htarget]
        exact h.catchAll?_eq hroute hname
      have hnode : (a.node taxonomy).name ≠ some name := by
        rw [← hname]
        exact (h.unruled route hroute a.rule ha).symm
      rw [htarget, hanchor, Option.map_map]
      congr 1
      funext nodes
      exact Lint.behind_insertBefore hnode nodes
    · rfl

end Document

/-! ### Includes -/

/-- The references of the includes among nodes, in order. -/
def Node.references (nodes : List Node) : List String :=
  nodes.filterMap Node.include?

/-- The references in each section, from the section's own node on. -/
def Document.sectionReferences (d : Document) : List (String × List String) :=
  d.repository.map fun s => (s.1, Node.references s.2.preorder)

namespace Node

variable (groups : List ScopeGroup)

theorem refresh_include? (n : Node) : (n.refresh groups).include? = n.include? := by
  rw [include?, raw?, refresh_eq, include?, raw?]

/-- Refreshing keeps the references of a sequence, at any depth. -/
theorem references_refreshAll (nodes : List Node) :
    references (preorderAll (refreshAll groups nodes)) = references (preorderAll nodes) := by
  have hinclude : include? ∘ refresh groups = include? :=
    funext fun n => refresh_include? groups n
  rw [references, references, preorderAll_refreshAll, List.filterMap_map, hinclude]

theorem references_cons (n : Node) (nodes : List Node) :
    references (n :: nodes) = n.include?.toList ++ references nodes := by
  unfold references
  cases h : n.include? with
  | none => rw [List.filterMap_cons_none h]; rfl
  | some reference => rw [List.filterMap_cons_some h]; rfl

theorem references_append (xs ys : List Node) :
    references (xs ++ ys) = references xs ++ references ys :=
  List.filterMap_append

/-- Inserting a leaf without an include keeps the references of a sequence, at any depth. -/
theorem references_insertBefore {node : Node} (hleaf : node.children = none)
    (hinclude : node.include? = none) (anchor : Option String) (nodes : List Node) :
    references (preorderAll (insertBefore anchor node nodes)) = references (preorderAll nodes) := by
  obtain ⟨before, after, hsplit, hins⟩ := insertBefore_split anchor node nodes
  have hnode : references node.preorder = [] := by
    rw [preorder_eq, hleaf, references_cons, hinclude]
    rfl
  rw [hins, hsplit, preorderAll_append, preorderAll_append, preorderAll, references_append,
    references_append, references_append, hnode, List.nil_append]

/-- A change of the nested nodes that keeps their references keeps those of the node. -/
theorem references_mapChildren {f : List Node → List Node}
    (h : ∀ nodes, references (preorderAll (f nodes)) = references (preorderAll nodes)) (n : Node) :
    references (n.mapChildren f).preorder = references n.preorder := by
  have hself : (n.mapChildren f).include? = n.include? := rfl
  have hnested : references (preorderAll ((n.mapChildren f).children.getD [])) =
      references (preorderAll (n.children.getD [])) := by
    rw [mapChildren]
    cases n.children with
    | none => rfl
    | some nodes => exact h nodes
  rw [preorder_eq, preorder_eq n, references_cons, references_cons, hself, hnested]

end Node

namespace Document

theorem sectionReferences_refresh (groups : List ScopeGroup) (d : Document) :
    (d.refresh groups).sectionReferences = d.sectionReferences := by
  rw [sectionReferences, repository_refresh, List.map_map]
  refine List.map_congr_left fun s _ => ?_
  exact congrArg (s.1, ·)
    (Node.references_mapChildren (Node.references_refreshAll groups) s.2)

theorem sectionReferences_add (t : ScopeTable) (taxonomy : Taxonomy) (d : Document) (a : Addition) :
    (d.add t taxonomy a).sectionReferences = d.sectionReferences := by
  have hkept : ∀ nodes, Node.references (Node.preorderAll
      (insertBefore (t.catchAll? a.target) (a.node taxonomy) nodes)) =
        Node.references (Node.preorderAll nodes) :=
    Node.references_insertBefore rfl rfl _
  rw [sectionReferences, add, repository_modifySection]
  exact Entries.map_modify_of_view (fun s => Node.references s.preorder) a.target
    (Node.references_mapChildren hkept) d.repository

end Document

/-! ### What the issues depend on -/

namespace Lint

/-- The reference of an include, if it names a section that does not exist. -/
def dangling? (d : Document) (reference : String) : Option String :=
  match includedSection? reference with
  | none => none
  | some name => if (d.section? name).isNone then some reference else none

theorem dangling?_congr {d e : Document}
    (h : Entries.keys d.repository = Entries.keys e.repository) : dangling? d = dangling? e := by
  funext reference
  unfold dangling?
  cases includedSection? reference with
  | none => rfl
  | some name =>
    have hnone : (d.section? name).isNone = (e.section? name).isNone := by
      rw [Bool.eq_iff_iff, Option.isNone_iff_eq_none, Option.isNone_iff_eq_none,
        Document.section?, Document.section?, Entries.lookup_eq_none_iff,
        Entries.lookup_eq_none_iff, h]
    simp only [hnone]

theorem unresolvedIn_eq (d : Document) (context : String) (nodes : List Node) :
    unresolvedIn d context nodes =
      ((Node.references nodes).filterMap (dangling? d)).map (.unresolvedInclude context) := by
  have hnode : unresolved? d = fun n => n.include?.bind (dangling? d) := by
    funext n
    rw [unresolved?]
    cases n.include? <;> rfl
  rw [unresolvedIn, Node.references, List.filterMap_filterMap, hnode]

/-- The unresolved includes are read off the references and the names of the sections. -/
theorem includeIssues_eq (d : Document) : includeIssues d =
    ((Node.references (Node.preorderAll d.patterns)).filterMap (dangling? d)).map
        (.unresolvedInclude topLabel) ++
      d.sectionReferences.flatMap fun s =>
        (s.2.filterMap (dangling? d)).map (.unresolvedInclude (sectionLabel s.1)) := by
  rw [includeIssues, unresolvedIn_eq, Document.sectionReferences, List.flatMap_map]
  simp only [unresolvedIn_eq]

/-- The shadowed patterns are read off the nodes behind the catch-all. -/
theorem shadowIssuesOf_eq (d : Document) (t : ScopeTable) (route : Route) :
    shadowIssuesOf d t route =
      (((d.unreached? route).map (·.filterMap (managedName? t))).getD []).map fun scope =>
        .shadowedByCatchAll route.target scope (route.catchAll.getD "") := by
  unfold shadowIssuesOf Document.unreached?
  cases route.catchAll with
  | none => rfl
  | some name =>
    cases d.sectionPatterns? route.target with
    | none => rfl
    | some nodes => rfl

end Lint

theorem Document.keys_sectionReferences (d : Document) :
    Entries.keys d.sectionReferences = Entries.keys d.repository := by
  rw [sectionReferences, Entries.keys, List.map_map]
  rfl

variable {t : ScopeTable}

/-- Grammars with one scope name, the same references, and the same scopes behind the catch-alls have
the same issues. -/
theorem lint_congr {d e : Document} (hname : d.scopeName = e.scopeName)
    (htop : Node.references (Node.preorderAll d.patterns) =
      Node.references (Node.preorderAll e.patterns))
    (hsections : d.sectionReferences = e.sectionReferences)
    (hbehind : ∀ route ∈ t.routes,
      (d.unreached? route).map (·.filterMap (Lint.managedName? t)) =
        (e.unreached? route).map (·.filterMap (Lint.managedName? t)))
    (wanted : String) : lint d t wanted = lint e t wanted := by
  have hkeys : Entries.keys d.repository = Entries.keys e.repository := by
    rw [← d.keys_sectionReferences, hsections, e.keys_sectionReferences]
  have hscope : Lint.scopeNameIssues d wanted = Lint.scopeNameIssues e wanted := by
    rw [Lint.scopeNameIssues, hname, Lint.scopeNameIssues]
  have hincludes : Lint.includeIssues d = Lint.includeIssues e := by
    rw [Lint.includeIssues_eq, Lint.includeIssues_eq, htop, hsections, Lint.dangling?_congr hkeys]
  have hshadow : Lint.shadowIssues d t = Lint.shadowIssues e t := by
    refine List.flatMap_congr fun route hroute => ?_
    rw [Lint.shadowIssuesOf_eq, Lint.shadowIssuesOf_eq, hbehind route hroute]
  rw [lint, lint, hscope, hincludes, hshadow]

/-! ### The issues through a run -/

/-- Refreshing changes no issue, whatever the table. -/
theorem lint_refresh (groups : List ScopeGroup) (d : Document) (wanted : String) :
    lint (d.refresh groups) t wanted = lint d t wanted := by
  have hscope : (d.refresh groups).scopeName = d.scopeName := rfl
  refine lint_congr hscope (Node.references_refreshAll groups d.patterns)
    (d.sectionReferences_refresh groups) (fun route _ => ?_) wanted
  have hnames : Lint.managedName? t ∘ Node.refresh groups = Lint.managedName? t :=
    funext fun n => Lint.managedName?_refresh t groups n
  rw [Document.unreached?_refresh, Option.map_map]
  congr 1
  funext nodes
  rw [Function.comp_apply, Node.refreshAll_eq_map, List.filterMap_map, hnames]

variable (taxonomy : Taxonomy)

/-- An addition changes no issue. -/
theorem lint_add (h : t.CatchAllsApart) {a : Addition} (ha : a.rule ∈ t.rules) (d : Document)
    (wanted : String) : lint (d.add t taxonomy a) t wanted = lint d t wanted := by
  have hscope : (d.add t taxonomy a).scopeName = d.scopeName := rfl
  refine lint_congr hscope rfl (d.sectionReferences_add t taxonomy a) (fun route hroute => ?_) wanted
  rw [Document.unreached?_add taxonomy h hroute ha]

namespace Document

/-- The nodes behind a catch-all after a run are those before it, refreshed. -/
theorem unreached?_synchronize (h : t.CatchAllsApart) {route : Route} (hroute : route ∈ t.routes)
    (d : Document) : (synchronize t taxonomy d).1.unreached? route =
      (d.unreached? route).map (Node.refreshAll (t.groups taxonomy)) := by
  rw [document_synchronize, ← unreached?_refresh]
  refine addAll_induction (P := fun e => e.unreached? route = _) t taxonomy rfl fun e a ha ih => ?_
  have hrule : a.rule ∈ t.rules := t.mem_of_rule? (t.mem_runAdditions.mp ha).1
  rw [unreached?_add taxonomy h hroute hrule, ih]

end Document

/-- The record of an addition leads back to the addition. -/
theorem exists_addition_of_added {d : Document} {scope name regex : String}
    (h : .added scope (sectionLabel name) regex ∈ (synchronize t taxonomy d).2.changes) :
    ∃ a ∈ t.runAdditions d, a.rule.scope = scope ∧ a.target = name ∧
      (a.rule.group taxonomy).regex = regex := by
  have hadded : .added scope (sectionLabel name) regex ∈
      (synchronize t taxonomy d).2.changes.filter Change.isAdded :=
    List.mem_filter.mpr ⟨h, rfl⟩
  rw [filter_isAdded_changes] at hadded
  obtain ⟨a, ha, hchange⟩ := List.mem_map.mp hadded
  injection hchange with hscope hlabel hregex
  exact ⟨a, ha, hscope, sectionLabel_injective hlabel, hregex⟩

/-- A run changes no issue: neither its refreshing nor one of its additions does. -/
theorem lint_synchronize (h : t.CatchAllsApart) (d : Document) (wanted : String) :
    lint (synchronize t taxonomy d).1 t wanted = lint d t wanted := by
  rw [document_synchronize, ← lint_refresh (t.groups taxonomy) d wanted]
  refine Document.addAll_induction (P := fun e => lint e t wanted = _) t taxonomy rfl
    fun e a ha ih => ?_
  have hrule : a.rule ∈ t.rules := t.mem_of_rule? (t.mem_runAdditions.mp ha).1
  rw [lint_add taxonomy h hrule, ih]

/-- What stands behind the catch-all of an addition's section stood there before the run, where no
node was managed for the addition's scope. -/
theorem managedFor_behind_synchronize (h : t.CatchAllsApart) {d : Document} {a : Addition}
    (ha : a ∈ t.runAdditions d) {route : Route} (hroute : route ∈ t.routes)
    (htarget : route.target = a.target) {catchAll : String} (hcatch : route.catchAll = some catchAll)
    {nodes : List Node}
    (hnodes : (synchronize t taxonomy d).1.sectionPatterns? a.target = some nodes) :
    ∀ n ∈ Lint.behind catchAll nodes, n.managedFor a.rule.scope = false := by
  intro n hn
  obtain ⟨before, hbefore⟩ := Option.isSome_iff_exists.mp (t.isSome_of_mem_runAdditions ha)
  have hbehind : Lint.behind catchAll nodes =
      Node.refreshAll (t.groups taxonomy) (Lint.behind catchAll before) := by
    have hrun := Document.unreached?_synchronize taxonomy h hroute d
    simp only [Document.unreached?, hcatch, htarget, hnodes, hbefore, Option.bind_some,
      Option.map_some, Option.some.injEq] at hrun
    exact hrun
  rw [hbehind, Node.refreshAll_eq_map] at hn
  obtain ⟨m, hm, rfl⟩ := List.mem_map.mp hn
  have hman : d.manages a.rule.scope = false := (t.mem_runAdditions.mp ha).2.1
  rw [managedFor_refresh]
  exact Document.managedFor_eq_false hbefore hman m ((Lint.behind_sublist _ _).subset hm)

/-- **A run keeps what lint finds.** By a table whose catch-alls stand apart, the issues of a grammar
after a run are those before it, in order, whatever scope name is expected. Each added pattern stands
in its section's own sequence, and nothing behind a catch-all of the section is managed for its
scope. -/
theorem lint_kept (h : t.CatchAllsApart) (d : Document) (wanted : String) :
    lint (synchronize t taxonomy d).1 t wanted = lint d t wanted ∧
    ∀ scope name regex,
      .added scope (sectionLabel name) regex ∈ (synchronize t taxonomy d).2.changes →
      ∃ nodes, (synchronize t taxonomy d).1.sectionPatterns? name = some nodes ∧
        (∃ n ∈ nodes, n.reads scope regex) ∧
        ∀ route ∈ t.routes, route.target = name → ∀ catchAll, route.catchAll = some catchAll →
          ∀ n ∈ Lint.behind catchAll nodes, n.managedFor scope = false := by
  refine ⟨lint_synchronize taxonomy h d wanted, ?_⟩
  intro scope name regex hadded
  obtain ⟨a, ha, rfl, rfl, rfl⟩ := exists_addition_of_added taxonomy hadded
  obtain ⟨nodes, hnodes, hmem⟩ := mem_sectionPatterns?_synchronize t taxonomy ha
  refine ⟨nodes, hnodes, ⟨_, hmem, a.reads_node taxonomy⟩, ?_⟩
  intro route hroute htarget catchAll hcatch
  exact managedFor_behind_synchronize taxonomy h ha hroute htarget hcatch hnodes

/-- A catch-all that has a rule is inserted in front of itself if it has no expression, and from then
on it is behind itself. -/
example :
    let t : ScopeTable := ⟨[⟨"rest", .keyword, [], [], [], none⟩], [⟨"rest", "all", some "rest"⟩]⟩
    let d : Document := ⟨"source", [], [("all", ⟨none, none, none,
      some [⟨some "rest", none, none, none, [], ["name"]⟩], [], ["patterns"]⟩)], [], []⟩
    lint d t "source" = [] ∧ lint (synchronize t Sample.vocabulary d).1 t "source" =
      [.shadowedByCatchAll "all" "rest" "rest"] := by
  decide

/-! ### A grammar with issues -/

theorem ScopeTable.catchAllsApart_hew : ScopeTable.hew.CatchAllsApart := by
  decide

/-- A section that is an include of a missing one, and a section of variables with a keyword pattern
behind its catch-all. -/
def flawedGrammar : Document where
  scopeName := "source.sample"
  patterns := [⟨none, none, none, none, [("include", .string "#variables")], ["include"]⟩]
  repository := [("alias", ⟨none, none, none, none, [("include", .string "#gone")], ["include"]⟩),
    ("variables", ⟨none, none, none, some [.generated "" "variable.language.self.hew" "self",
      .generated "" "variable.other.hew" "word", .generated "" "keyword.wire.hew" "old"],
      [], ["patterns"]⟩)]
  rest := []
  order := ["scopeName", "patterns", "repository"]

/-- Three issues stay, and the pattern that is added to the section of variables does not come behind
the catch-all. -/
theorem flawedGrammar_issues_kept : ScopeTable.hew.CatchAllsApart ∧
    lint (synchronize .hew Sample.vocabulary flawedGrammar).1 .hew "source.hew" =
      [.unexpectedScopeName "source.hew" "source.sample",
        .unresolvedInclude "repository.alias" "#gone",
        .shadowedByCatchAll "variables" "keyword.wire.hew" "variable.other.hew"] ∧
    ∃ nodes,
      (synchronize .hew Sample.vocabulary flawedGrammar).1.sectionPatterns? "variables" = some nodes ∧
      (∃ n ∈ nodes, n.reads "variable.language.contextual.hew" "\\b()\\b") ∧
      ∀ n ∈ Lint.behind "variable.other.hew" nodes,
        n.managedFor "variable.language.contextual.hew" = false := by
  obtain ⟨hlint, hadded⟩ := lint_kept Sample.vocabulary ScopeTable.catchAllsApart_hew
    flawedGrammar "source.hew"
  have hissues : lint flawedGrammar .hew "source.hew" =
      [.unexpectedScopeName "source.hew" "source.sample",
        .unresolvedInclude "repository.alias" "#gone",
        .shadowedByCatchAll "variables" "keyword.wire.hew" "variable.other.hew"] := by
    decide +kernel
  have hlog : .added "variable.language.contextual.hew" (sectionLabel "variables") "\\b()\\b" ∈
      (synchronize .hew Sample.vocabulary flawedGrammar).2.changes := by
    decide +kernel
  obtain ⟨nodes, hnodes, hmem, hbehind⟩ := hadded _ _ _ hlog
  refine ⟨ScopeTable.catchAllsApart_hew, hlint.trans hissues, nodes, hnodes, hmem, ?_⟩
  have hroute : ⟨"variable.language.", "variables", some "variable.other.hew"⟩ ∈
      ScopeTable.hew.routes := by
    decide
  exact hbehind _ hroute rfl _ rfl

end GrammarSync
