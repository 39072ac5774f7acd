/-
# Patterns behind a catch-all

A pattern is shadowed if its name is a scope of the table and it comes, at any
depth, after the first of its section's own patterns that has the name of the
section's catch-all (`Document.ShadowedAt`). In document order that is the
pattern whose way from the section's sequence comes after the position of the
catch-all: what is nested in the catch-all itself, and everything behind it.

The structural checks look along the section's own sequence. Of the shadowed
patterns they report those in this sequence, each once for every route into
the section, and no others (`Lint.exists_listing_shadowIssueAt?`). A shadowed
pattern that is nested in another node escapes them
(`nested_shadowed_pattern_escapes`), and only such a pattern does
(`shadowed_own_patterns_are_reported`).

Key definitions: `Document.ShadowedAt`, `Document.shadowIssueAt?`.
Key theorems: `Lint.behind_eq_drop`, `Lint.exists_listing_shadowIssueAt?`,
`shadowed_own_patterns_are_reported`, `nested_shadowed_pattern_escapes`.
-/
import GrammarSync.Proofs.Includes
import GrammarSync.Proofs.Placement
import GrammarSync.Scope.Hew

namespace GrammarSync

namespace Listing

variable {α : Type} {found? : List Nat → Option α} {entries : List (List Nat × α)}

/-- The entries whose ways pass a test are listed in the same order. -/
theorem filter (p : List Nat → Bool) (h : Listing found? entries) :
    Listing (fun way => if p way then found? way else none) (entries.filter (p ·.1)) where
  mem_iff way a := by
    rw [List.mem_filter, h.mem_iff]
    by_cases hp : p way = true <;> simp [hp]
  increasing := by
    apply List.pairwise_map.mpr
    exact (List.pairwise_map.mp h.increasing).filter _

end Listing

theorem filter_filterMap_listing {α β : Type} (p : List Nat → Bool) (f : α → Option β)
    (entries : List (List Nat × α)) :
    (entries.filterMap fun e => (f e.2).map (e.1, ·)).filter (p ·.1) =
      (entries.filter (p ·.1)).filterMap fun e => (f e.2).map (e.1, ·) := by
  rw [List.filter_filterMap, List.filterMap_filter]
  apply List.filterMap_congr
  intro e _
  cases f e.2 with
  | none => simp
  | some b => by_cases hp : p e.1 = true <;> simp [hp]

/-! ### The section's own patterns -/

namespace Node

theorem at?_singleton (nodes : List Node) (i : Nat) : at? nodes [i] = nodes[i]? := by
  rw [at?, along?]
  cases nodes[i]? <;> rfl

/-- The nodes of a sequence that come behind a position are listed by their own positions. -/
theorem listing_drop (first : Nat) (nodes : List Node) :
    Listing (fun way => if way.length = 1 ∧ [first] < way then at? nodes way else none)
      (((nodes.drop (first + 1)).zipIdx (first + 1)).map fun p => ([p.2], p.1)) where
  mem_iff way n := by
    have hbehind : ∀ i, (n, i) ∈ (nodes.drop (first + 1)).zipIdx (first + 1) ↔
        first < i ∧ nodes[i]? = some n := by
      intro i
      rw [List.mk_mem_zipIdx_iff_le_and_getElem?_sub, List.getElem?_drop]
      apply and_congr_right
      intro hi
      rw [Nat.add_sub_cancel' hi]
    have hway : (way, n) ∈ ((nodes.drop (first + 1)).zipIdx (first + 1)).map
        (fun p => ([p.2], p.1)) ↔ ∃ i, way = [i] ∧ first < i ∧ nodes[i]? = some n := by
      simp only [List.mem_map, Prod.mk.injEq, Prod.exists, ← hbehind]
      constructor
      · rintro ⟨m, i, hm, rfl, rfl⟩
        exact ⟨i, rfl, hm⟩
      · rintro ⟨i, rfl, hi⟩
        exact ⟨n, i, hi, rfl, rfl⟩
    rw [hway]
    constructor
    · rintro ⟨i, rfl, hi, hn⟩
      have hlt : [first] < [i] := List.cons_lt_cons_iff.mpr (.inl hi)
      rw [if_pos ⟨rfl, hlt⟩, at?_singleton, hn]
    · intro h
      split at h
      · rename_i hcond
        obtain ⟨i, rfl⟩ := List.length_eq_one_iff.mp hcond.1
        rw [at?_singleton] at h
        have hi : first < i := by simpa [List.cons_lt_cons_iff] using hcond.2
        exact ⟨i, rfl, hi, h⟩
      · cases h
  increasing := by
    rw [List.map_map, List.pairwise_map]
    apply (zipIdx_pairwise (nodes.drop (first + 1)) (first + 1)).imp
    intro p q hlt
    exact List.cons_lt_cons_iff.mpr (.inl hlt)

end Node

namespace Lint

/-- What is behind a name follows the first node that has it; without such a node it is nothing. -/
theorem behind_eq_drop (name : String) (nodes : List Node) : behind name nodes =
    ((anchorAt? (some name) nodes).map fun first => nodes.drop (first + 1)).getD [] := by
  rw [behind, (split_anchorAt? name nodes).2, List.drop_drop]
  cases anchorAt? (some name) nodes with
  | none =>
    rw [Option.getD_none, List.drop_eq_nil_of_le (Nat.le_succ _)]
    rfl
  | some first => rfl

end Lint

/-! ### Shadowed patterns -/

/-- A way from a section's sequence leads to a shadowed pattern: it comes after the first of the
sequence's own nodes with the name of the route's catch-all, and its name is the scope of a rule. The
issue says so. -/
def Document.ShadowedAt (d : Document) (t : ScopeTable) (route : Route) (way : List Nat)
    (issue : Issue) : Prop :=
  ∃ catchAll nodes first n scope, route.catchAll = some catchAll ∧
    d.sectionPatterns? route.target = some nodes ∧
    anchorAt? (some catchAll) nodes = some first ∧ [first] < way ∧
    Node.at? nodes way = some n ∧ n.name = some scope ∧ (∃ r ∈ t.rules, r.scope = scope) ∧
    issue = .shadowedByCatchAll route.target scope catchAll

/-- The node that a way leads to from a sequence, if it comes after the node at a position. -/
def Node.after? (first : Nat) (nodes : List Node) (way : List Nat) : Option Node :=
  if [first] < way then Node.at? nodes way else none

/-- The issue of a node behind a route's catch-all, if its name is the scope of a rule. -/
def Lint.shadowIssue? (t : ScopeTable) (target catchAll : String) (n : Node) : Option Issue :=
  (managedName? t n).map fun scope => .shadowedByCatchAll target scope catchAll

/-- The issue of the pattern that a way leads to from a section's sequence, if it is shadowed. -/
def Document.shadowIssueAt? (d : Document) (t : ScopeTable) (route : Route) (way : List Nat) :
    Option Issue :=
  route.catchAll.bind fun catchAll =>
    (d.sectionPatterns? route.target).bind fun nodes =>
      (anchorAt? (some catchAll) nodes).bind fun first =>
        (Node.after? first nodes way).bind (Lint.shadowIssue? t route.target catchAll)

namespace Lint

variable {d : Document} {t : ScopeTable}

theorem managedName?_eq_some {n : Node} {scope : String} :
    managedName? t n = some scope ↔ n.name = some scope ∧ ∃ r ∈ t.rules, r.scope = scope := by
  unfold managedName? ScopeTable.rule?
  simp [Option.filter_eq_some_iff]

theorem shadowIssueAt?_eq_some {route : Route} {way : List Nat} {issue : Issue} :
    d.shadowIssueAt? t route way = some issue ↔ d.ShadowedAt t route way issue := by
  unfold Document.shadowIssueAt? Document.ShadowedAt Node.after? shadowIssue?
  simp only [Option.bind_eq_some_iff, Option.map_eq_some_iff, Option.ite_none_right_eq_some,
    managedName?_eq_some]
  constructor
  · rintro ⟨catchAll, hcatch, nodes, hnodes, first, hfirst, n, ⟨hway, hn⟩, scope, ⟨hname, hrule⟩, rfl⟩
    exact ⟨catchAll, nodes, first, n, scope, hcatch, hnodes, hfirst, hway, hn, hname, hrule, rfl⟩
  · rintro ⟨catchAll, nodes, first, n, scope, hcatch, hnodes, hfirst, hway, hn, hname, hrule, rfl⟩
    exact ⟨catchAll, hcatch, nodes, hnodes, first, hfirst, n, ⟨hway, hn⟩, scope, ⟨hname, hrule⟩, rfl⟩

/-- The nodes of a sequence that come after a position can be listed, and those of them that are the
sequence's own are what follows the position. -/
theorem exists_listing_after? (first : Nat) (nodes : List Node) :
    ∃ entries, Listing (Node.after? first nodes) entries ∧
      (entries.filter (·.1.length = 1)).map Prod.snd = nodes.drop (first + 1) := by
  have hentries := Node.listing_placesAll nodes
  have hafter : Listing (Node.after? first nodes)
      ((Node.placesAll 0 nodes).filter ([first] < ·.1)) := by
    have hfiltered := hentries.filter fun way => [first] < way
    simp only [decide_eq_true_eq] at hfiltered
    exact hfiltered
  refine ⟨_, hafter, ?_⟩
  have hown := hafter.filter fun way => way.length = 1
  have hsame : (fun way : List Nat => if decide (way.length = 1) = true
      then Node.after? first nodes way else none) =
      fun way => if way.length = 1 ∧ [first] < way then Node.at? nodes way else none := by
    funext way
    by_cases hlength : way.length = 1 <;> simp [Node.after?, hlength]
  rw [hsame] at hown
  rw [hown.eq (Node.listing_drop first nodes), List.map_map]
  exact List.zipIdx_map_fst _ _

/-- The shadowed patterns of a section can be listed, and those reported are the section's own. -/
theorem exists_listing_shadowIssueAt? (d : Document) (t : ScopeTable) (route : Route) :
    ∃ entries, Listing (d.shadowIssueAt? t route) entries ∧
      (entries.filter (·.1.length = 1)).map Prod.snd = shadowIssuesOf d t route := by
  have hnothing : Listing (fun _ => (none : Option Issue)) [] := ⟨by simp, List.Pairwise.nil⟩
  unfold Document.shadowIssueAt? shadowIssuesOf
  cases hcatch : route.catchAll with
  | none => exact ⟨[], hnothing, rfl⟩
  | some catchAll =>
    cases hnodes : d.sectionPatterns? route.target with
    | none => exact ⟨[], hnothing, rfl⟩
    | some nodes =>
      simp only [Option.bind_some, behind_eq_drop]
      cases hfirst : anchorAt? (some catchAll) nodes with
      | none => exact ⟨[], hnothing, rfl⟩
      | some first =>
        obtain ⟨entries, hentries, hown⟩ := exists_listing_after? first nodes
        refine ⟨_, hentries.filterMap (shadowIssue? t route.target catchAll), ?_⟩
        rw [filter_filterMap_listing (fun way => way.length = 1), map_snd_filterMap, hown]
        exact List.map_filterMap.symm

/-- Leaving out entries changes the issues of all routes together, unless none is left out. -/
theorem flatMap_filter_eq_iff {routes : List Route} {p : List Nat × Issue → Bool}
    {listed : Route → List (List Nat × Issue)} :
    routes.flatMap (fun route => ((listed route).filter p).map Prod.snd) =
      routes.flatMap (fun route => (listed route).map Prod.snd) ↔
    ∀ route ∈ routes, ∀ e ∈ listed route, p e = true := by
  have hall : (∀ route ∈ routes, ∀ e ∈ listed route, p e = true) ↔
      ∀ e ∈ routes.flatMap listed, p e = true := by
    simp only [List.mem_flatMap]
    constructor
    · rintro h e ⟨route, hroute, he⟩
      exact h route hroute e he
    · intro h route hroute e he
      exact h e ⟨route, hroute, he⟩
  rw [hall, ← List.map_flatMap, ← List.map_flatMap, ← List.filter_flatMap]
  constructor
  · intro h
    have hlength := congrArg List.length h
    rw [List.length_map, List.length_map] at hlength
    exact List.length_filter_eq_length_iff.mp hlength
  · intro h
    rw [List.filter_eq_self.mpr h]

end Lint

/-- **The checks report the section's own shadowed patterns.** The shadowed patterns of every route's
section can be listed in document order. Of these the checks report the ones that stand in the
section's own sequence, route by route and each once. They report all of them just if no shadowed
pattern is nested in another node, and none just if no shadowed pattern is the section's own. -/
theorem shadowed_own_patterns_are_reported (d : Document) (t : ScopeTable) (wanted : String) :
    ∃ shadowed : Route → List (List Nat × Issue),
      (∀ route, ((shadowed route).map Prod.fst).Pairwise (· < ·) ∧
        ∀ way issue, (way, issue) ∈ shadowed route ↔ d.ShadowedAt t route way issue) ∧
      (lint d t wanted).filter (·.isShadowed) =
        t.routes.flatMap (fun route =>
          ((shadowed route).filter (·.1.length = 1)).map Prod.snd) ∧
      ((lint d t wanted).filter (·.isShadowed) =
          t.routes.flatMap (fun route => (shadowed route).map Prod.snd) ↔
        ∀ route ∈ t.routes, ∀ way issue, d.ShadowedAt t route way issue → way.length = 1) ∧
      ((lint d t wanted).filter (·.isShadowed) = [] ↔
        ∀ route ∈ t.routes, ∀ way issue, d.ShadowedAt t route way issue → way.length ≠ 1) := by
  choose shadowed hlisting hown using Lint.exists_listing_shadowIssueAt? d t
  have hmem : ∀ route way issue, (way, issue) ∈ shadowed route ↔
      d.ShadowedAt t route way issue := by
    intro route way issue
    rw [(hlisting route).mem_iff, Lint.shadowIssueAt?_eq_some]
  have hreport : (lint d t wanted).filter (·.isShadowed) = t.routes.flatMap fun route =>
      ((shadowed route).filter (·.1.length = 1)).map Prod.snd := by
    rw [(Lint.filter_lint d t wanted).2, Lint.shadowIssues]
    exact List.flatMap_congr fun route _ => (hown route).symm
  refine ⟨shadowed, fun route => ⟨(hlisting route).increasing, hmem route⟩, hreport, ?_, ?_⟩
  · rw [hreport, Lint.flatMap_filter_eq_iff]
    simp only [Prod.forall, hmem, decide_eq_true_eq]
  · rw [hreport]
    simp only [List.flatMap_eq_nil_iff, List.map_eq_nil_iff, List.filter_eq_nil_iff, Prod.forall,
      hmem, decide_eq_true_eq]

/-- A section of variables with a pattern of the table nested in a node behind the catch-all. -/
def nestedGrammar : Document where
  scopeName := "source.hew"
  patterns := []
  repository := [("variables", ⟨none, none, none, some [
    .generated "" "variable.other.hew" "word",
    ⟨none, none, none, some [.generated "" "variable.language.contextual.hew" "ready"],
      [], ["patterns"]⟩], [], ["patterns"]⟩)]
  rest := []
  order := ["scopeName", "patterns", "repository"]

/-- A shadowed pattern that is nested in another node is not reported. -/
theorem nested_shadowed_pattern_escapes : ¬ ∀ route ∈ ScopeTable.hew.routes, ∀ way issue,
    nestedGrammar.ShadowedAt .hew route way issue →
      issue ∈ lint nestedGrammar .hew "source.hew" := by
  intro h
  have hroute : ⟨"variable.language.", "variables", some "variable.other.hew"⟩ ∈
      ScopeTable.hew.routes := by
    decide
  have hshadowed : nestedGrammar.ShadowedAt .hew
      ⟨"variable.language.", "variables", some "variable.other.hew"⟩ [1, 0]
      (.shadowedByCatchAll "variables" "variable.language.contextual.hew" "variable.other.hew") :=
    ⟨_, _, 0, _, _, rfl, rfl, rfl, by decide, rfl, rfl, by decide, rfl⟩
  have hnone : lint nestedGrammar .hew "source.hew" = [] := by
    decide +kernel
  have hreported := h _ hroute _ _ hshadowed
  rw [hnone] at hreported
  exact List.not_mem_nil hreported

end GrammarSync
