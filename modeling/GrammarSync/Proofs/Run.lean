/-
# A run

A run is a refreshing followed by its additions (`synchronize_eq`). It leaves
every node of the walk as it was but for expressions, has every addition on
the walk besides (`walk_synchronize`), and opens and closes no section
(`isSome_sectionPatterns?_synchronize`). So the scopes with a managed node
afterwards are those with one before and those of the additions
(`manages_synchronize`).

Key definitions: `ScopeTable.runAdditions`, `ScopeTable.runSkips`,
`Sample.table`, `Sample.document`.
Key theorems: `synchronize_eq`, `walk_synchronize`, `manages_synchronize`,
`isSome_sectionPatterns?_synchronize`.
-/
import GrammarSync.Proofs.Additions
import GrammarSync.Proofs.OneWalk
import GrammarSync.Sync.Run
import Mathlib.Data.List.Basic

namespace GrammarSync

variable (t : ScopeTable) (taxonomy : Taxonomy)

namespace ScopeTable

/-- The patterns that a run adds to a grammar. -/
def runAdditions (d : Document) : List Addition :=
  t.additions d d.manages t.rules

/-- The scopes that a run skips. -/
def runSkips (d : Document) : List Skipped :=
  t.skips d d.manages t.rules

theorem mem_runAdditions {d : Document} {a : Addition} :
    a ∈ t.runAdditions d ↔ t.rule? a.rule.scope = some a.rule ∧ d.manages a.rule.scope = false ∧
      t.openTarget? d a.rule.scope = some a.target :=
  mem_additions

theorem isSome_of_mem_runAdditions {d : Document} {a : Addition} (h : a ∈ t.runAdditions d) :
    (d.sectionPatterns? a.target).isSome :=
  (t.openTarget?_eq_some.mp (t.mem_runAdditions.mp h).2.2).2

theorem isSome_rule? {r : Rule} (h : r ∈ t.rules) : (t.rule? r.scope).isSome := by
  rw [rule?, List.find?_isSome]
  exact ⟨r, h, by simp⟩

theorem rule?_scope {scope : String} {r : Rule} (h : t.rule? scope = some r) : r.scope = scope := by
  simpa using List.find?_some h

theorem mem_of_rule? {scope : String} {r : Rule} (h : t.rule? scope = some r) : r ∈ t.rules :=
  List.mem_of_find?_eq_some h

/-- The scopes of the table that are added: those without a managed node and with an open
section. -/
theorem mem_scopes_runAdditions {d : Document} {r : Rule} (hr : r ∈ t.rules) :
    r.scope ∈ (t.runAdditions d).map (·.rule.scope) ↔
      d.manages r.scope = false ∧ (t.openTarget? d r.scope).isSome := by
  rw [runAdditions, mem_scopes_additions]
  exact and_iff_right ⟨r, hr, rfl⟩

theorem nodup_runAdditions (d : Document) : ((t.runAdditions d).map (·.rule.scope)).Nodup :=
  nodup_additions t.rules

/-- A scope is skipped if a rule has it, it has no managed node and its section is closed. -/
theorem mem_runSkips {d : Document} {s : Skipped} : s ∈ t.runSkips d ↔
    (∃ r ∈ t.rules, r.scope = s.scope) ∧ d.manages s.scope = false ∧
      t.closedTarget? d s.scope = some s.target := by
  rw [runSkips, skips, List.mem_filterMap]
  constructor
  · rintro ⟨r, hr, hs⟩
    split at hs
    · cases hs
    · rename_i hman
      obtain ⟨name, hname, rfl⟩ := Option.map_eq_some_iff.mp hs
      exact ⟨⟨r, hr, rfl⟩, by simpa using hman, hname⟩
  · rintro ⟨⟨r, hr, hscope⟩, hman, hclosed⟩
    refine ⟨r, hr, ?_⟩
    rw [hscope, hman, hclosed]
    rfl

end ScopeTable

/-- A run inserts what is missing in the refreshed grammar. -/
theorem synchronize_eq_insertMissing (d : Document) : (synchronize t taxonomy d).1 =
    (insertMissing t (t.groups taxonomy) (d.managedScopes (t.groups taxonomy))
      (d.refresh (t.groups taxonomy))).document := by
  rw [synchronize, Document.update_eq]

/-- A run refreshes a grammar and then makes its additions. -/
theorem synchronize_eq (d : Document) : synchronize t taxonomy d =
    ((d.refresh (t.groups taxonomy)).addAll t taxonomy (t.runAdditions d),
      { changes := d.refreshChanges (t.groups taxonomy) ++
          (t.runAdditions d).map (Addition.change taxonomy)
        skipped := t.runSkips d
        coverage := Coverage.verify taxonomy (t.groups taxonomy) }) := by
  have hsections := Document.isSome_sectionPatterns?_refresh (t.groups taxonomy) d
  have hhas : ∀ r ∈ t.rules,
      (d.managedScopes (t.groups taxonomy)).has r.scope = d.manages r.scope := by
    intro r hr
    rw [WordSet.has, Bool.eq_iff_iff, decide_eq_true_iff, Document.mem_managedScopes]
    exact ⟨fun h => h.2, fun h => ⟨t.isSome_rule? hr, h⟩⟩
  have hadds := ScopeTable.additions_congr (t := t) hsections hhas
  have hskips := ScopeTable.skips_congr (t := t) hsections hhas
  rw [synchronize, Document.update_eq]
  dsimp only
  rw [insertMissing, ScopeTable.groups, foldl_insertGroup, ← ScopeTable.groups]
  simp only [hadds, hskips, List.nil_append]
  rfl

theorem document_synchronize (d : Document) : (synchronize t taxonomy d).1 =
    (d.refresh (t.groups taxonomy)).addAll t taxonomy (t.runAdditions d) := by
  rw [synchronize_eq]

theorem changes_synchronize (d : Document) : (synchronize t taxonomy d).2.changes =
    d.refreshChanges (t.groups taxonomy) ++
      (t.runAdditions d).map (Addition.change taxonomy) := by
  rw [synchronize_eq]

theorem skipped_synchronize (d : Document) :
    (synchronize t taxonomy d).2.skipped = t.runSkips d := by
  rw [synchronize_eq]

theorem coverage_synchronize (d : Document) :
    (synchronize t taxonomy d).2.coverage = Coverage.verify taxonomy (t.groups taxonomy) := by
  rw [synchronize_eq]

/-- The log has the updates first and then the additions. -/
theorem filter_isAdded_changes (d : Document) :
    (synchronize t taxonomy d).2.changes.filter Change.isAdded =
      (t.runAdditions d).map (Addition.change taxonomy) := by
  have hupdates : (d.refreshChanges (t.groups taxonomy)).filter Change.isAdded = [] := by
    rw [List.filter_eq_nil_iff]
    intro c hc
    rw [Change.isAdded, Document.isUpdated_of_mem_refreshChanges hc]
    exact Bool.false_ne_true
  have hadds : ((t.runAdditions d).map (Addition.change taxonomy)).filter Change.isAdded =
      (t.runAdditions d).map (Addition.change taxonomy) := by
    rw [List.filter_eq_self]
    intro c hc
    obtain ⟨a, -, rfl⟩ := List.mem_map.mp hc
    rfl
  rw [changes_synchronize, List.filter_append, hupdates, hadds, List.nil_append]

/-- Without its additions the log has the updates. -/
theorem filter_isUpdated_changes (d : Document) :
    (synchronize t taxonomy d).2.changes.filter Change.isUpdated =
      d.refreshChanges (t.groups taxonomy) := by
  have hupdates : (d.refreshChanges (t.groups taxonomy)).filter Change.isUpdated =
      d.refreshChanges (t.groups taxonomy) := by
    rw [List.filter_eq_self]
    intro c hc
    exact Document.isUpdated_of_mem_refreshChanges hc
  have hadds : ((t.runAdditions d).map (Addition.change taxonomy)).filter Change.isUpdated =
      [] := by
    rw [List.filter_eq_nil_iff]
    intro c hc
    obtain ⟨a, -, rfl⟩ := List.mem_map.mp hc
    exact Bool.false_ne_true
  rw [changes_synchronize, List.filter_append, hupdates, hadds, List.append_nil]

/-! ### What a run leaves -/

theorem isSome_sectionPatterns?_synchronize (d : Document) (name : String) :
    ((synchronize t taxonomy d).1.sectionPatterns? name).isSome =
      (d.sectionPatterns? name).isSome := by
  rw [document_synchronize, Document.isSome_sectionPatterns?_addAll,
    Document.isSome_sectionPatterns?_refresh]

/-- The walk after a run: the refreshed nodes of the walk before it, and the additions. -/
theorem walk_synchronize (d : Document) : (synchronize t taxonomy d).1.walk.Perm
    ((t.runAdditions d).map (fun a => (sectionLabel a.target, a.node taxonomy)) ++
      d.walk.map fun w => (w.1, w.2.refresh (t.groups taxonomy))) := by
  rw [document_synchronize, ← Document.walk_refresh]
  refine Document.walk_addAll t taxonomy _ _ fun a ha => ?_
  rw [Document.isSome_sectionPatterns?_refresh]
  exact t.isSome_of_mem_runAdditions ha

/-- Refreshing keeps the scopes for which a node is managed. -/
theorem managedFor_refresh (scope : String) (n : Node) :
    (n.refresh (t.groups taxonomy)).managedFor scope = n.managedFor scope := by
  rw [Node.managedFor, Node.managedFor, Node.refresh_name, Node.refresh_regex,
    isSome_refreshedRegex]

theorem manages_refresh (d : Document) (scope : String) :
    (d.refresh (t.groups taxonomy)).manages scope = d.manages scope := by
  rw [Document.manages, Document.walk_refresh, List.any_map, Document.manages]
  congr 1
  funext w
  exact managedFor_refresh t taxonomy scope w.2

/-- An addition is managed for its rule's scope only. -/
theorem managedFor_node (scope : String) (a : Addition) :
    (a.node taxonomy).managedFor scope = decide (a.rule.scope = scope) := by
  simp [Node.managedFor, Addition.node, ScopeGroup.pattern, Node.generated, Rule.group]

/-- After a run a scope has a managed node if it had one before or was added. -/
theorem manages_synchronize (d : Document) (scope : String) :
    (synchronize t taxonomy d).1.manages scope ↔
      d.manages scope ∨ ∃ a ∈ t.runAdditions d, a.rule.scope = scope := by
  rw [Document.manages_iff, Document.manages_iff]
  constructor
  · rintro ⟨w, hw, hman⟩
    rcases List.mem_append.mp ((walk_synchronize t taxonomy d).mem_iff.mp hw) with hw | hw
    · obtain ⟨a, ha, rfl⟩ := List.mem_map.mp hw
      rw [managedFor_node, decide_eq_true_iff] at hman
      exact .inr ⟨a, ha, hman⟩
    · obtain ⟨v, hv, rfl⟩ := List.mem_map.mp hw
      rw [managedFor_refresh] at hman
      exact .inl ⟨v, hv, hman⟩
  · rintro (⟨v, hv, hman⟩ | ⟨a, ha, hscope⟩)
    · refine ⟨(v.1, v.2.refresh (t.groups taxonomy)), ?_, ?_⟩
      · exact (walk_synchronize t taxonomy d).mem_iff.mpr
          (List.mem_append_right _ (List.mem_map.mpr ⟨v, hv, rfl⟩))
      · rw [managedFor_refresh]
        exact hman
    · refine ⟨(sectionLabel a.target, a.node taxonomy), ?_, ?_⟩
      · exact (walk_synchronize t taxonomy d).mem_iff.mpr
          (List.mem_append_left _ (List.mem_map.mpr ⟨a, ha, rfl⟩))
      · rw [managedFor_node]
        exact decide_eq_true hscope

/-- A scope whose section is closed is not added. -/
theorem manages_synchronize_of_closed {d : Document} {scope name : String}
    (h : t.closedTarget? d scope = some name) :
    (synchronize t taxonomy d).1.manages scope = d.manages scope := by
  rw [Bool.eq_iff_iff, manages_synchronize]
  refine or_iff_left ?_
  rintro ⟨a, ha, hscope⟩
  obtain ⟨-, -, hopen⟩ := t.mem_runAdditions.mp ha
  rw [hscope] at hopen
  rw [t.closedTarget?_of_open hopen] at h
  cases h

/-- After a run every scope of the table has a managed node or no open section. -/
theorem manages_or_openTarget?_none (d : Document) {r : Rule} (hr : r ∈ t.rules) :
    (synchronize t taxonomy d).1.manages r.scope = true ∨ t.openTarget? d r.scope = none := by
  rw [manages_synchronize]
  cases hman : d.manages r.scope with
  | true => exact .inl (.inl rfl)
  | false =>
    cases hopen : t.openTarget? d r.scope with
    | none => exact .inr rfl
    | some name =>
      have hadded := (t.mem_scopes_runAdditions hr).mpr ⟨hman, by rw [hopen]; rfl⟩
      exact .inl (.inr (List.mem_map.mp hadded))

/-! ### A small run -/

namespace Sample

/-- Two scopes with an open section, one with a missing section, and one without a route. -/
def table : ScopeTable where
  rules := [⟨"keyword.if", .keyword, ["control"], [], [], none⟩,
    ⟨"keyword.else", .keyword, [], ["else"], [], none⟩,
    ⟨"storage.int", .typeName, [], ["int"], [], none⟩,
    ⟨"entity.main", .contextual, [], ["main"], [], none⟩]
  routes := [⟨"keyword", "keywords", some "keyword.other"⟩, ⟨"storage", "types", none⟩]

/-- One category of one word. -/
def vocabulary : Taxonomy where
  version := .text "1"
  keywords := ⟨[("control", ["if"])], List.pairwise_singleton _ _⟩
  types := ⟨[], .nil⟩
  contextual := ⟨[], .nil⟩
  allKeywords := ["if"]

/-- A stale pattern nested in the top sequence, and a section with a catch-all. -/
def document : Document where
  scopeName := "source.sample"
  patterns := [⟨none, none, none, some [.generated "" "keyword.if" "old"], [], ["patterns"]⟩]
  repository := [("keywords",
    ⟨none, none, none, some [.generated "" "keyword.other" "word"], [], ["patterns"]⟩)]
  rest := []
  order := ["scopeName", "patterns", "repository"]

end Sample
end GrammarSync
