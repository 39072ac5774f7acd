/-
# Running again

What a run adds and skips depends on names, so a second run, with whatever
taxonomy, finds every scope either with a managed node or without an open
section: it adds nothing (`runAdditions_synchronize`) and skips what the
first one skipped (`runSkips_synchronize`). It refreshes the additions of the
first run to what it would have added itself, so nothing remains of the first
taxonomy (`synchronize_synchronize`), and refreshing what is refreshed
changes nothing (`refreshChanges_synchronize`).

Key theorems: `runAdditions_synchronize`, `runSkips_synchronize`,
`synchronize_synchronize`, `refreshChanges_synchronize`,
`rerun_forgets_first_taxonomy`.
-/
import GrammarSync.Proofs.Run
import Mathlib.Data.List.Basic

namespace GrammarSync

variable (t : ScopeTable)

/-! ### Refreshing again -/

theorem Document.refresh_refresh (first second : Taxonomy) (d : Document) :
    (d.refresh (t.groups first)).refresh (t.groups second) = d.refresh (t.groups second) := by
  have hnodes : Node.refreshAll (t.groups second) ∘ Node.refreshAll (t.groups first) =
      Node.refreshAll (t.groups second) :=
    funext (Node.refreshAll_refreshAll t first second)
  have hrepository : ((d.refresh (t.groups first)).refresh (t.groups second)).repository =
      (d.refresh (t.groups second)).repository := by
    rw [repository_refresh, repository_refresh, repository_refresh, List.map_map]
    refine List.map_congr_left fun e _ => ?_
    rw [Function.comp_apply, Node.mapChildren_mapChildren, hnodes]
  have hpatterns : ((d.refresh (t.groups first)).refresh (t.groups second)).patterns =
      (d.refresh (t.groups second)).patterns :=
    Node.refreshAll_refreshAll t first second d.patterns
  exact Document.ext rfl hpatterns hrepository rfl rfl

/-- A refreshed node is not changed again. -/
theorem refreshChange?_refresh (taxonomy : Taxonomy) (path : String) (n : Node) :
    refreshChange? (t.groups taxonomy) path (n.refresh (t.groups taxonomy)) = none := by
  unfold refreshChange?
  rw [managing?_groups, t.manager?_refresh, Node.refresh_regex, refreshedRegex_groups]
  cases t.manager? n with
  | none => rfl
  | some r => exact if_pos rfl

theorem Document.refreshChanges_refresh (taxonomy : Taxonomy) (d : Document) :
    (d.refresh (t.groups taxonomy)).refreshChanges (t.groups taxonomy) = [] := by
  rw [refreshChanges_eq, walk_refresh, List.filterMap_map, List.filterMap_eq_nil_iff]
  exact fun w _ => refreshChange?_refresh t taxonomy w.1 w.2

/-! ### Additions and skipped scopes of a second run -/

/-- A second run adds nothing. -/
theorem runAdditions_synchronize (taxonomy : Taxonomy) (d : Document) :
    t.runAdditions (synchronize t taxonomy d).1 = [] := by
  refine List.eq_nil_iff_forall_not_mem.mpr fun a ha => ?_
  obtain ⟨hrule, hman, hopen⟩ := t.mem_runAdditions.mp ha
  have hsections := isSome_sectionPatterns?_synchronize t taxonomy d
  rw [t.openTarget?_congr hsections] at hopen
  rcases manages_or_openTarget?_none t taxonomy d (t.mem_of_rule? hrule) with h | h
  · rw [h] at hman
    cases hman
  · rw [h] at hopen
    cases hopen

/-- A second run skips what the first one skipped. -/
theorem runSkips_synchronize (taxonomy : Taxonomy) (d : Document) :
    t.runSkips (synchronize t taxonomy d).1 = t.runSkips d := by
  have hsections := isSome_sectionPatterns?_synchronize t taxonomy d
  refine List.filterMap_congr fun r _ => ?_
  rw [t.closedTarget?_congr hsections]
  cases hclosed : t.closedTarget? d r.scope with
  | none => simp
  | some name => rw [manages_synchronize_of_closed t taxonomy hclosed]

/-! ### The grammar after a second run -/

/-- Refreshing after a run is what a run with the other taxonomy gives. -/
theorem refresh_synchronize (first second : Taxonomy) (d : Document) :
    (synchronize t first d).1.refresh (t.groups second) = (synchronize t second d).1 := by
  rw [document_synchronize, document_synchronize, Document.refresh_addAll, Document.refresh_refresh]
  exact fun a ha => (t.mem_runAdditions.mp ha).1

/-- Of two runs only the second taxonomy counts. -/
theorem synchronize_synchronize (first second : Taxonomy) (d : Document) :
    (synchronize t second (synchronize t first d).1).1 = (synchronize t second d).1 := by
  rw [document_synchronize t second (synchronize t first d).1, runAdditions_synchronize]
  exact refresh_synchronize t first second d

/-- What a run leaves is refreshed. -/
theorem refreshChanges_synchronize (taxonomy : Taxonomy) (d : Document) :
    (synchronize t taxonomy d).1.refreshChanges (t.groups taxonomy) = [] := by
  rw [← refresh_synchronize t taxonomy taxonomy d]
  exact Document.refreshChanges_refresh t taxonomy _

/-- **The first of two runs leaves no trace.** Running with one taxonomy and then with another
gives the grammar, the skipped scopes and the coverage of the second alone. The second run adds no
pattern, and with the same taxonomy it changes nothing. -/
theorem rerun_forgets_first_taxonomy (first second : Taxonomy) (d : Document) :
    (synchronize t second (synchronize t first d).1).1 = (synchronize t second d).1 ∧
    (synchronize t second (synchronize t first d).1).2.skipped =
      (synchronize t second d).2.skipped ∧
    (synchronize t second (synchronize t first d).1).2.coverage =
      (synchronize t second d).2.coverage ∧
    (synchronize t second (synchronize t first d).1).2.changes.filter Change.isAdded = [] ∧
    (synchronize t second (synchronize t second d).1).2.changes = [] := by
  refine ⟨synchronize_synchronize t first second d, ?_, ?_, ?_, ?_⟩
  · rw [skipped_synchronize, skipped_synchronize, runSkips_synchronize]
  · rw [coverage_synchronize, coverage_synchronize]
  · rw [filter_isAdded_changes, runAdditions_synchronize, List.map_nil]
  · rw [changes_synchronize, refreshChanges_synchronize, runAdditions_synchronize]
    rfl

end GrammarSync
