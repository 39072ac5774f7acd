/-
# The log as an account

The log of a run is read off the grammar before it: an update for every node
of the walk whose expression is not that of its scope's first rule, in walk
order, and then a record for every addition, in rule order
(`changes_eq_walk`). Nothing that a run does is missing from it: without the
additions, and with the previous expressions of its updates put back in order,
each at the way of its node, the grammar is what it was
(`Document.foldlM_putBack?_refresh`), and a run with an empty log changes nothing
(`changes_eq_nil_iff`).

The ways are needed. An update names a scope and a sequence, and a sequence
can have a stale and a fresh pattern of one scope: from the grammar after a
run and its log alone the grammar before it cannot be told
(`not_exists_restore`).

Key definitions: `ScopeTable.dueChange?`.
Key theorems: `changes_eq_walk`, `changes_eq_nil_iff`, `log_accounts_for_run`,
`not_exists_restore`.
-/
import GrammarSync.Proofs.PutBack
import GrammarSync.Proofs.Rerun

namespace GrammarSync

/-! ### Due changes -/

/-- The change that is due at a node of the walk: its name is a scope with a rule, and its
expression is not the one of the scope's first rule. -/
def ScopeTable.dueChange? (t : ScopeTable) (taxonomy : Taxonomy) (w : String × Node) :
    Option Change := do
  let scope ← w.2.name
  let current ← w.2.regex
  let r ← t.rule? scope
  if current = wordAlternation (r.words taxonomy) then none
  else some (.updated scope w.1 current (wordAlternation (r.words taxonomy)))

variable (t : ScopeTable) (taxonomy : Taxonomy)

/-- Refreshing makes the changes that are due. -/
theorem refreshChange?_groups (w : String × Node) :
    refreshChange? (t.groups taxonomy) w.1 w.2 = t.dueChange? taxonomy w := by
  unfold refreshChange? ScopeTable.dueChange?
  rw [managing?_groups, ScopeTable.manager?]
  cases w.2.name with
  | none => rfl
  | some scope =>
    cases w.2.regex with
    | none => rfl
    | some current =>
      cases hr : t.rule? scope with
      | none => simp [hr]
      | some r =>
        have hscope : (r.group taxonomy).scope = scope := t.rule?_scope hr
        have hregex : (r.group taxonomy).regex = wordAlternation (r.words taxonomy) := rfl
        simp [hr, hscope, hregex]

/-- The log: the due changes of the walk and then the additions. -/
theorem changes_eq_walk (d : Document) : (synchronize t taxonomy d).2.changes =
    d.walk.filterMap (t.dueChange? taxonomy) ++
      (t.runAdditions d).map (Addition.change taxonomy) := by
  rw [changes_synchronize, Document.refreshChanges_eq, funext (refreshChange?_groups t taxonomy)]

/-! ### Putting back -/

/-- The changes of a refreshing are the due changes of the walk, in document order. -/
theorem listing_changesAt (d : Document) :
    Listing (fun way => (d.walked? way).bind (t.dueChange? taxonomy))
      (d.changesAt (t.groups taxonomy)) := by
  have hchanges : d.changesAt (t.groups taxonomy) =
      d.places.filterMap fun p => (t.dueChange? taxonomy p.2).map (p.1, ·) := by
    simp only [Document.changesAt, refreshChange?_groups]
  rw [hchanges]
  exact d.listing_places.filterMap (t.dueChange? taxonomy)

/-- The ways of the changes and the updates of the log make up the changes. -/
theorem zip_updates (d : Document) :
    ((d.changesAt (t.groups taxonomy)).map Prod.fst).zip
      ((synchronize t taxonomy d).2.changes.filter Change.isUpdated) =
        d.changesAt (t.groups taxonomy) := by
  rw [filter_isUpdated_changes, ← Document.map_snd_changesAt]
  exact (List.zip_of_prod rfl rfl).symm

/-! ### The empty log -/

/-- A grammar without due changes stays as it is when refreshed. -/
theorem Document.refresh_eq_self {groups : List ScopeGroup} {d : Document}
    (h : d.refreshChanges groups = []) : d.refresh groups = d := by
  have hback := Document.foldlM_putBack?_refresh groups d
  rw [← map_snd_changesAt, List.map_eq_nil_iff] at h
  rw [h] at hback
  exact Option.some.inj hback

/-- The log is empty if and only if nothing changes. -/
theorem changes_eq_nil_iff (d : Document) :
    (synchronize t taxonomy d).2.changes = [] ↔ (synchronize t taxonomy d).1 = d := by
  constructor
  · intro h
    rw [changes_synchronize, List.append_eq_nil_iff, List.map_eq_nil_iff] at h
    rw [document_synchronize, h.2]
    exact Document.refresh_eq_self h.1
  · intro h
    have hchanges := refreshChanges_synchronize t taxonomy d
    have hadds := runAdditions_synchronize t taxonomy d
    rw [h] at hchanges hadds
    rw [changes_synchronize, hchanges, hadds]
    rfl

/-- **The log accounts for the run.** It has the due changes of the walk in order, and then one
record for each addition, in rule order and with the routed section. Its updates are those of the
nodes that have a due change, one at the way of each in document order. Without the additions, which
are on the walk besides the nodes that were there, and with the previous expressions of the updates
put back one after the other, each at its way, the grammar is what it was; and the log is empty if
and only if the run leaves the grammar alone. The ways are not in the log: it does not say which of
two nodes of a sequence and a scope an update is about. -/
theorem log_accounts_for_run (d : Document) :
    (synchronize t taxonomy d).2.changes = d.walk.filterMap (t.dueChange? taxonomy) ++
      (t.runAdditions d).map (Addition.change taxonomy) ∧
    ((t.runAdditions d).map (·.rule)).Sublist t.rules ∧
    (∀ a ∈ t.runAdditions d, (t.route? a.rule.scope).map (·.target) = some a.target) ∧
    (∃ ways e,
      ways.length = ((synchronize t taxonomy d).2.changes.filter Change.isUpdated).length ∧
      Listing (fun way => (d.walked? way).bind (t.dueChange? taxonomy))
        (ways.zip ((synchronize t taxonomy d).2.changes.filter Change.isUpdated)) ∧
      (synchronize t taxonomy d).1.takeOutAll? (synchronize t taxonomy d).2.changes = some e ∧
      (synchronize t taxonomy d).1.walk.Perm
        ((t.runAdditions d).map (fun a => (sectionLabel a.target, a.node taxonomy)) ++ e.walk) ∧
      e.putBackAll? ways (synchronize t taxonomy d).2.changes = some d) ∧
    ((synchronize t taxonomy d).2.changes = [] ↔ (synchronize t taxonomy d).1 = d) := by
  refine ⟨changes_eq_walk t taxonomy d, ?_, ?_, ?_, changes_eq_nil_iff t taxonomy d⟩
  · exact (ScopeTable.rules_additions_sublist t.rules).trans (firstRules_sublist t.rules)
  · intro a ha
    exact (t.openTarget?_eq_some.mp (t.mem_runAdditions.mp ha).2.2).1
  · refine ⟨(d.changesAt (t.groups taxonomy)).map Prod.fst, d.refresh (t.groups taxonomy), ?_, ?_,
      takeOutAll?_synchronize t taxonomy d, ?_, ?_⟩
    · rw [filter_isUpdated_changes, ← Document.map_snd_changesAt, List.length_map, List.length_map]
    · rw [zip_updates]
      exact listing_changesAt t taxonomy d
    · rw [Document.walk_refresh]
      exact walk_synchronize t taxonomy d
    · rw [Document.putBackAll?, zip_updates]
      exact Document.foldlM_putBack?_refresh (t.groups taxonomy) d

open Sample in
/-- A stale pattern at some depth and a missing one: an update and then an addition, and the update
is put back at the way of the stale pattern. -/
theorem sample_log_accounts_for_run :
    (synchronize table vocabulary document).2.changes =
      [.updated "keyword.if" "patterns" "old" "\\b(if)\\b",
        .added "keyword.else" "repository.keywords" "\\b(else)\\b"] ∧
    (∃ a ∈ table.runAdditions document,
      (table.route? a.rule.scope).map (·.target) = some a.target) ∧
    ∃ e, (synchronize table vocabulary document).1.takeOutAll?
        (synchronize table vocabulary document).2.changes = some e ∧
      e.putBackAll? [[0, 0, 0]] (synchronize table vocabulary document).2.changes =
        some document := by
  obtain ⟨hlog, -, hroutes, ⟨ways, e, hlength, hlisting, he, -, hback⟩, -⟩ :=
    log_accounts_for_run table vocabulary document
  have hchanges := hlog.trans (by decide : _ =
    [.updated "keyword.if" "patterns" "old" "\\b(if)\\b",
      .added "keyword.else" "repository.keywords" "\\b(else)\\b"])
  have ha : ⟨⟨"keyword.else", .keyword, [], ["else"], [], none⟩, "keywords"⟩ ∈
      table.runAdditions document := List.mem_singleton.mpr rfl
  refine ⟨hchanges, ⟨_, ha, hroutes _ ha⟩, e, he, ?_⟩
  -- the log has one update, and the stale pattern is due at its way
  rw [hchanges] at hlength hlisting
  obtain ⟨way, rfl⟩ := List.length_eq_one_iff.mp hlength
  have hmem := (hlisting.mem_iff [0, 0, 0]
    (.updated "keyword.if" "patterns" "old" "\\b(if)\\b")).mpr (by decide)
  have hway : [0, 0, 0] = way := congrArg Prod.fst (List.mem_singleton.mp hmem)
  rw [hway]
  exact hback

/-! ### What the log leaves open -/

/-- The sample with two patterns of one scope in its top sequence. -/
def Sample.pair (first second : String) : Document where
  scopeName := "source.sample"
  patterns := [.generated "" "keyword.if" first, .generated "" "keyword.if" second]
  repository := []
  rest := []
  order := ["scopeName", "patterns", "repository"]

/-- No function restores every grammar from what a run makes of it and from the log: of two patterns
of one scope in one sequence, the first or the second can have been the stale one. -/
theorem not_exists_restore : ¬ ∃ restore : Document → ChangeLog → Document, ∀ t taxonomy d,
    restore (synchronize t taxonomy d).1 (synchronize t taxonomy d).2.changes = d := by
  rintro ⟨restore, hrestore⟩
  have hfirst := hrestore Sample.table Sample.vocabulary (Sample.pair "old" "\\b(if)\\b")
  have hsecond := hrestore Sample.table Sample.vocabulary (Sample.pair "\\b(if)\\b" "old")
  have hsame : synchronize Sample.table Sample.vocabulary (Sample.pair "old" "\\b(if)\\b") =
      synchronize Sample.table Sample.vocabulary (Sample.pair "\\b(if)\\b" "old") := by
    rfl
  rw [hsame, hsecond] at hfirst
  have hregexes := congrArg (fun d => d.patterns.map (·.regex)) hfirst
  exact absurd hregexes (by decide)

end GrammarSync
