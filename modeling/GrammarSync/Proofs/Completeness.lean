/-
# Completeness of a run

A run serves every scope of its table. All nodes managed for the scope carry
the expression of the scope's first rule. Their number is what it was, unless
it was zero and the scope's section is open: then it is one, and the node is
in that section itself (`managedCount_synchronize`, `direct_synchronize`). A
scope without a managed node is skipped if it has a route and left out if it
has none (`accounted_synchronize`).

Key definitions: `Document.managedCount`, `ScopeTable.LeftOut`,
`ScopeTable.Unrouted`, `ScopeTable.Complete`.
Key theorems: `regex_of_mem_walk_synchronize`, `accounted_synchronize`,
`managedCount_synchronize`, `direct_synchronize`, `run_is_complete`.
-/
import GrammarSync.Proofs.Run

namespace GrammarSync

/-- The number of nodes of the walk that are managed for a scope. -/
def Document.managedCount (d : Document) (scope : String) : Nat :=
  d.walk.countP (·.2.managedFor scope)

/-- One of three statements holds and the others do not. -/
def ExactlyOne (p q r : Prop) : Prop :=
  (p ∧ ¬ q ∧ ¬ r) ∨ (¬ p ∧ q ∧ ¬ r) ∨ (¬ p ∧ ¬ q ∧ r)

namespace ScopeTable

/-- A scope is skipped, for the section of its route, which is missing or has no patterns. -/
def LeftOut (t : ScopeTable) (e : Document) (skipped : List Skipped) (scope : String) : Prop :=
  ∃ route, t.route? scope = some route ∧ ⟨scope, route.target⟩ ∈ skipped ∧
    e.sectionPatterns? route.target = none

/-- A scope has no managed node and no route, and it is not skipped. -/
def Unrouted (t : ScopeTable) (e : Document) (skipped : List Skipped) (scope : String) : Prop :=
  e.manages scope = false ∧ t.route? scope = none ∧ ∀ s ∈ skipped, s.scope ≠ scope

/-- A grammar `d` and what became of it, `e`, with the scopes that were skipped: every scope of the
table is served as far as its route goes. -/
structure Complete (t : ScopeTable) (taxonomy : Taxonomy) (d e : Document)
    (skipped : List Skipped) : Prop where
  /-- Managed nodes carry the words of the first rule of their scope. -/
  regex : ∀ w ∈ e.walk, ∀ scope r, w.2.managedFor scope → t.rule? scope = some r →
    w.2.regex = some (wordAlternation (r.words taxonomy))
  /-- A scope has a managed node, is skipped for want of its section, or has no route. -/
  accounted : ∀ r ∈ t.rules, ExactlyOne (e.manages r.scope = true)
    (t.LeftOut e skipped r.scope) (t.Unrouted e skipped r.scope)
  /-- What is skipped is paired with the section of its route, and with no other. -/
  paired : ∀ s ∈ skipped, (t.route? s.scope).map (·.target) = some s.target ∧
    e.sectionPatterns? s.target = none
  /-- Managed nodes are never doubled and never lost, and one comes if there was none. -/
  counted : ∀ r ∈ t.rules, e.managedCount r.scope =
    if 0 < d.managedCount r.scope then d.managedCount r.scope
    else if (t.openTarget? d r.scope).isSome then 1 else 0
  /-- The one that comes is in the list of the routed section itself. -/
  direct : ∀ r ∈ t.rules, ∀ name, d.managedCount r.scope = 0 → t.openTarget? d r.scope = some name →
    ∃ nodes, e.sectionPatterns? name = some nodes ∧ nodes.countP (·.managedFor r.scope) = 1

end ScopeTable

variable (t : ScopeTable) (taxonomy : Taxonomy)

/-! ### Expressions -/

/-- A managed node of a table's scope is refreshed to the words of the scope's first rule. -/
theorem regex_refresh_of_managedFor {scope : String} {r : Rule} {n : Node}
    (hn : n.managedFor scope) (hr : t.rule? scope = some r) :
    (n.refresh (t.groups taxonomy)).regex = some (wordAlternation (r.words taxonomy)) := by
  obtain ⟨hname, hregex⟩ : n.name = some scope ∧ n.regex.isSome := by
    simpa [Node.managedFor] using hn
  rw [Node.refresh_regex, refreshedRegex_groups, t.manager?_of_name hname hregex, hr]
  rfl

theorem regex_of_mem_walk_synchronize {d : Document} {w : String × Node} {scope : String} {r : Rule}
    (hw : w ∈ (synchronize t taxonomy d).1.walk) (hman : w.2.managedFor scope)
    (hr : t.rule? scope = some r) :
    w.2.regex = some (wordAlternation (r.words taxonomy)) := by
  rcases List.mem_append.mp ((walk_synchronize t taxonomy d).mem_iff.mp hw) with hw | hw
  · obtain ⟨a, ha, rfl⟩ := List.mem_map.mp hw
    rw [managedFor_node, decide_eq_true_iff] at hman
    have hrule := (t.mem_runAdditions.mp ha).1
    rw [hman, hr] at hrule
    rw [Option.some.inj hrule]
    rfl
  · obtain ⟨v, -, rfl⟩ := List.mem_map.mp hw
    rw [managedFor_refresh] at hman
    exact regex_refresh_of_managedFor t taxonomy hman hr

/-! ### Skipped scopes -/

theorem mem_skipped_synchronize {d : Document} {s : Skipped} :
    s ∈ (synchronize t taxonomy d).2.skipped ↔ (∃ r ∈ t.rules, r.scope = s.scope) ∧
      d.manages s.scope = false ∧ t.closedTarget? d s.scope = some s.target := by
  rw [skipped_synchronize, t.mem_runSkips]

/-- A section is closed after a run if it was before. -/
theorem sectionPatterns?_synchronize_eq_none {d : Document} {name : String}
    (h : d.sectionPatterns? name = none) :
    (synchronize t taxonomy d).1.sectionPatterns? name = none := by
  have hsome := isSome_sectionPatterns?_synchronize t taxonomy d name
  rw [h, Option.isSome_none, Option.isSome_eq_false_iff] at hsome
  exact Option.isNone_iff_eq_none.mp hsome

/-- A scope of the table is left out if it has no managed node and a closed section. -/
theorem leftOut_synchronize {d : Document} {r : Rule} (hr : r ∈ t.rules) :
    t.LeftOut (synchronize t taxonomy d).1 (synchronize t taxonomy d).2.skipped r.scope ↔
      d.manages r.scope = false ∧ (t.closedTarget? d r.scope).isSome := by
  constructor
  · rintro ⟨route, -, hmem, -⟩
    obtain ⟨-, hman, hclosed⟩ := (mem_skipped_synchronize t taxonomy).mp hmem
    exact ⟨hman, by rw [hclosed]; rfl⟩
  · rintro ⟨hman, hclosed⟩
    obtain ⟨name, hname⟩ := Option.isSome_iff_exists.mp hclosed
    obtain ⟨htarget, hnone⟩ := t.closedTarget?_eq_some.mp hname
    obtain ⟨route, hroute, rfl⟩ := Option.map_eq_some_iff.mp htarget
    have hmem : ⟨r.scope, route.target⟩ ∈ (synchronize t taxonomy d).2.skipped :=
      (mem_skipped_synchronize t taxonomy).mpr ⟨⟨r, hr, rfl⟩, hman, hname⟩
    exact ⟨route, hroute, hmem, sectionPatterns?_synchronize_eq_none t taxonomy hnone⟩

/-- Every scope of the table is managed, skipped or without a route, and only one of these. -/
theorem accounted_synchronize (d : Document) {r : Rule} (hr : r ∈ t.rules) : ExactlyOne
    ((synchronize t taxonomy d).1.manages r.scope = true)
    (t.LeftOut (synchronize t taxonomy d).1 (synchronize t taxonomy d).2.skipped r.scope)
    (t.Unrouted (synchronize t taxonomy d).1 (synchronize t taxonomy d).2.skipped r.scope) := by
  have hunrouted : (synchronize t taxonomy d).1.manages r.scope = true →
      ¬ t.Unrouted (synchronize t taxonomy d).1 (synchronize t taxonomy d).2.skipped r.scope :=
    fun hman h => Bool.false_ne_true (h.1.symm.trans hman)
  rw [leftOut_synchronize t taxonomy hr]
  rcases t.targets_cases d r.scope with
    ⟨hroute, -, hclosed⟩ | ⟨route, hroute, ⟨-, hopen, hclosed⟩ | ⟨-, -, hclosed⟩⟩
  · -- without a route: managed before and after, or neither
    cases hman : (synchronize t taxonomy d).1.manages r.scope with
    | true => exact .inl ⟨rfl, by simp [hclosed], hunrouted hman⟩
    | false =>
      refine .inr (.inr ⟨Bool.false_ne_true, by simp [hclosed], hman, hroute, ?_⟩)
      intro s hs hscope
      have hsome := ((mem_skipped_synchronize t taxonomy).mp hs).2.2
      rw [hscope, hclosed] at hsome
      cases hsome
  · -- with an open section: managed afterwards
    have hman : (synchronize t taxonomy d).1.manages r.scope = true :=
      (manages_or_openTarget?_none t taxonomy d hr).resolve_right (by simp [hopen])
    exact .inl ⟨hman, by simp [hclosed], hunrouted hman⟩
  · -- with a closed section: managed before and after, or skipped
    have hkept := manages_synchronize_of_closed t taxonomy hclosed
    cases hman : d.manages r.scope with
    | true =>
      rw [hman] at hkept
      exact .inl ⟨hkept, by simp, hunrouted hkept⟩
    | false =>
      rw [hman] at hkept
      refine .inr (.inl ⟨by simp [hkept], by simp [hclosed], fun h => ?_⟩)
      have hnone := h.2.1
      rw [hroute] at hnone
      cases hnone

/-- A skipped scope comes with the closed section of its route. -/
theorem paired_synchronize {d : Document} {s : Skipped}
    (hs : s ∈ (synchronize t taxonomy d).2.skipped) :
    (t.route? s.scope).map (·.target) = some s.target ∧
      (synchronize t taxonomy d).1.sectionPatterns? s.target = none := by
  have hclosed := ((mem_skipped_synchronize t taxonomy).mp hs).2.2
  obtain ⟨hroute, hnone⟩ := t.closedTarget?_eq_some.mp hclosed
  exact ⟨hroute, sectionPatterns?_synchronize_eq_none t taxonomy hnone⟩

/-! ### The number of managed nodes -/

theorem Document.managedCount_pos {d : Document} {scope : String} :
    0 < d.managedCount scope ↔ d.manages scope = true := by
  rw [managedCount, List.countP_pos_iff, manages_iff]

theorem Document.managedCount_eq_zero {d : Document} {scope : String} :
    d.managedCount scope = 0 ↔ d.manages scope = false := by
  rw [← Bool.not_eq_true, ← managedCount_pos, Nat.pos_iff_ne_zero, not_not]

/-- A scope of the table is added once if it has no managed node and an open section. -/
theorem count_scopes_runAdditions (d : Document) {r : Rule} (hr : r ∈ t.rules) :
    ((t.runAdditions d).map (·.rule.scope)).count r.scope =
      if d.manages r.scope = false ∧ (t.openTarget? d r.scope).isSome then 1 else 0 := by
  rw [(t.nodup_runAdditions d).count]
  simp only [t.mem_scopes_runAdditions hr]

/-- The managed nodes for a scope after a run: those before it and the additions. -/
theorem managedCount_synchronize (d : Document) (scope : String) :
    (synchronize t taxonomy d).1.managedCount scope =
      ((t.runAdditions d).map (·.rule.scope)).count scope + d.managedCount scope := by
  have hadded : ((t.runAdditions d).map fun a => (sectionLabel a.target, a.node taxonomy)).countP
      (·.2.managedFor scope) = ((t.runAdditions d).map (·.rule.scope)).count scope := by
    rw [List.countP_map, List.count_eq_countP, List.countP_map]
    refine List.countP_congr fun a _ => ?_
    simp [managedFor_node]
  have hrefreshed : (d.walk.map fun w => (w.1, w.2.refresh (t.groups taxonomy))).countP
      (·.2.managedFor scope) = d.managedCount scope := by
    rw [List.countP_map, Document.managedCount]
    refine List.countP_congr fun w _ => ?_
    simp [managedFor_refresh]
  rw [Document.managedCount, (walk_synchronize t taxonomy d).countP_eq, List.countP_append, hadded,
    hrefreshed]

theorem counted_synchronize (d : Document) {r : Rule} (hr : r ∈ t.rules) :
    (synchronize t taxonomy d).1.managedCount r.scope =
      if 0 < d.managedCount r.scope then d.managedCount r.scope
      else if (t.openTarget? d r.scope).isSome then 1 else 0 := by
  rw [managedCount_synchronize, count_scopes_runAdditions t d hr]
  rcases Nat.eq_zero_or_pos (d.managedCount r.scope) with hzero | hpos
  · rw [hzero, Document.managedCount_eq_zero.mp hzero]
    simp
  · rw [if_pos hpos, Document.managedCount_pos.mp hpos, if_neg (by simp), Nat.zero_add]

/-! ### The place of an addition -/

/-- A pattern of a section stays in it when others are added. -/
theorem Document.mem_sectionPatterns?_addAll {name : String} {n : Node} (adds : List Addition)
    {d : Document} (h : ∃ nodes ∈ d.sectionPatterns? name, n ∈ nodes) :
    ∃ nodes ∈ (d.addAll t taxonomy adds).sectionPatterns? name, n ∈ nodes := by
  refine addAll_induction (P := fun e => ∃ nodes ∈ e.sectionPatterns? name, n ∈ nodes) t taxonomy h
    ?_
  rintro e a - ⟨nodes, hnodes, hn⟩
  rw [add, sectionPatterns?_modifySection]
  split
  · rename_i hname
    subst hname
    exact ⟨_, Option.map_eq_some_iff.mpr ⟨nodes, hnodes, rfl⟩, mem_insertBefore.mpr (.inr hn)⟩
  · exact ⟨nodes, hnodes, hn⟩

/-- An addition is in its section. -/
theorem Document.mem_sectionPatterns?_of_mem :
    ∀ {adds : List Addition} {d : Document} {a : Addition}, a ∈ adds →
      (d.sectionPatterns? a.target).isSome →
      ∃ nodes ∈ (d.addAll t taxonomy adds).sectionPatterns? a.target, a.node taxonomy ∈ nodes
  | b :: adds, d, a, ha, hopen => by
    rw [addAll, List.foldl_cons]
    rcases List.mem_cons.mp ha with rfl | ha
    · obtain ⟨nodes, hnodes⟩ := Option.isSome_iff_exists.mp hopen
      exact mem_sectionPatterns?_addAll t taxonomy adds
        ⟨_, sectionPatterns?_add t taxonomy hnodes, mem_insertBefore.mpr (.inl rfl)⟩
    · refine mem_sectionPatterns?_of_mem ha ?_
      rw [isSome_sectionPatterns?_add]
      exact hopen

/-- After a run an addition is in its section's list. -/
theorem mem_sectionPatterns?_synchronize {d : Document} {a : Addition}
    (ha : a ∈ t.runAdditions d) :
    ∃ nodes, (synchronize t taxonomy d).1.sectionPatterns? a.target = some nodes ∧
      a.node taxonomy ∈ nodes := by
  have hopen : ((d.refresh (t.groups taxonomy)).sectionPatterns? a.target).isSome := by
    rw [Document.isSome_sectionPatterns?_refresh]
    exact t.isSome_of_mem_runAdditions ha
  rw [document_synchronize]
  exact Document.mem_sectionPatterns?_of_mem t taxonomy ha hopen

/-- The node that is added for a scope is the only one in its section's list. -/
theorem direct_synchronize {d : Document} {r : Rule} {name : String} (hr : r ∈ t.rules)
    (hcount : d.managedCount r.scope = 0) (hopen : t.openTarget? d r.scope = some name) :
    ∃ nodes, (synchronize t taxonomy d).1.sectionPatterns? name = some nodes ∧
      nodes.countP (·.managedFor r.scope) = 1 := by
  have hman := Document.managedCount_eq_zero.mp hcount
  obtain ⟨a, ha, hscope⟩ := List.mem_map.mp
    ((t.mem_scopes_runAdditions hr).mpr ⟨hman, by rw [hopen]; rfl⟩)
  have htarget : a.target = name := by
    have hopen' := (t.mem_runAdditions.mp ha).2.2
    rw [hscope, hopen] at hopen'
    exact (Option.some.inj hopen').symm
  subst htarget
  obtain ⟨nodes, hnodes, hmem⟩ := mem_sectionPatterns?_synchronize t taxonomy ha
  refine ⟨nodes, hnodes, Nat.le_antisymm ?_ ?_⟩
  · -- no more than on the walk
    have hwalk : (nodes.map (sectionLabel a.target, ·)).countP (·.2.managedFor r.scope) ≤
        (synchronize t taxonomy d).1.managedCount r.scope :=
      (Document.section_sublist_walk hnodes).countP_le
    rw [List.countP_map, counted_synchronize t taxonomy d hr, hcount, hopen] at hwalk
    exact hwalk
  · refine List.countP_pos_iff.mpr ⟨a.node taxonomy, hmem, ?_⟩
    rw [managedFor_node]
    exact decide_eq_true hscope

/-- **A run is complete.** It serves every scope of its table: managed nodes carry the words of the
scope's first rule, there is one more if there was none and the routed section is open, and a scope
that still has none is skipped or has no route. -/
theorem run_is_complete (d : Document) : t.Complete taxonomy d (synchronize t taxonomy d).1
    (synchronize t taxonomy d).2.skipped where
  regex _ hw _ _ hman hr := regex_of_mem_walk_synchronize t taxonomy hw hman hr
  accounted _ hr := accounted_synchronize t taxonomy d hr
  paired _ hs := paired_synchronize t taxonomy hs
  counted _ hr := counted_synchronize t taxonomy d hr
  direct _ hr _ hcount hopen := direct_synchronize t taxonomy hr hcount hopen

open Sample in
/-- A scope with an open section gets its pattern there, and one without its section is skipped. -/
theorem sample_run_is_complete : document.managedCount "keyword.else" = 0 ∧
    table.openTarget? document "keyword.else" = some "keywords" ∧
    (∃ nodes, (synchronize table vocabulary document).1.sectionPatterns? "keywords" = some nodes ∧
      nodes.countP (·.managedFor "keyword.else") = 1) ∧
    (table.route? "storage.int").map (·.target) = some "types" ∧
    (synchronize table vocabulary document).1.sectionPatterns? "types" = none := by
  have hrun := run_is_complete table vocabulary document
  have hrule : ⟨"keyword.else", .keyword, [], ["else"], [], none⟩ ∈ table.rules := by decide
  have hcount : document.managedCount "keyword.else" = 0 := by decide
  have hopen : table.openTarget? document "keyword.else" = some "keywords" := by decide
  have hskipped : ⟨"storage.int", "types"⟩ ∈
      (synchronize table vocabulary document).2.skipped := by decide
  exact ⟨hcount, hopen, hrun.direct _ hrule _ hcount hopen, hrun.paired _ hskipped⟩

end GrammarSync
