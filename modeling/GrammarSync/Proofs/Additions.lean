/-
# What a run adds and skips

Which patterns a run adds, in which order and where, is decided by the table
and by the names in the grammar: for every scope of the table without a
managed node, the scope's first rule, if the scope is routed into a section
with patterns (`ScopeTable.additions`). Inserting group by group comes to the
same, whatever is handled before (`foldl_insertGroup`): a scope that was
inserted is handled from then on, and one that could not be inserted for its
first rule cannot be for a later one, because the two go the same way.

Key definitions: `Addition`, `ScopeTable.openTarget?`, `firstRules`,
`ScopeTable.additions`, `ScopeTable.skips`, `Document.addAll`.
Key theorems: `ScopeTable.mem_additions`,
`ScopeTable.mem_scopes_additions`, `Document.addAll_induction`,
`Document.refresh_addAll`, `Document.walk_addAll`, `foldl_insertGroup`.
-/
import GrammarSync.Proofs.Walk
import Mathlib.Data.List.Basic

namespace GrammarSync

/-- A pattern to be added: the rule it is generated for and the section it goes into. -/
structure Addition where
  rule : Rule
  target : String

namespace Addition

/-- The generated pattern. -/
def node (taxonomy : Taxonomy) (a : Addition) : Node :=
  (a.rule.group taxonomy).pattern

/-- The record of the addition. -/
def change (taxonomy : Taxonomy) (a : Addition) : Change :=
  .added a.rule.scope (sectionLabel a.target) (a.rule.group taxonomy).regex

end Addition

/-! ### Where a scope goes -/

namespace ScopeTable

variable (t : ScopeTable)

/-- The section with patterns that a scope is routed into. -/
def openTarget? (d : Document) (scope : String) : Option String :=
  ((t.route? scope).map (·.target)).filter fun name => (d.sectionPatterns? name).isSome

/-- The section without patterns, or missing, that a scope is routed into. -/
def closedTarget? (d : Document) (scope : String) : Option String :=
  ((t.route? scope).map (·.target)).filter fun name => (d.sectionPatterns? name).isNone

theorem openTarget?_eq_some {d : Document} {scope name : String} :
    t.openTarget? d scope = some name ↔
      (t.route? scope).map (·.target) = some name ∧ (d.sectionPatterns? name).isSome := by
  rw [openTarget?, Option.filter_eq_some_iff]

theorem closedTarget?_eq_some {d : Document} {scope name : String} :
    t.closedTarget? d scope = some name ↔
      (t.route? scope).map (·.target) = some name ∧ d.sectionPatterns? name = none := by
  rw [closedTarget?, Option.filter_eq_some_iff, Option.isNone_iff_eq_none]

theorem openTarget?_congr {d e : Document}
    (h : ∀ name, (d.sectionPatterns? name).isSome = (e.sectionPatterns? name).isSome)
    (scope : String) : t.openTarget? d scope = t.openTarget? e scope := by
  rw [openTarget?, openTarget?, funext h]

theorem closedTarget?_congr {d e : Document}
    (h : ∀ name, (d.sectionPatterns? name).isSome = (e.sectionPatterns? name).isSome)
    (scope : String) : t.closedTarget? d scope = t.closedTarget? e scope := by
  have hnone : ∀ name, (d.sectionPatterns? name).isNone = (e.sectionPatterns? name).isNone :=
    fun name => by rw [← Option.not_isSome, ← Option.not_isSome, h]
  rw [closedTarget?, closedTarget?, funext hnone]

/-- A routed scope goes into an open section or into a closed one, another into none. -/
theorem targets_cases (d : Document) (scope : String) :
    (t.route? scope = none ∧ t.openTarget? d scope = none ∧ t.closedTarget? d scope = none) ∨
    ∃ route, t.route? scope = some route ∧
      (((d.sectionPatterns? route.target).isNone = false ∧
          t.openTarget? d scope = some route.target ∧ t.closedTarget? d scope = none) ∨
        ((d.sectionPatterns? route.target).isNone = true ∧
          t.openTarget? d scope = none ∧ t.closedTarget? d scope = some route.target)) := by
  unfold openTarget? closedTarget?
  cases hr : t.route? scope with
  | none => exact .inl ⟨rfl, rfl, rfl⟩
  | some route =>
    refine .inr ⟨route, rfl, ?_⟩
    cases hs : d.sectionPatterns? route.target with
    | none => exact .inr ⟨rfl, by simp [hs], by simp [hs]⟩
    | some nodes => exact .inl ⟨rfl, by simp [hs], by simp [hs]⟩

theorem isSome_openTarget? {d : Document} {scope : String} : (t.openTarget? d scope).isSome ↔
    ∃ route, t.route? scope = some route ∧ (d.sectionPatterns? route.target).isSome := by
  unfold openTarget?
  cases t.route? scope with
  | none => simp
  | some route => simp [Option.isSome_filter]

/-- A scope goes into one section only. -/
theorem closedTarget?_of_open {d : Document} {scope name : String}
    (h : t.openTarget? d scope = some name) : t.closedTarget? d scope = none := by
  rcases t.targets_cases d scope with ⟨-, hopen, -⟩ | ⟨route, -, ⟨-, -, hclosed⟩ | ⟨-, hopen, -⟩⟩
  · rw [hopen] at h; cases h
  · exact hclosed
  · rw [hopen] at h; cases h

theorem closedTarget?_of_not_open {d : Document} {scope : String}
    (h : t.openTarget? d scope = none) :
    t.closedTarget? d scope = (t.route? scope).map (·.target) := by
  rcases t.targets_cases d scope with
    ⟨hroute, -, hclosed⟩ | ⟨route, hroute, ⟨-, hopen, -⟩ | ⟨-, -, hclosed⟩⟩
  · rw [hclosed, hroute]
    rfl
  · rw [hopen] at h; cases h
  · rw [hclosed, hroute]
    rfl

end ScopeTable

/-! ### The first rule of every scope -/

/-- The rules without those whose scope has an earlier rule. -/
def firstRules : List Rule → List Rule
  | [] => []
  | r :: rules => r :: (firstRules rules).filter (·.scope ≠ r.scope)

theorem mem_firstRules {r : Rule} : ∀ {rules : List Rule},
    r ∈ firstRules rules ↔ rules.find? (·.scope = r.scope) = some r
  | [] => by simp [firstRules]
  | q :: rules => by
    rw [firstRules, List.mem_cons, List.mem_filter, @mem_firstRules r rules,
      List.find?_cons]
    by_cases hq : q.scope = r.scope
    · simp [hq, eq_comm]
    · have hne : r ≠ q := fun h => hq (h ▸ rfl)
      simp [hq, hne, Ne.symm hq]

/-- The first rules stand in rule order. -/
theorem firstRules_sublist : ∀ rules : List Rule, (firstRules rules).Sublist rules
  | [] => List.Sublist.slnil
  | r :: rules => (List.filter_sublist.trans (firstRules_sublist rules)).cons_cons r

theorem nodup_firstRules : ∀ rules : List Rule, ((firstRules rules).map (·.scope)).Nodup
  | [] => List.nodup_nil
  | r :: rules => by
    rw [firstRules, List.map_cons, List.nodup_cons]
    refine ⟨fun hm => ?_, ((nodup_firstRules rules).sublist (List.filter_sublist.map _))⟩
    obtain ⟨q, hq, hscope⟩ := List.mem_map.mp hm
    simpa [hscope] using (List.mem_filter.mp hq).2

/-! ### Additions and skipped scopes -/

namespace ScopeTable

variable (t : ScopeTable) (d : Document) (has : String → Bool)

/-- The patterns to be added for the scopes of rules, except for those that are there. -/
def additions (rules : List Rule) : List Addition :=
  (firstRules rules).filterMap fun r =>
    if has r.scope then none else (t.openTarget? d r.scope).map (⟨r, ·⟩)

/-- The scopes of rules that are not there and cannot be added. -/
def skips (rules : List Rule) : List Skipped :=
  rules.filterMap fun r =>
    if has r.scope then none else (t.closedTarget? d r.scope).map (⟨r.scope, ·⟩)

variable {t d has}

theorem mem_additions {rules : List Rule} {a : Addition} :
    a ∈ t.additions d has rules ↔ rules.find? (·.scope = a.rule.scope) = some a.rule ∧
      has a.rule.scope = false ∧ t.openTarget? d a.rule.scope = some a.target := by
  rw [additions, List.mem_filterMap, ← mem_firstRules]
  constructor
  · rintro ⟨r, hr, ha⟩
    split at ha
    · cases ha
    · rename_i hh
      obtain ⟨name, hname, rfl⟩ := Option.map_eq_some_iff.mp ha
      exact ⟨hr, by simpa using hh, hname⟩
  · rintro ⟨hr, hh, ho⟩
    exact ⟨a.rule, hr, by rw [hh, ho]; rfl⟩

/-- The scopes that are added: those of a rule that are not there and have an open section. -/
theorem mem_scopes_additions {rules : List Rule} {scope : String} :
    scope ∈ (t.additions d has rules).map (·.rule.scope) ↔
      (∃ r ∈ rules, r.scope = scope) ∧ has scope = false ∧ (t.openTarget? d scope).isSome := by
  rw [List.mem_map]
  constructor
  · rintro ⟨a, ha, rfl⟩
    obtain ⟨hrule, hhas, hopen⟩ := mem_additions.mp ha
    exact ⟨⟨a.rule, List.mem_of_find?_eq_some hrule, rfl⟩, hhas, by rw [hopen]; rfl⟩
  · rintro ⟨⟨r, hr, rfl⟩, hhas, hopen⟩
    have hfirst : (rules.find? (·.scope = r.scope)).isSome := by
      rw [List.find?_isSome]
      exact ⟨r, hr, decide_eq_true rfl⟩
    obtain ⟨q, hq⟩ := Option.isSome_iff_exists.mp hfirst
    obtain ⟨name, hname⟩ := Option.isSome_iff_exists.mp hopen
    have hscope : q.scope = r.scope := by simpa using List.find?_some hq
    refine ⟨⟨q, name⟩, mem_additions.mpr ?_, hscope⟩
    simp only [hscope]
    exact ⟨hq, hhas, hname⟩

/-- The rules of the additions are first rules, in rule order. -/
theorem rules_additions_sublist (rules : List Rule) :
    ((t.additions d has rules).map (·.rule)).Sublist (firstRules rules) := by
  have hguard : (fun r : Rule => (if has r.scope then none else
      (t.openTarget? d r.scope).map (Addition.mk r)).map (·.rule)) =
        Option.guard fun r => !has r.scope && (t.openTarget? d r.scope).isSome := by
    funext r
    cases hh : has r.scope <;> cases ho : t.openTarget? d r.scope <;> simp [Option.guard, hh, ho]
  rw [additions, List.map_filterMap, hguard, List.filterMap_eq_filter]
  exact List.filter_sublist

theorem nodup_additions (rules : List Rule) :
    ((t.additions d has rules).map (·.rule.scope)).Nodup := by
  have hscopes : ((t.additions d has rules).map (·.rule.scope)).Sublist
      ((firstRules rules).map (·.scope)) := by
    have hrules := (@rules_additions_sublist t d has rules).map fun r => r.scope
    rw [List.map_map] at hrules
    exact hrules
  exact (nodup_firstRules rules).sublist hscopes

theorem additions_congr {e : Document} {has' : String → Bool} {rules : List Rule}
    (hd : ∀ name, (d.sectionPatterns? name).isSome = (e.sectionPatterns? name).isSome)
    (hh : ∀ r ∈ rules, has r.scope = has' r.scope) :
    t.additions d has rules = t.additions e has' rules :=
  List.filterMap_congr fun r hr => by
    rw [hh r ((firstRules_sublist rules).subset hr), t.openTarget?_congr hd]

theorem skips_congr {e : Document} {has' : String → Bool} {rules : List Rule}
    (hd : ∀ name, (d.sectionPatterns? name).isSome = (e.sectionPatterns? name).isSome)
    (hh : ∀ r ∈ rules, has r.scope = has' r.scope) :
    t.skips d has rules = t.skips e has' rules :=
  List.filterMap_congr fun r hr => by rw [hh r hr, t.closedTarget?_congr hd]

theorem skips_cons (r : Rule) (rules : List Rule) :
    t.skips d has (r :: rules) =
      (if has r.scope then none else (t.closedTarget? d r.scope).map (Skipped.mk r.scope)).toList ++
        t.skips d has rules := by
  rw [skips, List.filterMap_cons]
  cases has r.scope <;> cases t.closedTarget? d r.scope <;> rfl

/-- A rule whose scope is there or has no open section adds nothing, nor does a later rule of its
scope. -/
theorem additions_cons_of_none {r : Rule} (rules : List Rule)
    (h : has r.scope = true ∨ t.openTarget? d r.scope = none) :
    t.additions d has (r :: rules) = t.additions d has rules := by
  have hnone : ∀ q : Rule, q.scope = r.scope →
      (if has q.scope then none else (t.openTarget? d q.scope).map (Addition.mk q)) = none := by
    intro q hq
    rw [hq]
    rcases h with h | h
    · rw [h]; rfl
    · rw [h]; cases has r.scope <;> rfl
  rw [additions, firstRules, List.filterMap_cons, hnone r rfl, List.filterMap_filter]
  refine List.filterMap_congr fun q _ => ?_
  by_cases hq : q.scope = r.scope
  · simp only [hnone q hq, ite_self]
  · rw [if_pos (by simpa using hq)]

/-- A rule that adds a pattern comes first, and its scope is there for the rules after it. -/
theorem additions_cons_of_some {r : Rule} {name : String} (rules : List Rule)
    (hh : has r.scope = false) (ho : t.openTarget? d r.scope = some name) :
    t.additions d has (r :: rules) =
      ⟨r, name⟩ :: t.additions d (fun scope => decide (scope = r.scope) || has scope) rules := by
  rw [additions, firstRules, List.filterMap_cons, hh, ho, List.filterMap_filter]
  refine congrArg (_ :: ·) (List.filterMap_congr fun q _ => ?_)
  by_cases hq : q.scope = r.scope <;> simp [hq]

/-- What is added takes nothing away from the scopes that are skipped. -/
theorem skips_of_open {scope name : String} (rules : List Rule)
    (ho : t.openTarget? d scope = some name) :
    t.skips d (fun s => decide (s = scope) || has s) rules = t.skips d has rules := by
  refine List.filterMap_congr fun q _ => ?_
  by_cases hq : q.scope = scope
  · rw [hq, t.closedTarget?_of_open ho]
    cases has scope <;> simp
  · simp [hq]

end ScopeTable

/-! ### Additions to a document -/

namespace Document

variable (t : ScopeTable)

/-- The document with a pattern added: in front of the section's catch-all, or last. -/
def add (taxonomy : Taxonomy) (d : Document) (a : Addition) : Document :=
  d.modifySection a.target (insertBefore (t.catchAll? a.target) (a.node taxonomy))

/-- The document with patterns added one after the other. -/
def addAll (taxonomy : Taxonomy) (d : Document) (adds : List Addition) : Document :=
  adds.foldl (add t taxonomy) d

theorem sectionPatterns?_add (taxonomy : Taxonomy) {d : Document} {a : Addition} {nodes : List Node}
    (h : d.sectionPatterns? a.target = some nodes) :
    (d.add t taxonomy a).sectionPatterns? a.target =
      some (insertBefore (t.catchAll? a.target) (a.node taxonomy) nodes) := by
  rw [add, sectionPatterns?_modifySection, if_pos rfl, h]
  rfl

theorem isSome_sectionPatterns?_add (taxonomy : Taxonomy) (d : Document) (a : Addition)
    (name : String) :
    ((d.add t taxonomy a).sectionPatterns? name).isSome = (d.sectionPatterns? name).isSome :=
  isSome_sectionPatterns?_modifySection d a.target name _

/-- What every addition keeps, all additions keep. -/
theorem addAll_induction {P : Document → Prop} (taxonomy : Taxonomy) :
    ∀ {adds : List Addition} {d : Document}, P d →
      (∀ e, ∀ a ∈ adds, P e → P (e.add t taxonomy a)) → P (d.addAll t taxonomy adds)
  | [], _, hd, _ => hd
  | a :: adds, d, hd, hstep => by
    have hfirst : P (d.add t taxonomy a) := hstep d a List.mem_cons_self hd
    rw [addAll, List.foldl_cons]
    exact addAll_induction taxonomy hfirst fun e b hb => hstep e b (List.mem_cons_of_mem _ hb)

theorem isSome_sectionPatterns?_addAll (taxonomy : Taxonomy) (name : String)
    (adds : List Addition) (d : Document) :
    ((d.addAll t taxonomy adds).sectionPatterns? name).isSome =
      (d.sectionPatterns? name).isSome := by
  refine addAll_induction (P := fun e => (e.sectionPatterns? name).isSome = _) t taxonomy rfl
    fun e a _ ih => ?_
  rw [isSome_sectionPatterns?_add, ih]

/-- Additions go into sections that are there. -/
theorem keys_addAll (taxonomy : Taxonomy) (adds : List Addition) (d : Document) :
    Entries.keys (d.addAll t taxonomy adds).repository = Entries.keys d.repository ∧
      (d.addAll t taxonomy adds).patterns = d.patterns := by
  refine addAll_induction (P := fun e => Entries.keys e.repository = Entries.keys d.repository ∧
    e.patterns = d.patterns) t taxonomy ⟨rfl, rfl⟩ ?_
  rintro e a - ⟨hkeys, hpatterns⟩
  have hkept : Entries.keys (e.add t taxonomy a).repository = Entries.keys e.repository := by
    rw [add, repository_modifySection, Entries.keys_modify]
  exact ⟨hkept.trans hkeys, hpatterns⟩

/-- The generated pattern of a first rule is managed by that rule, so refreshing it by another
taxonomy is generating it from that one. -/
theorem refresh_node (first second : Taxonomy) {a : Addition}
    (h : t.rule? a.rule.scope = some a.rule) :
    (a.node first).refresh (t.groups second) = a.node second := by
  have hmanager : t.manager? (a.node first) = some a.rule :=
    (t.manager?_of_name rfl rfl).trans h
  rw [Node.refresh_eq, refreshedRegex_groups, hmanager]
  rfl

/-- Additions for one taxonomy, refreshed by another, are the additions for that one. -/
theorem refresh_addAll (first second : Taxonomy) : ∀ (adds : List Addition) (d : Document),
    (∀ a ∈ adds, t.rule? a.rule.scope = some a.rule) →
      (d.addAll t first adds).refresh (t.groups second) =
        (d.refresh (t.groups second)).addAll t second adds
  | [], _, _ => rfl
  | a :: adds, d, h => by
    have hadd : (d.add t first a).refresh (t.groups second) =
        (d.refresh (t.groups second)).add t second a := by
      refine refresh_modifySection _ d a.target fun nodes => ?_
      rw [refreshAll_insertBefore, refresh_node t first second (h a List.mem_cons_self)]
    rw [addAll, addAll, List.foldl_cons, List.foldl_cons, ← hadd]
    exact refresh_addAll first second adds _ fun b hb => h b (List.mem_cons_of_mem _ hb)

/-- Every addition comes into the walk once, and all else stays in it. -/
theorem walk_addAll (taxonomy : Taxonomy) : ∀ (adds : List Addition) (d : Document),
    (∀ a ∈ adds, (d.sectionPatterns? a.target).isSome) →
      (d.addAll t taxonomy adds).walk.Perm
        (adds.map (fun a => (sectionLabel a.target, a.node taxonomy)) ++ d.walk)
  | [], _, _ => List.Perm.refl _
  | a :: adds, d, h => by
    have hrest : ∀ b ∈ adds, ((d.add t taxonomy a).sectionPatterns? b.target).isSome := by
      intro b hb
      rw [isSome_sectionPatterns?_add]
      exact h b (List.mem_cons_of_mem _ hb)
    have hfirst : (d.add t taxonomy a).walk.Perm
        ((sectionLabel a.target, a.node taxonomy) :: d.walk) :=
      walk_insertBefore (h a List.mem_cons_self) _ rfl
    rw [addAll, List.foldl_cons, List.map_cons]
    exact (walk_addAll taxonomy adds _ hrest).trans
      ((hfirst.append_left _).trans List.perm_middle)

end Document

/-! ### Group by group -/

variable (t : ScopeTable) (taxonomy : Taxonomy)

/-- A scope that is handled or has no route is passed over. -/
theorem insertGroup_of_pass {s : Insertion} {r : Rule}
    (h : r.scope ∈ s.handled ∨ t.route? r.scope = none) :
    insertGroup t s (r.group taxonomy) = s := by
  unfold insertGroup
  split
  · rfl
  · rename_i hh
    have hroute : t.route? (r.group taxonomy).scope = none := h.resolve_left hh
    rw [hroute]

/-- A scope that goes into a section with patterns gets a pattern there and is handled. -/
theorem insertGroup_of_open {s : Insertion} {r : Rule} {route : Route} (hh : r.scope ∉ s.handled)
    (hroute : t.route? r.scope = some route)
    (hs : (s.document.sectionPatterns? route.target).isNone = false) :
    insertGroup t s (r.group taxonomy) =
      { s with
        document := s.document.add t taxonomy ⟨r, route.target⟩
        handled := s.handled.insert r.scope
        changes := s.changes ++ [Addition.change taxonomy ⟨r, route.target⟩] } := by
  have hscope : (r.group taxonomy).scope = r.scope := rfl
  unfold insertGroup
  simp only [hscope, if_neg hh, hroute, hs, Bool.false_eq_true, if_false]
  rfl

/-- A scope that goes into a section without patterns is skipped. -/
theorem insertGroup_of_closed {s : Insertion} {r : Rule} {route : Route} (hh : r.scope ∉ s.handled)
    (hroute : t.route? r.scope = some route)
    (hs : (s.document.sectionPatterns? route.target).isNone = true) :
    insertGroup t s (r.group taxonomy) =
      { s with skipped := s.skipped ++ [⟨r.scope, route.target⟩] } := by
  have hscope : (r.group taxonomy).scope = r.scope := rfl
  unfold insertGroup
  simp only [hscope, if_neg hh, hroute, hs, if_true]

/-- Whether a scope is in a set. -/
def WordSet.has (handled : WordSet) (scope : String) : Bool :=
  decide (scope ∈ handled)

theorem WordSet.has_eq_false_iff {handled : WordSet} {scope : String} :
    handled.has scope = false ↔ scope ∉ handled :=
  decide_eq_false_iff_not

theorem WordSet.has_insert (handled : WordSet) (scope : String) :
    (handled.insert scope).has = fun s => decide (s = scope) || handled.has s := by
  funext s
  rw [WordSet.has, WordSet.has, ← Bool.decide_or]
  exact decide_eq_decide.mpr WordSet.mem_insert

/-- Inserting group by group makes the additions of the rules, in rule order. -/
theorem foldl_insertGroup : ∀ (rules : List Rule) (s : Insertion),
    (rules.map (·.group taxonomy)).foldl (insertGroup t) s =
      { document := s.document.addAll t taxonomy (t.additions s.document s.handled.has rules)
        handled := s.handled.insertAll
          ((t.additions s.document s.handled.has rules).map (·.rule.scope))
        changes := s.changes ++
          (t.additions s.document s.handled.has rules).map (Addition.change taxonomy)
        skipped := s.skipped ++ t.skips s.document s.handled.has rules }
  | [], s => by
    simp [ScopeTable.additions, ScopeTable.skips, firstRules, Document.addAll, WordSet.insertAll]
  | r :: rules, s => by
    have ih := foldl_insertGroup rules
    rw [List.map_cons, List.foldl_cons]
    by_cases hh : r.scope ∈ s.handled
    · have hhas : s.handled.has r.scope = true := decide_eq_true hh
      rw [insertGroup_of_pass t taxonomy (.inl hh), ih,
        ScopeTable.additions_cons_of_none rules (.inl hhas), ScopeTable.skips_cons, hhas]
      rfl
    · have hhas : s.handled.has r.scope = false := WordSet.has_eq_false_iff.mpr hh
      rcases t.targets_cases s.document r.scope with
        ⟨hroute, hopen, hclosed⟩ | ⟨route, hroute, ⟨hs, hopen, hclosed⟩ | ⟨hs, hopen, hclosed⟩⟩
      · rw [insertGroup_of_pass t taxonomy (.inr hroute), ih,
          ScopeTable.additions_cons_of_none rules (.inr hopen), ScopeTable.skips_cons, hhas,
          hclosed]
        rfl
      · -- the scope is handled from here on, and the same sections are open
        have hdoc := Document.isSome_sectionPatterns?_add t taxonomy s.document ⟨r, route.target⟩
        rw [insertGroup_of_open t taxonomy hh hroute hs, ih]
        simp only [WordSet.has_insert]
        rw [ScopeTable.additions_cons_of_some rules hhas hopen,
          ScopeTable.additions_congr hdoc fun _ _ => rfl,
          ScopeTable.skips_congr hdoc fun _ _ => rfl,
          ScopeTable.skips_of_open rules hopen, ScopeTable.skips_cons, hhas, hclosed]
        simp [Document.addAll, WordSet.insertAll]
      · rw [insertGroup_of_closed t taxonomy hh hroute hs, ih]
        simp only
        rw [ScopeTable.additions_cons_of_none rules (.inr hopen), ScopeTable.skips_cons, hhas,
          hclosed]
        simp

end GrammarSync
