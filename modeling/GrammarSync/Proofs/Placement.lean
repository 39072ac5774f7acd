/-
# Where missing patterns are inserted

The patterns that a grammar lacks come into a section one at a time, each in
front of the catch-all as it stands then. The catch-all moves with every
insertion, and yet all of them together come to one block, in rule order, in
front of the first catch-all that was there before, or at the end
(`insertBlock_insertBefore`, `Document.section?_addAll`), as long as no
inserted pattern is itself the catch-all of its section
(`ScopeTable.Insertable`). Which patterns these are, what is logged, handled
and skipped with them, and that nothing else of the grammar moves, is stated
in `Inserted`, whatever scopes are handled before (`inserted_insertMissing`).
A second insertion finds nothing left to do (`insertMissing_again`).

Key definitions: `anchorAt?`, `insertBlock`, `ScopeTable.Insertable`,
`Inserted`.
Key theorems: `insertBlock_insertBefore`, `Document.section?_addAll`,
`inserted_insertMissing`, `insertMissing_again`, `insertion_is_exact`.
-/
import GrammarSync.Proofs.Run
import Mathlib.Data.List.DropRight
import Mathlib.Data.List.TakeWhile

namespace GrammarSync

/-! ### Blocks -/

/-- The position of the first node that has the anchor as its name, if there is one. -/
def anchorAt? (anchor : Option String) (nodes : List Node) : Option Nat :=
  anchor.bind fun name => nodes.findIdx? (·.name = some name)

/-- A sequence with a block of nodes at the position of its anchor, or at the end. -/
def insertBlock (anchor : Option String) (block nodes : List Node) : List Node :=
  match anchorAt? anchor nodes with
  | some i => nodes.take i ++ block ++ nodes.drop i
  | none => nodes ++ block

theorem insertBlock_nil (anchor : Option String) (nodes : List Node) :
    insertBlock anchor [] nodes = nodes := by
  unfold insertBlock
  cases anchorAt? anchor nodes with
  | none => simp
  | some i => simp

theorem Node.mapChildren_insertBlock_nil (anchor : Option String) :
    mapChildren (insertBlock anchor []) = id := by
  funext n
  apply mapChildren_eq_self
  cases n.children with
  | none => rfl
  | some nodes => rw [Option.map_some, insertBlock_nil]

/-- The first node of a name stands at the anchor's position, and without one the sequence ends. -/
theorem split_anchorAt? (name : String) (nodes : List Node) :
    nodes.takeWhile (·.name ≠ some name) =
        nodes.take ((anchorAt? (some name) nodes).getD nodes.length) ∧
      nodes.dropWhile (·.name ≠ some name) =
        nodes.drop ((anchorAt? (some name) nodes).getD nodes.length) := by
  have hnot : (fun n : Node => !decide (n.name ≠ some name)) =
      fun n => decide (n.name = some name) := by
    funext n
    simp
  have hindex : nodes.findIdx (fun n => decide (n.name = some name)) =
      (anchorAt? (some name) nodes).getD nodes.length := List.findIdx_eq_getD_findIdx?
  rw [List.takeWhile_eq_take_findIdx_not, List.dropWhile_eq_drop_findIdx_not, hnot, hindex]
  exact ⟨rfl, rfl⟩

/-- The nodes in front of the anchor's position are those up to the first node of its name. -/
theorem insertBlock_some (name : String) (block nodes : List Node) :
    insertBlock (some name) block nodes =
      nodes.takeWhile (·.name ≠ some name) ++ block ++ nodes.dropWhile (·.name ≠ some name) := by
  rw [(split_anchorAt? name nodes).1, (split_anchorAt? name nodes).2, insertBlock]
  cases anchorAt? (some name) nodes with
  | none => simp
  | some i => rfl

/-- A block that is inserted after a node comes behind it: the anchor is behind the node, which does
not have its name. -/
theorem insertBlock_insertBefore {anchor : Option String} {node : Node} (h : node.name ≠ anchor)
    (block nodes : List Node) :
    insertBlock anchor block (insertBefore anchor node nodes) =
      insertBlock anchor (node :: block) nodes := by
  cases anchor with
  | none => simp [insertBlock, anchorAt?, insertBefore]
  | some name =>
    have hfront : ∀ n ∈ nodes.takeWhile (·.name ≠ some name) ++ [node],
        decide (n.name ≠ some name) = true := by
      intro n hn
      rcases List.mem_append.mp hn with hn | hn
      · exact List.all_eq_true.mp List.all_takeWhile n hn
      · rw [List.mem_singleton.mp hn]
        exact decide_eq_true h
    have hbehind : (nodes.dropWhile (·.name ≠ some name)).takeWhile (·.name ≠ some name) = [] := by
      have hsplit := List.takeWhile_append_dropWhile (p := fun n : Node => decide (n.name ≠ some name))
        (l := nodes.dropWhile (·.name ≠ some name))
      rw [List.dropWhile_idempotent] at hsplit
      exact List.append_left_eq_self.mp hsplit
    have hinsert : insertBefore (some name) node nodes =
        (nodes.takeWhile (·.name ≠ some name) ++ [node]) ++
          nodes.dropWhile (·.name ≠ some name) := by
      rw [insertBefore, List.append_assoc, List.singleton_append]
    rw [insertBlock_some, insertBlock_some, hinsert, List.takeWhile_append_of_pos hfront,
      List.dropWhile_append_of_pos hfront, hbehind, List.dropWhile_idempotent]
    simp

/-! ### All additions to a section -/

/-- The patterns that additions bring into a section, in order. -/
def blockFor (taxonomy : Taxonomy) (adds : List Addition) (name : String) : List Node :=
  (adds.filter (·.target = name)).map (·.node taxonomy)

namespace Document

variable (t : ScopeTable) (taxonomy : Taxonomy)

theorem section?_add (d : Document) (a : Addition) (name : String) :
    (d.add t taxonomy a).section? name = if name = a.target
      then (d.section? name).map
        (Node.mapChildren (insertBefore (t.catchAll? name) (a.node taxonomy)))
      else d.section? name := by
  rw [add, section?, repository_modifySection, Entries.lookup_modify]
  split
  · rename_i htarget
    rw [htarget, section?]
  · rw [section?]

/-- All additions to a section come to one block at the anchor. -/
theorem section?_addAll (name : String) : ∀ (adds : List Addition) (d : Document),
    (∀ a ∈ adds, t.catchAll? a.target ≠ some a.rule.scope) →
    (d.addAll t taxonomy adds).section? name = (d.section? name).map
      (Node.mapChildren (insertBlock (t.catchAll? name) (blockFor taxonomy adds name)))
  | [], d, _ => by
    rw [blockFor, List.filter_nil, List.map_nil, Node.mapChildren_insertBlock_nil, Option.map_id]
    rfl
  | a :: adds, d, h => by
    have ih := section?_addAll name adds (d.add t taxonomy a) fun b hb =>
      h b (List.mem_cons_of_mem _ hb)
    rw [addAll, List.foldl_cons]
    rw [addAll] at ih
    rw [ih, section?_add]
    by_cases htarget : name = a.target
    · have hblock : blockFor taxonomy (a :: adds) name =
          a.node taxonomy :: blockFor taxonomy adds name := by
        simp [blockFor, htarget]
      have hname : (a.node taxonomy).name ≠ t.catchAll? name := by
        rw [htarget]
        exact (h a List.mem_cons_self).symm
      have hboth : insertBlock (t.catchAll? name) (blockFor taxonomy adds name) ∘
          insertBefore (t.catchAll? name) (a.node taxonomy) =
            insertBlock (t.catchAll? name) (blockFor taxonomy (a :: adds) name) := by
        funext nodes
        rw [hblock]
        exact insertBlock_insertBefore hname _ nodes
      rw [if_pos htarget, Option.map_map, ← hboth]
      congr 1
      funext n
      exact Node.mapChildren_mapChildren _ _ n
    · have hblock : blockFor taxonomy (a :: adds) name = blockFor taxonomy adds name := by
        simp [blockFor, Ne.symm htarget]
      rw [if_neg htarget, hblock]

/-- Additions change nothing of a document but its sections. -/
theorem addAll_eq (adds : List Addition) (d : Document) :
    d.addAll t taxonomy adds = { d with repository := (d.addAll t taxonomy adds).repository } := by
  apply addAll_induction (P := fun e => e = { d with repository := e.repository }) t taxonomy rfl
  intro e a _ he
  rw [add, modifySection, he]

end Document

/-! ### The missing patterns -/

/-- A table none of whose scopes, those handled apart, is the catch-all of the section it goes
into. -/
def ScopeTable.Insertable (t : ScopeTable) (handled : WordSet) : Prop :=
  ∀ r ∈ t.rules, r.scope ∉ handled → ∀ route, t.route? r.scope = some route →
    t.catchAll? route.target ≠ some r.scope

/-- A document `d` after inserting the patterns `added` of the rules of a table, with what was logged,
handled and skipped. -/
structure Inserted (t : ScopeTable) (taxonomy : Taxonomy) (handled : WordSet) (d : Document)
    (added : List Addition) (s : Insertion) : Prop where
  /-- The added scopes are those that are not handled and are routed into a section with patterns. -/
  mem_added : ∀ scope, scope ∈ added.map (·.rule.scope) ↔
    (∃ r ∈ t.rules, r.scope = scope) ∧ scope ∉ handled ∧
      ∃ route, t.route? scope = some route ∧ (d.sectionPatterns? route.target).isSome
  once : (added.map (·.rule.scope)).Nodup
  /-- They are added in rule order, each for its first rule and into the section of its route. -/
  in_order : (added.map (·.rule)).Sublist t.rules
  first : ∀ a ∈ added, t.rule? a.rule.scope = some a.rule
  routed : ∀ a ∈ added, (t.route? a.rule.scope).map (·.target) = some a.target
  /-- A section is as it was, but for its added patterns, which stand as one block at the first node
  named as its catch-all, or at the end. -/
  placed : ∀ name, s.document.section? name = (d.section? name).map
    (Node.mapChildren (insertBlock (t.catchAll? name) (blockFor taxonomy added name)))
  untouched : ∀ name, (∀ a ∈ added, a.target ≠ name) → s.document.section? name = d.section? name
  /-- Outside the repository nothing is changed, and its sections stay in their order. -/
  rest : s.document = { d with repository := s.document.repository } ∧
    Entries.keys s.document.repository = Entries.keys d.repository
  logged : s.changes = added.map (Addition.change taxonomy)
  mem_handled : ∀ scope, scope ∈ s.handled ↔ scope ∈ handled ∨ scope ∈ added.map (·.rule.scope)
  /-- A rule whose scope is neither handled nor added is skipped, if the scope has a route. -/
  skipped : s.skipped = t.rules.filterMap fun r =>
    if r.scope ∈ handled ∨ r.scope ∈ added.map (·.rule.scope) then none
    else (t.route? r.scope).map fun route => ⟨r.scope, route.target⟩

variable (t : ScopeTable) (taxonomy : Taxonomy)

/-- Inserting the missing patterns makes the additions for the scopes that are not handled. -/
theorem insertMissing_eq (handled : WordSet) (d : Document) :
    insertMissing t (t.groups taxonomy) handled d =
      { document := d.addAll t taxonomy (t.additions d handled.has t.rules)
        handled := handled.insertAll ((t.additions d handled.has t.rules).map (·.rule.scope))
        changes := (t.additions d handled.has t.rules).map (Addition.change taxonomy)
        skipped := t.skips d handled.has t.rules } := by
  rw [insertMissing, ScopeTable.groups, foldl_insertGroup]
  simp

/-- What is skipped is what is neither handled nor added. -/
theorem skips_eq (handled : WordSet) (d : Document) :
    t.skips d handled.has t.rules = t.rules.filterMap fun r =>
      if r.scope ∈ handled ∨ r.scope ∈ (t.additions d handled.has t.rules).map (·.rule.scope)
      then none else (t.route? r.scope).map fun route => ⟨r.scope, route.target⟩ := by
  refine List.filterMap_congr fun r hr => ?_
  have hadded : r.scope ∈ (t.additions d handled.has t.rules).map (·.rule.scope) ↔
      (∃ q ∈ t.rules, q.scope = r.scope) ∧ handled.has r.scope = false ∧
        (t.openTarget? d r.scope).isSome := ScopeTable.mem_scopes_additions
  by_cases hserved : r.scope ∈ handled ∨
      r.scope ∈ (t.additions d handled.has t.rules).map (·.rule.scope)
  · rw [if_pos hserved]
    rcases hserved with hhandled | hmem
    · have hhas : handled.has r.scope = true := decide_eq_true hhandled
      rw [if_pos hhas]
    · obtain ⟨name, hopen⟩ := Option.isSome_iff_exists.mp (hadded.mp hmem).2.2
      rw [t.closedTarget?_of_open hopen, Option.map_none, ite_self]
  · rw [if_neg hserved]
    obtain ⟨hhandled, hmem⟩ := not_or.mp hserved
    have hhas : handled.has r.scope = false := WordSet.has_eq_false_iff.mpr hhandled
    have hopen : t.openTarget? d r.scope = none := by
      rw [← Option.not_isSome_iff_eq_none]
      exact fun hopen => hmem (hadded.mpr ⟨⟨r, hr, rfl⟩, hhas, hopen⟩)
    rw [hhas, t.closedTarget?_of_not_open hopen, Option.map_map]
    rfl

/-- The insertion comes to its additions, each in its place. -/
theorem inserted_insertMissing {handled : WordSet} (h : t.Insertable handled) (d : Document) :
    Inserted t taxonomy handled d (t.additions d handled.has t.rules)
      (insertMissing t (t.groups taxonomy) handled d) := by
  have hanchors : ∀ a ∈ t.additions d handled.has t.rules,
      t.catchAll? a.target ≠ some a.rule.scope := by
    intro a ha
    obtain ⟨hrule, hhas, hopen⟩ := ScopeTable.mem_additions.mp ha
    obtain ⟨route, hroute, htarget⟩ := Option.map_eq_some_iff.mp (t.openTarget?_eq_some.mp hopen).1
    rw [← htarget]
    exact h a.rule (List.mem_of_find?_eq_some hrule) (WordSet.has_eq_false_iff.mp hhas) route hroute
  have hplaced := fun name => Document.section?_addAll t taxonomy name
    (t.additions d handled.has t.rules) d hanchors
  rw [insertMissing_eq]
  exact {
    mem_added := fun scope => by
      rw [ScopeTable.mem_scopes_additions, WordSet.has_eq_false_iff, t.isSome_openTarget?]
    once := ScopeTable.nodup_additions t.rules
    in_order := (ScopeTable.rules_additions_sublist t.rules).trans (firstRules_sublist t.rules)
    first := fun a ha => (ScopeTable.mem_additions.mp ha).1
    routed := fun a ha => (t.openTarget?_eq_some.mp (ScopeTable.mem_additions.mp ha).2.2).1
    placed := hplaced
    untouched := fun name hname => by
      have hblock : blockFor taxonomy (t.additions d handled.has t.rules) name = [] := by
        simpa [blockFor] using hname
      have hsame := Node.mapChildren_insertBlock_nil (t.catchAll? name)
      rw [hplaced, hblock, hsame, Option.map_id]
      rfl
    rest := ⟨Document.addAll_eq t taxonomy _ d, (Document.keys_addAll t taxonomy _ d).1⟩
    logged := rfl
    mem_handled := fun scope => WordSet.mem_insertAll _ _
    skipped := skips_eq t handled d }

/-- A second insertion finds nothing to add and skips the same. -/
theorem insertMissing_again (handled : WordSet) (d : Document) :
    insertMissing t (t.groups taxonomy) (insertMissing t (t.groups taxonomy) handled d).handled
        (insertMissing t (t.groups taxonomy) handled d).document =
      { insertMissing t (t.groups taxonomy) handled d with changes := [] } := by
  rw [insertMissing_eq t taxonomy handled d]
  generalize hadds : t.additions d handled.has t.rules = adds
  have hsections := fun name => Document.isSome_sectionPatterns?_addAll t taxonomy name adds d
  have hnone : t.additions (d.addAll t taxonomy adds)
      (handled.insertAll (adds.map (·.rule.scope))).has t.rules = [] := by
    rw [List.eq_nil_iff_forall_not_mem]
    intro a ha
    obtain ⟨hrule, hhas, hopen⟩ := ScopeTable.mem_additions.mp ha
    rw [t.openTarget?_congr hsections] at hopen
    rw [WordSet.has_eq_false_iff, WordSet.mem_insertAll, not_or] at hhas
    apply hhas.2
    rw [← hadds, ScopeTable.mem_scopes_additions, hopen]
    exact ⟨⟨a.rule, List.mem_of_find?_eq_some hrule, rfl⟩, WordSet.has_eq_false_iff.mpr hhas.1, rfl⟩
  have hskips : t.skips (d.addAll t taxonomy adds)
      (handled.insertAll (adds.map (·.rule.scope))).has t.rules =
        t.skips d handled.has t.rules := by
    rw [skips_eq, skips_eq, hnone, hadds]
    refine List.filterMap_congr fun r _ => ?_
    simp only [WordSet.mem_insertAll, List.map_nil, List.not_mem_nil, or_false]
  rw [insertMissing_eq, hnone, hskips]
  rfl

/-- **Insertion is exact.** By a table whose unhandled scopes are no catch-alls of the sections they go
into, exactly the unhandled scopes with an open section get a pattern, each one. The patterns of a
section come as one block, in rule order, in front of its first catch-all or at the end, and nothing
else moves. What is skipped is what has a route and got no pattern. A second insertion adds and logs
nothing and skips the same. -/
theorem insertion_is_exact {handled : WordSet} (h : t.Insertable handled) (d : Document) :
    (∃ added, Inserted t taxonomy handled d added
      (insertMissing t (t.groups taxonomy) handled d)) ∧
    insertMissing t (t.groups taxonomy) (insertMissing t (t.groups taxonomy) handled d).handled
        (insertMissing t (t.groups taxonomy) handled d).document =
      { insertMissing t (t.groups taxonomy) handled d with changes := [] } := by
  constructor
  · exact ⟨_, inserted_insertMissing t taxonomy h d⟩
  · exact insertMissing_again t taxonomy handled d

/-! ### A crowded section -/

/-- Two routes into one section, whose catch-all is a scope of the table itself, and a scope with two
rules. -/
def crowdedTable : ScopeTable where
  rules := [⟨"keyword.other", .keyword, [], ["word"], [], none⟩,
    ⟨"keyword.else", .keyword, [], ["else"], [], none⟩,
    ⟨"storage.int", .typeName, [], ["int"], [], none⟩,
    ⟨"operator.and", .keyword, [], ["and"], [], none⟩,
    ⟨"keyword.else", .keyword, [], ["otherwise"], [], none⟩,
    ⟨"entity.main", .contextual, [], ["main"], [], none⟩]
  routes := [⟨"keyword.", "keywords", none⟩, ⟨"operator.", "keywords", some "keyword.other"⟩,
    ⟨"storage.", "types", none⟩]

/-- A section with two catch-alls. -/
def crowdedDocument : Document where
  scopeName := "source.sample"
  patterns := []
  repository := [("keywords", ⟨none, none, none, some [.generated "" "keyword.wire" "wire",
    .generated "" "keyword.other" "first", .generated "" "keyword.control" "if",
    .generated "" "keyword.other" "last"], [], ["patterns"]⟩)]
  rest := []
  order := ["scopeName", "patterns", "repository"]

/-- The catch-all is handled beforehand. -/
def crowdedHandled : WordSet :=
  WordSet.ofList ["keyword.other", "unknown"]

open Sample in
/-- Two patterns come in front of the first catch-all, each scope goes by its first rule, and what has
no open section is skipped both times. -/
theorem crowdedSection_filled : crowdedTable.Insertable crowdedHandled ∧
    ∃ added s, insertMissing crowdedTable (crowdedTable.groups vocabulary) crowdedHandled
        crowdedDocument = s ∧
      Inserted crowdedTable vocabulary crowdedHandled crowdedDocument added s ∧
      added.map (Addition.change vocabulary) =
        [.added "keyword.else" "repository.keywords" "\\b(else)\\b",
          .added "operator.and" "repository.keywords" "\\b(and)\\b"] ∧
      (s.document.sectionPatterns? "keywords").map (·.map (·.name)) =
        some [some "keyword.wire", some "keyword.else", some "operator.and",
          some "keyword.other", some "keyword.control", some "keyword.other"] ∧
      insertMissing crowdedTable (crowdedTable.groups vocabulary) s.handled s.document =
        ⟨s.document, s.handled, [], [⟨"storage.int", "types"⟩]⟩ := by
  have hapart : ∀ r ∈ crowdedTable.rules, r.scope ∉ crowdedHandled →
      (crowdedTable.route? r.scope).bind (fun route => crowdedTable.catchAll? route.target) ≠
        some r.scope := by
    decide +kernel
  have hinsertable : crowdedTable.Insertable crowdedHandled := by
    intro r hr hscope route hroute
    have := hapart r hr hscope
    rwa [hroute] at this
  obtain ⟨⟨added, hinserted⟩, hagain⟩ :=
    insertion_is_exact crowdedTable vocabulary hinsertable crowdedDocument
  refine ⟨hinsertable, added, _, rfl, hinserted, ?_, ?_, ?_⟩
  · rw [← hinserted.logged]
    decide +kernel
  · decide +kernel
  · have hskipped : (insertMissing crowdedTable (crowdedTable.groups vocabulary) crowdedHandled
        crowdedDocument).skipped = [⟨"storage.int", "types"⟩] := by decide +kernel
    rw [hagain]
    simp only [hskipped]

end GrammarSync
