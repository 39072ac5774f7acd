/-
# The walk of a document

The walk lists the nodes of the refreshed sequences with the labels of their
sequences: the top sequence, then the sections' sequences in order, a node
before the nodes nested in it. A node is managed for a scope if it has the
scope as its name and has an expression. Refreshing maps the walk
(`walk_refresh`), and a leaf that is inserted into a section comes into the
walk once and moves nothing else out of it (`walk_insertBefore`).

Key definitions: `Document.walk`, `Node.managedFor`, `Document.manages`.
Key theorems: `Document.walk_refresh`, `Document.refresh_modifySection`,
`Document.modifySection_of_patterns`, `Document.section_sublist_walk`,
`Document.walk_insertBefore`, `Document.managedFor_eq_false`,
`Document.mem_managedScopes`, `Document.refreshChanges_eq`.
-/
import GrammarSync.Proofs.Refresh
import GrammarSync.Sync.Insert
import Mathlib.Data.List.Basic

namespace GrammarSync

/-! ### Entries changed in place -/

namespace Entries

variable {α : Type}

theorem keys_modify (k : String) (f : α → α) : ∀ es : List (String × α),
    keys (modify k f es) = keys es
  | [] => rfl
  | (x, u) :: rest => by
    have ih := keys_modify k f rest
    unfold modify
    split
    · rfl
    · simp only [keys, List.map_cons] at ih ⊢
      rw [ih]

/-- An entry that is there is changed where it stands. -/
theorem modify_of_lookup {k : String} {v : α} : ∀ {es : List (String × α)}, es.lookup k = some v →
    ∃ xs ys, es = xs ++ (k, v) :: ys ∧ k ∉ keys xs ∧ ∀ f, modify k f es = xs ++ (k, f v) :: ys
  | [], h => nomatch h
  | (x, u) :: rest, h => by
    rw [List.lookup_cons] at h
    by_cases hx : k = x
    · subst hx
      simp only [BEq.rfl, Option.some.injEq] at h
      subst h
      exact ⟨[], rest, rfl, List.not_mem_nil, fun f => if_pos rfl⟩
    · simp only [beq_eq_false_iff_ne.mpr hx] at h
      obtain ⟨xs, ys, hes, hk, hmod⟩ := modify_of_lookup h
      refine ⟨(x, u) :: xs, ys, by rw [hes]; rfl, ?_, fun f => ?_⟩
      · exact fun hm => (List.mem_cons.mp hm).elim hx hk
      · rw [modify, if_neg (Ne.symm hx), hmod]
        rfl

theorem modify_modify (k : String) (f g : α → α) : ∀ es : List (String × α),
    modify k g (modify k f es) = modify k (g ∘ f) es
  | [] => rfl
  | (x, u) :: rest => by
    have ih := modify_modify k f g rest
    by_cases hx : x = k
    · simp only [modify, if_pos hx, Function.comp_apply]
    · simp only [modify, if_neg hx, ih]

theorem lookup_modify (k j : String) (f : α → α) : ∀ es : List (String × α),
    (modify k f es).lookup j = if j = k then (es.lookup k).map f else es.lookup j
  | [] => by simp [modify]
  | (x, u) :: rest => by
    have ih := lookup_modify k j f rest
    unfold modify
    by_cases hx : x = k
    · subst hx
      rw [if_pos rfl, List.lookup_cons_self]
      by_cases hj : j = x
      · subst hj
        rw [if_pos rfl, List.lookup_cons_self]
        rfl
      · simp only [List.lookup_cons, beq_eq_false_iff_ne.mpr hj, if_neg hj]
    · rw [if_neg hx]
      have hk : List.lookup k ((x, u) :: rest) = rest.lookup k := by
        simp only [List.lookup_cons, beq_eq_false_iff_ne.mpr (Ne.symm hx)]
      rw [hk, List.lookup_cons, ih, List.lookup_cons]
      by_cases hj : j = k
      · subst hj
        simp only [beq_eq_false_iff_ne.mpr (Ne.symm hx), if_pos]
      · simp only [if_neg hj]

theorem lookup_map (k : String) (g : α → α) : ∀ es : List (String × α),
    (es.map fun e => (e.1, g e.2)).lookup k = (es.lookup k).map g
  | [] => rfl
  | (x, u) :: rest => by
    rw [List.map_cons, List.lookup_cons, List.lookup_cons, lookup_map k g rest]
    cases k == x <;> rfl

/-- Changing one entry and then all is changing all and then one. -/
theorem map_modify (k : String) {f f' g : α → α} (h : ∀ v, g (f v) = f' (g v)) :
    ∀ es : List (String × α), (modify k f es).map (fun e => (e.1, g e.2)) =
      modify k f' (es.map fun e => (e.1, g e.2))
  | [] => rfl
  | (x, u) :: rest => by
    have ih := map_modify k h rest
    rw [List.map_cons]
    unfold modify
    split
    · rw [List.map_cons, h]
    · rw [List.map_cons, ih]

/-- A change that does not show in a view of the values does not show in the view of the entries. -/
theorem map_modify_of_view {β : Type} (view : α → β) (k : String) {f : α → α}
    (h : ∀ v, view (f v) = view v) : ∀ es : List (String × α),
    (modify k f es).map (fun e => (e.1, view e.2)) = es.map fun e => (e.1, view e.2)
  | [] => rfl
  | (x, u) :: rest => by
    have ih := map_modify_of_view view k h rest
    unfold modify
    split
    · rw [List.map_cons, List.map_cons, h]
    · rw [List.map_cons, List.map_cons, ih]

end Entries

/-! ### The place of an insertion -/

/-- An insertion splits the sequence at one point. -/
theorem insertBefore_split (anchor : Option String) (node : Node) (nodes : List Node) :
    ∃ xs ys, nodes = xs ++ ys ∧ insertBefore anchor node nodes = xs ++ node :: ys := by
  cases anchor with
  | none => exact ⟨nodes, [], (List.append_nil nodes).symm, rfl⟩
  | some name => exact ⟨_, _, List.takeWhile_append_dropWhile.symm, rfl⟩

theorem mem_insertBefore {anchor : Option String} {node m : Node} {nodes : List Node} :
    m ∈ insertBefore anchor node nodes ↔ m = node ∨ m ∈ nodes := by
  obtain ⟨xs, ys, hsplit, hins⟩ := insertBefore_split anchor node nodes
  rw [hins, hsplit, List.mem_append, List.mem_append, List.mem_cons]
  exact or_left_comm

/-- Where a node is inserted depends on names, and names are kept by refreshing. -/
theorem refreshAll_insertBefore (groups : List ScopeGroup) (anchor : Option String) (node : Node)
    (nodes : List Node) :
    Node.refreshAll groups (insertBefore anchor node nodes) =
      insertBefore anchor (node.refresh groups) (Node.refreshAll groups nodes) := by
  simp only [Node.refreshAll_eq_map]
  cases anchor with
  | none => rw [insertBefore, insertBefore, List.map_append, List.map_singleton]
  | some name =>
    have hname : ((fun n : Node => decide (n.name ≠ some name)) ∘ Node.refresh groups) =
        fun n => decide (n.name ≠ some name) := by
      funext n
      simp
    rw [insertBefore, insertBefore, List.takeWhile_map, List.dropWhile_map, hname, List.map_append,
      List.map_cons]

/-! ### Sections -/

attribute [ext] Document

/-- A node with its nested nodes changed, if it has some. -/
def Node.mapChildren (f : List Node → List Node) (n : Node) : Node :=
  { n with children := n.children.map f }

theorem Node.mapChildren_mapChildren (f g : List Node → List Node) (n : Node) :
    (n.mapChildren f).mapChildren g = n.mapChildren (g ∘ f) := by
  rw [mapChildren, mapChildren, mapChildren, Option.map_map]

theorem Node.mapChildren_eq_self {f : List Node → List Node} {n : Node}
    (h : n.children.map f = n.children) : n.mapChildren f = n := by
  rw [mapChildren, h]
  cases n
  rfl

namespace Document

theorem repository_refresh (groups : List ScopeGroup) (d : Document) :
    (d.refresh groups).repository =
      d.repository.map fun e => (e.1, e.2.mapChildren (Node.refreshAll groups)) :=
  rfl

theorem repository_modifySection (d : Document) (name : String) (f : List Node → List Node) :
    (d.modifySection name f).repository =
      Entries.modify name (Node.mapChildren f) d.repository :=
  rfl

/-- A section with patterns: changing them changes this section where it stands. -/
theorem modifySection_of_patterns {d : Document} {name : String} {nodes : List Node}
    (h : d.sectionPatterns? name = some nodes) :
    ∃ xs s ys, d.repository = xs ++ (name, s) :: ys ∧ name ∉ Entries.keys xs ∧
      s.children = some nodes ∧ ∀ f, (d.modifySection name f).repository =
        xs ++ (name, s.mapChildren f) :: ys := by
  obtain ⟨s, hs, hc⟩ := Option.bind_eq_some_iff.mp h
  obtain ⟨xs, ys, hes, hk, hmod⟩ := Entries.modify_of_lookup hs
  exact ⟨xs, s, ys, hes, hk, hc, fun f => hmod (Node.mapChildren f)⟩

theorem sectionPatterns?_modifySection (d : Document) (name other : String)
    (f : List Node → List Node) :
    (d.modifySection name f).sectionPatterns? other =
      if other = name then (d.sectionPatterns? name).map f else d.sectionPatterns? other := by
  rw [sectionPatterns?, section?, repository_modifySection, Entries.lookup_modify]
  split
  · rw [sectionPatterns?, section?]
    cases d.repository.lookup name <;> rfl
  · rfl

theorem isSome_sectionPatterns?_modifySection (d : Document) (name other : String)
    (f : List Node → List Node) :
    ((d.modifySection name f).sectionPatterns? other).isSome =
      (d.sectionPatterns? other).isSome := by
  rw [sectionPatterns?_modifySection]
  split
  · rename_i h
    rw [h, Option.isSome_map]
  · rfl

theorem sectionPatterns?_refresh (groups : List ScopeGroup) (d : Document) (name : String) :
    (d.refresh groups).sectionPatterns? name =
      (d.sectionPatterns? name).map (Node.refreshAll groups) := by
  rw [sectionPatterns?, section?, repository_refresh, Entries.lookup_map]
  rw [sectionPatterns?, section?]
  cases d.repository.lookup name <;> rfl

theorem isSome_sectionPatterns?_refresh (groups : List ScopeGroup) (d : Document) (name : String) :
    ((d.refresh groups).sectionPatterns? name).isSome = (d.sectionPatterns? name).isSome := by
  rw [sectionPatterns?_refresh, Option.isSome_map]

/-- Refreshing after a change of a section is the refreshed change after refreshing. -/
theorem refresh_modifySection (groups : List ScopeGroup) (d : Document) (name : String)
    {f g : List Node → List Node}
    (h : ∀ nodes, Node.refreshAll groups (f nodes) = g (Node.refreshAll groups nodes)) :
    (d.modifySection name f).refresh groups = (d.refresh groups).modifySection name g := by
  have hfg : Node.refreshAll groups ∘ f = g ∘ Node.refreshAll groups := funext h
  have hrepository : ((d.modifySection name f).refresh groups).repository =
      ((d.refresh groups).modifySection name g).repository := by
    rw [repository_refresh, repository_modifySection, repository_modifySection, repository_refresh]
    refine Entries.map_modify name (fun s => ?_) d.repository
    rw [Node.mapChildren_mapChildren, Node.mapChildren_mapChildren, hfg]
  exact Document.ext rfl rfl hrepository rfl rfl

end Document

/-! ### The walk -/

/-- Whether a node has a scope as its name and has an expression. -/
def Node.managedFor (scope : String) (n : Node) : Bool :=
  n.name = some scope && n.regex.isSome

namespace Document

/-- The nodes of the refreshed sequences, each with the label of its sequence. -/
def walk (d : Document) : List (String × Node) :=
  d.sequences.flatMap fun s => (Node.preorderAll s.2).map (s.1, ·)

/-- Whether a node of the walk is managed for a scope. -/
def manages (d : Document) (scope : String) : Bool :=
  d.walk.any (·.2.managedFor scope)

/-- The part of the walk that goes through a section. -/
def sectionWalk (e : String × Node) : List (String × Node) :=
  (Node.preorderAll (e.2.children.getD [])).map (sectionLabel e.1, ·)

theorem walk_eq (d : Document) : d.walk =
    (Node.preorderAll d.patterns).map (topLabel, ·) ++ d.repository.flatMap sectionWalk := by
  have hsections : ∀ es : List (String × Node),
      ((es.filterMap fun e => e.2.children.map fun nodes => (sectionLabel e.1, nodes)).flatMap
        fun s => (Node.preorderAll s.2).map (s.1, ·)) = es.flatMap sectionWalk := by
    intro es
    induction es with
    | nil => rfl
    | cons e es ih =>
      rw [List.filterMap_cons, List.flatMap_cons, ← ih, sectionWalk]
      cases e.2.children <;> rfl
  rw [walk, sequences, List.flatMap_cons, hsections]

theorem sectionWalk_refresh (groups : List ScopeGroup) (e : String × Node) :
    sectionWalk (e.1, e.2.mapChildren (Node.refreshAll groups)) =
      (sectionWalk e).map fun w => (w.1, w.2.refresh groups) := by
  rw [sectionWalk, sectionWalk, List.map_map]
  cases hc : e.2.children with
  | none => simp [Node.mapChildren, hc, Node.preorderAll]
  | some nodes =>
    simp only [Node.mapChildren, hc, Option.map_some, Option.getD_some,
      Node.preorderAll_refreshAll, List.map_map, Function.comp_def]

theorem walk_refresh (groups : List ScopeGroup) (d : Document) :
    (d.refresh groups).walk = d.walk.map fun w => (w.1, w.2.refresh groups) := by
  have htop : (d.refresh groups).patterns = Node.refreshAll groups d.patterns := rfl
  rw [walk_eq, walk_eq, htop, Node.preorderAll_refreshAll, repository_refresh, List.flatMap_map,
    List.map_append, List.map_map, List.map_map, List.map_flatMap]
  congr 1
  exact List.flatMap_congr fun e _ => sectionWalk_refresh groups e

/-- The patterns of a section are on the walk, in order and under its label. -/
theorem section_sublist_walk {d : Document} {name : String} {nodes : List Node}
    (h : d.sectionPatterns? name = some nodes) :
    (nodes.map (sectionLabel name, ·)).Sublist d.walk := by
  obtain ⟨xs, s, ys, hrep, -, hc, -⟩ := modifySection_of_patterns h
  have hsection : sectionWalk (name, s) = (Node.preorderAll nodes).map (sectionLabel name, ·) := by
    rw [sectionWalk, hc, Option.getD_some]
  rw [walk_eq, hrep, List.flatMap_append, List.flatMap_cons, hsection]
  refine ((Node.sublist_preorderAll nodes).map _).trans ?_
  refine List.Sublist.trans ?_ (List.sublist_append_right _ _)
  exact (List.sublist_append_left _ _).trans (List.sublist_append_right _ _)

/-- A leaf inserted into a section comes into the walk once, and all else stays in it. -/
theorem walk_insertBefore {d : Document} {name : String}
    (h : (d.sectionPatterns? name).isSome) (anchor : Option String) {node : Node}
    (hleaf : node.children = none) :
    (d.modifySection name (insertBefore anchor node)).walk.Perm
      ((sectionLabel name, node) :: d.walk) := by
  obtain ⟨nodes, hnodes⟩ := Option.isSome_iff_exists.mp h
  obtain ⟨xs, s, ys, hrep, -, hc, hmod⟩ := modifySection_of_patterns hnodes
  obtain ⟨before, after, hsplit, hins⟩ := insertBefore_split anchor node nodes
  have hpreorder : node.preorder = [node] := by
    rw [Node.preorder_eq, hleaf]
    rfl
  have hsection : (sectionWalk (name, s.mapChildren (insertBefore anchor node))).Perm
      ((sectionLabel name, node) :: sectionWalk (name, s)) := by
    simp only [sectionWalk, Node.mapChildren, hc, Option.map_some, Option.getD_some, hins]
    rw [hsplit, Node.preorderAll_append, Node.preorderAll_append, Node.preorderAll, hpreorder,
      List.map_append, List.map_append, List.map_append]
    exact List.perm_middle
  have htop : (d.modifySection name (insertBefore anchor node)).patterns = d.patterns := rfl
  rw [walk_eq, walk_eq, htop, hmod, hrep, List.flatMap_append, List.flatMap_append,
    List.flatMap_cons, List.flatMap_cons]
  refine List.Perm.trans ?_ List.perm_middle
  refine List.Perm.append_left _ (List.Perm.trans ?_ List.perm_middle)
  exact List.Perm.append_left _ (hsection.append_right _)

/-! ### What refreshing finds on the walk -/

theorem manages_iff {d : Document} {scope : String} :
    d.manages scope ↔ ∃ w ∈ d.walk, w.2.managedFor scope :=
  List.any_eq_true

/-- Where a scope has no managed node, no pattern of a section is managed for it. -/
theorem managedFor_eq_false {d : Document} {name scope : String} {nodes : List Node}
    (h : d.sectionPatterns? name = some nodes) (hman : d.manages scope = false) :
    ∀ n ∈ nodes, n.managedFor scope = false := by
  intro n hn
  have hwalk : (sectionLabel name, n) ∈ d.walk :=
    (section_sublist_walk h).subset (List.mem_map.mpr ⟨n, hn, rfl⟩)
  cases hmanaged : n.managedFor scope with
  | false => rfl
  | true =>
    have hmanages : d.manages scope = true := manages_iff.mpr ⟨_, hwalk, hmanaged⟩
    exact hmanages.symm.trans hman

/-- The managed scopes are those of the table for which the walk has a managed node. -/
theorem mem_managedScopes (t : ScopeTable) (taxonomy : Taxonomy) (d : Document) (scope : String) :
    scope ∈ d.managedScopes (t.groups taxonomy) ↔ (t.rule? scope).isSome ∧ d.manages scope := by
  have hmanaged : ∀ n : Node, (managing? (t.groups taxonomy) n).map (·.scope) = some scope ↔
      (t.rule? scope).isSome ∧ n.managedFor scope := by
    intro n
    rw [managing?_groups, Option.map_map, Option.map_eq_some_iff]
    constructor
    · rintro ⟨r, hr, rfl⟩
      obtain ⟨hname, hregex, hrule⟩ := t.manager?_eq_some hr
      exact ⟨by rw [Function.comp_apply, Rule.group, hrule]; rfl,
        by simp [Node.managedFor, hname, hregex, Rule.group]⟩
    · rintro ⟨hrule, hn⟩
      obtain ⟨r, hr⟩ := Option.isSome_iff_exists.mp hrule
      obtain ⟨hname, hregex⟩ : n.name = some scope ∧ n.regex.isSome := by
        simpa [Node.managedFor] using hn
      have hscope : r.scope = scope := by simpa using List.find?_some hr
      exact ⟨r, (t.manager?_of_name hname hregex).trans hr, hscope⟩
  simp only [managedScopes, GrammarSync.managedScopes, WordSet.mem_ofList, List.mem_flatMap,
    List.mem_filterMap, hmanaged, manages_iff, walk, List.mem_map]
  constructor
  · rintro ⟨s, hs, n, hn, hrule, hman⟩
    exact ⟨hrule, (s.1, n), ⟨s, hs, n, hn, rfl⟩, hman⟩
  · rintro ⟨hrule, _, ⟨s, hs, n, hn, rfl⟩, hman⟩
    exact ⟨s, hs, n, hn, hrule, hman⟩

/-- The changes are read off the walk. -/
theorem refreshChanges_eq (groups : List ScopeGroup) (d : Document) :
    d.refreshChanges groups = d.walk.filterMap fun w => refreshChange? groups w.1 w.2 := by
  rw [refreshChanges, walk, List.filterMap_flatMap]
  refine List.flatMap_congr fun s _ => ?_
  rw [GrammarSync.refreshChanges, List.filterMap_map]
  rfl

/-- Refreshing makes updates only. -/
theorem isUpdated_of_mem_refreshChanges {groups : List ScopeGroup} {d : Document} {c : Change}
    (h : c ∈ d.refreshChanges groups) : c.isUpdated = true := by
  rw [refreshChanges_eq] at h
  obtain ⟨w, -, hc⟩ := List.mem_filterMap.mp h
  unfold refreshChange? at hc
  split at hc
  · split at hc
    · cases hc
    · cases hc
      rfl
  · cases hc

end Document
end GrammarSync
