/-
# Refreshing, node by node

Refreshing changes nothing of a node but its expression, at every depth
(`Node.refresh_eq`), and it commutes with listing the nodes of a sequence
(`Node.preorderAll_refreshAll`). Which rule manages a node depends on the
table and on the node's name, not on a taxonomy (`ScopeTable.manager?`,
`managing?_groups`), so of two refreshings by one table only the second
counts (`Node.refresh_refresh`).

Key definitions: `ScopeTable.manager?`.
Key theorems: `Node.induction`, `Node.refresh_eq`,
`Node.preorderAll_refreshAll`, `managing?_groups`, `Node.refresh_refresh`.
-/
import GrammarSync.Sync.Refresh
import Mathlib.Data.List.Basic

namespace GrammarSync

/-! ### Nodes and the nodes nested in them -/

namespace Node

mutual
/-- What holds of a node as soon as it holds of the nodes nested in it holds of every node. -/
theorem induction {P : Node → Prop}
    (step : ∀ n : Node, (∀ nodes, n.children = some nodes → ∀ m ∈ nodes, P m) → P n) :
    ∀ n : Node, P n
  | ⟨_, _, _, none, _, _⟩ => step _ fun _ h => nomatch h
  | ⟨_, _, _, some nodes, _, _⟩ => step _ fun ns h m hm => by
    have hns : nodes = ns := Option.some.inj h
    exact inductionAll step nodes m (hns ▸ hm)

theorem inductionAll {P : Node → Prop}
    (step : ∀ n : Node, (∀ nodes, n.children = some nodes → ∀ m ∈ nodes, P m) → P n) :
    ∀ nodes : List Node, ∀ m ∈ nodes, P m
  | [], _, hm => absurd hm List.not_mem_nil
  | n :: rest, m, hm => by
    rcases List.mem_cons.mp hm with hm | hm
    · exact hm ▸ induction step n
    · exact inductionAll step rest m hm
end

theorem preorderAll_eq_flatMap : ∀ nodes : List Node, preorderAll nodes = nodes.flatMap preorder
  | [] => rfl
  | n :: rest => by rw [preorderAll, preorderAll_eq_flatMap rest, List.flatMap_cons]

theorem preorderAll_append (xs ys : List Node) :
    preorderAll (xs ++ ys) = preorderAll xs ++ preorderAll ys := by
  simp only [preorderAll_eq_flatMap, List.flatMap_append]

/-- A node comes before the nodes nested in it. -/
theorem preorder_eq : ∀ n : Node, n.preorder = n :: preorderAll (n.children.getD [])
  | ⟨_, _, _, none, _, _⟩ => rfl
  | ⟨_, _, _, some _, _, _⟩ => rfl

theorem sublist_preorderAll : ∀ nodes : List Node, nodes.Sublist (preorderAll nodes)
  | [] => List.Sublist.slnil
  | n :: rest => by
    rw [preorderAll, preorder_eq, List.cons_append]
    exact ((sublist_preorderAll rest).trans (List.sublist_append_right _ _)).cons_cons n

variable (groups : List ScopeGroup)

theorem refreshAll_eq_map : ∀ nodes : List Node,
    refreshAll groups nodes = nodes.map (refresh groups)
  | [] => rfl
  | n :: rest => by rw [refreshAll, refreshAll_eq_map rest, List.map_cons]

/-- Refreshing changes the expression and refreshes what is nested. -/
theorem refresh_eq : ∀ n : Node, n.refresh groups =
    { n with
      regex := refreshedRegex groups n
      children := n.children.map (refreshAll groups) }
  | ⟨_, _, _, none, _, _⟩ => rfl
  | ⟨_, _, _, some _, _, _⟩ => rfl

@[simp] theorem refresh_name (n : Node) : (n.refresh groups).name = n.name := by
  rw [refresh_eq]

@[simp] theorem refresh_regex (n : Node) : (n.refresh groups).regex = refreshedRegex groups n := by
  rw [refresh_eq]

@[simp] theorem refresh_children (n : Node) :
    (n.refresh groups).children = n.children.map (refreshAll groups) := by
  rw [refresh_eq]

theorem preorder_refresh (n : Node) :
    (n.refresh groups).preorder = n.preorder.map (refresh groups) := by
  induction n using induction with
  | step n ih =>
    rw [preorder_eq, preorder_eq n, refresh_children, List.map_cons]
    congr 1
    cases hc : n.children with
    | none => rfl
    | some nodes =>
      simp only [Option.map_some, Option.getD_some, preorderAll_eq_flatMap, refreshAll_eq_map,
        List.flatMap_map, List.map_flatMap]
      exact List.flatMap_congr fun m hm => ih nodes hc m hm

/-- The nodes of a refreshed sequence are the refreshed nodes of the sequence, in order. -/
theorem preorderAll_refreshAll (nodes : List Node) :
    preorderAll (refreshAll groups nodes) = (preorderAll nodes).map (refresh groups) := by
  simp only [preorderAll_eq_flatMap, refreshAll_eq_map, List.flatMap_map, List.map_flatMap,
    preorder_refresh]

end Node

/-! ### The rule that manages a node -/

/-- The rule of a node with an expression: the first rule of the scope that is the node's name. -/
def ScopeTable.manager? (t : ScopeTable) (n : Node) : Option Rule :=
  match n.name, n.regex with
  | some name, some _ => t.rule? name
  | _, _ => none

variable (t : ScopeTable) (taxonomy : Taxonomy)

/-- The first group of a scope is the group of the scope's first rule. -/
theorem find?_groups (scope : String) :
    ScopeGroup.find? (t.groups taxonomy) scope = (t.rule? scope).map (·.group taxonomy) := by
  rw [ScopeGroup.find?, ScopeTable.groups, List.find?_map]
  rfl

theorem managing?_groups (n : Node) :
    managing? (t.groups taxonomy) n = (t.manager? n).map (·.group taxonomy) := by
  unfold managing? ScopeTable.manager?
  cases n.name with
  | none => rfl
  | some name =>
    cases n.regex with
    | none => rfl
    | some _ => exact find?_groups t taxonomy name

theorem ScopeTable.manager?_eq_some {n : Node} {r : Rule} (h : t.manager? n = some r) :
    n.name = some r.scope ∧ n.regex.isSome ∧ t.rule? r.scope = some r := by
  unfold ScopeTable.manager? at h
  split at h
  · rename_i name regex hn hr
    have hs : r.scope = name := by simpa using List.find?_some h
    rw [hs]
    exact ⟨hn, by rw [hr]; rfl, h⟩
  · cases h

theorem ScopeTable.manager?_of_name {n : Node} {scope : String} (hn : n.name = some scope)
    (hr : n.regex.isSome) : t.manager? n = t.rule? scope := by
  obtain ⟨regex, hr⟩ := Option.isSome_iff_exists.mp hr
  rw [ScopeTable.manager?, hn, hr]

theorem ScopeTable.manager?_congr {m n : Node} (hn : m.name = n.name)
    (hr : m.regex.isSome = n.regex.isSome) : t.manager? m = t.manager? n := by
  unfold ScopeTable.manager?
  rw [hn]
  cases hm : m.regex with
  | none =>
    have hnone : n.regex = none := by simpa [hm] using hr.symm
    rw [hnone]
  | some _ =>
    obtain ⟨_, hsome⟩ := Option.isSome_iff_exists.mp (hr.symm.trans (by rw [hm]; rfl))
    rw [hsome]
    cases n.name <;> rfl

/-- A managed node is refreshed to its rule's expression, another keeps its own. -/
theorem refreshedRegex_groups (n : Node) : refreshedRegex (t.groups taxonomy) n =
    match t.manager? n with
    | some r => some (r.group taxonomy).regex
    | none => n.regex := by
  rw [refreshedRegex, managing?_groups]
  cases t.manager? n <;> rfl

theorem isSome_refreshedRegex (n : Node) :
    (refreshedRegex (t.groups taxonomy) n).isSome = n.regex.isSome := by
  rw [refreshedRegex_groups]
  cases h : t.manager? n with
  | none => rfl
  | some r => rw [(t.manager?_eq_some h).2.1]; rfl

@[simp] theorem ScopeTable.manager?_refresh (n : Node) :
    t.manager? (n.refresh (t.groups taxonomy)) = t.manager? n :=
  t.manager?_congr (by simp) (by simp [isSome_refreshedRegex])

/-! ### Refreshing again -/

namespace Node

/-- Of two refreshings by one table only the second counts. -/
theorem refresh_refresh (first second : Taxonomy) (n : Node) :
    (n.refresh (t.groups first)).refresh (t.groups second) = n.refresh (t.groups second) := by
  induction n using induction with
  | step n ih =>
    rw [refresh_eq, refresh_eq (t.groups second) n, refreshedRegex_groups,
      refreshedRegex_groups t second n, ScopeTable.manager?_refresh, refresh_eq (t.groups first) n]
    have hregex : (match t.manager? n with
        | some r => some (r.group second).regex
        | none => refreshedRegex (t.groups first) n) =
        match t.manager? n with
        | some r => some (r.group second).regex
        | none => n.regex := by
      cases h : t.manager? n with
      | none => simp only [refreshedRegex_groups, h]
      | some r => rfl
    have hchildren :
        (n.children.map (refreshAll (t.groups first))).map (refreshAll (t.groups second)) =
          n.children.map (refreshAll (t.groups second)) := by
      cases hc : n.children with
      | none => rfl
      | some nodes =>
        simp only [Option.map_some, refreshAll_eq_map, List.map_map]
        exact congrArg some (List.map_congr_left fun m hm => ih nodes hc m hm)
    simp only [hregex, hchildren]

theorem refreshAll_refreshAll (first second : Taxonomy) (nodes : List Node) :
    refreshAll (t.groups second) (refreshAll (t.groups first) nodes) =
      refreshAll (t.groups second) nodes := by
  simp only [refreshAll_eq_map, List.map_map]
  exact List.map_congr_left fun n _ => refresh_refresh t first second n

end Node
end GrammarSync
