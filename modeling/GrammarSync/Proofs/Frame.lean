/-
# What a run leaves alone

A run changes expressions of managed nodes and adds patterns, and nothing
else. `Node.Kept` says that a node differs from another at most in
expressions of nodes with a name of the table, at any depth; `Document.Kept`
says it of the sequences of two grammars that agree in all else, the sections'
own nodes included. A grammar and its refreshing are so related
(`Document.kept_refresh`), and a run without its additions is a refreshing, so
the additions are all that a run puts in (`run_keeps_all_else`).

Key definitions: `Node.Kept`, `Node.KeptSection`, `Document.Kept`.
Key theorems: `Node.kept_refresh`, `Document.kept_refresh`,
`run_keeps_all_else`.
-/
import GrammarSync.Proofs.Undo
import Mathlib.Data.List.Basic
import Mathlib.Data.List.Forall2

namespace GrammarSync

/-- Two nodes that are the same but for expressions of nodes with a name of the table, at any depth:
a node keeps its keys in their order, its raw values, its name and its comment, and it has an
expression after as before. -/
inductive Node.Kept (t : ScopeTable) : Node → Node → Prop
  | node {n m : Node} (name : m.name = n.name) (comment : m.comment = n.comment)
      (rest : m.rest = n.rest) (order : m.order = n.order)
      (regex : m.regex = n.regex ∨ ∃ scope r, n.name = some scope ∧ t.rule? scope = some r ∧
        n.regex.isSome ∧ m.regex.isSome)
      (children : Option.Rel (List.Forall₂ (Node.Kept t)) n.children m.children) : Node.Kept t n m

/-- Two nodes of sections that are the same themselves and whose nested nodes are kept. -/
structure Node.KeptSection (t : ScopeTable) (n m : Node) : Prop where
  name : m.name = n.name
  regex : m.regex = n.regex
  comment : m.comment = n.comment
  rest : m.rest = n.rest
  order : m.order = n.order
  children : Option.Rel (List.Forall₂ (Node.Kept t)) n.children m.children

/-- Two grammars with the same keys in the same order and the same values, but for expressions of
nodes with a name of the table in the top sequence and in the sections' sequences. -/
structure Document.Kept (t : ScopeTable) (d e : Document) : Prop where
  scopeName : e.scopeName = d.scopeName
  rest : e.rest = d.rest
  order : e.order = d.order
  patterns : List.Forall₂ (Node.Kept t) d.patterns e.patterns
  repository : List.Forall₂ (fun s s' => s'.1 = s.1 ∧ Node.KeptSection t s.2 s'.2)
    d.repository e.repository

variable (t : ScopeTable) (taxonomy : Taxonomy)

/-- Nodes that are kept one by one are kept as a sequence, if there is one. -/
theorem Node.kept_children {children : Option (List Node)}
    (h : ∀ nodes, children = some nodes →
      ∀ m ∈ nodes, Node.Kept t m (m.refresh (t.groups taxonomy))) :
    Option.Rel (List.Forall₂ (Node.Kept t)) children
      (children.map (Node.refreshAll (t.groups taxonomy))) := by
  cases children with
  | none => exact .none
  | some nodes =>
    rw [Option.map_some, Node.refreshAll_eq_map]
    refine .some ?_
    rw [List.forall₂_map_right_iff, List.forall₂_same]
    exact h nodes rfl

/-- A refreshed node is kept. -/
theorem Node.kept_refresh (n : Node) : Node.Kept t n (n.refresh (t.groups taxonomy)) := by
  induction n using Node.induction with
  | step n ih =>
    refine .node (by rw [refresh_eq]) (by rw [refresh_eq]) (by rw [refresh_eq])
      (by rw [refresh_eq]) ?_ ?_
    · rw [refresh_regex, refreshedRegex_groups]
      cases hr : t.manager? n with
      | none => exact .inl rfl
      | some r =>
        obtain ⟨hname, hregex, hrule⟩ := t.manager?_eq_some hr
        exact .inr ⟨r.scope, r, hname, hrule, hregex, rfl⟩
    · rw [refresh_children]
      exact kept_children t taxonomy ih

/-- A refreshed grammar is kept. -/
theorem Document.kept_refresh (d : Document) : d.Kept t (d.refresh (t.groups taxonomy)) where
  scopeName := rfl
  rest := rfl
  order := rfl
  patterns := by
    have hpatterns : (d.refresh (t.groups taxonomy)).patterns =
        d.patterns.map (Node.refresh (t.groups taxonomy)) :=
      Node.refreshAll_eq_map _ _
    rw [hpatterns, List.forall₂_map_right_iff, List.forall₂_same]
    exact fun n _ => Node.kept_refresh t taxonomy n
  repository := by
    rw [repository_refresh, List.forall₂_map_right_iff, List.forall₂_same]
    exact fun e _ => ⟨rfl, rfl, rfl, rfl, rfl, rfl,
      Node.kept_children t taxonomy fun _ _ m _ => Node.kept_refresh t taxonomy m⟩

theorem Document.keys_refresh (groups : List ScopeGroup) (d : Document) :
    Entries.keys (d.refresh groups).repository = Entries.keys d.repository := by
  rw [repository_refresh, Entries.keys, List.map_map]
  rfl

/-- **A run destroys nothing.** Every added pattern can be taken out of its section again, one for
each record of an addition. What remains is the grammar as it was, but for expressions of nodes with
a name of the table; no section is created, and nothing is put into the top sequence. -/
theorem run_keeps_all_else (d : Document) :
    ∃ e, (synchronize t taxonomy d).1.takeOutAll? (synchronize t taxonomy d).2.changes = some e ∧
      d.Kept t e ∧
      (synchronize t taxonomy d).1.walk.length =
        e.walk.length + ((synchronize t taxonomy d).2.changes.filter Change.isAdded).length ∧
      (synchronize t taxonomy d).1.patterns = e.patterns ∧
      Entries.keys (synchronize t taxonomy d).1.repository = Entries.keys d.repository := by
  have hkeys := Document.keys_addAll t taxonomy (t.runAdditions d) (d.refresh (t.groups taxonomy))
  refine ⟨d.refresh (t.groups taxonomy), takeOutAll?_synchronize t taxonomy d,
    Document.kept_refresh t taxonomy d, ?_, ?_, ?_⟩
  · rw [(walk_synchronize t taxonomy d).length_eq, filter_isAdded_changes, List.length_append,
      List.length_map, List.length_map, Document.walk_refresh, List.length_map, List.length_map]
    omega
  · rw [document_synchronize]
    exact hkeys.2
  · rw [document_synchronize, hkeys.1, Document.keys_refresh]

end GrammarSync
