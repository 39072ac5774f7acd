/-
# One walk does it all

A run walks through a grammar once (`Document.update`). The tally goes from
node to node: a node adds its scope and its change behind what the nodes before
it left, then the nodes nested in it add theirs. By induction along the walk
what comes out is the refreshed grammar, and the tally has been extended by
the scopes of the managed nodes and by the changes, both in the order of the
walk (`Node.updateAll_eq`, `Document.update_eq`). So what refreshing does, and
what it notes, may be looked at apart.

Key definitions: `Tally.extend`.
Key theorems: `Node.visit_eq`, `Node.update_eq`, `Node.updateAll_eq`,
`Document.update_eq`.
-/
import GrammarSync.Proofs.Walk
import Mathlib.Data.List.Basic

namespace GrammarSync

namespace Tally

/-- A tally with more scopes, and with more changes behind those it has. -/
def extend (s : Tally) (scopes : List String) (changes : ChangeLog) : Tally :=
  ⟨s.handled.insertAll scopes, s.changes ++ changes⟩

theorem extend_nil (s : Tally) : s.extend [] [] = s := by
  rw [extend, List.append_nil]
  rfl

theorem extend_extend (s : Tally) (scopes scopes' : List String) (changes changes' : ChangeLog) :
    (s.extend scopes changes).extend scopes' changes' =
      s.extend (scopes ++ scopes') (changes ++ changes') := by
  simp only [extend, WordSet.insertAll, List.foldl_append, List.append_assoc]

end Tally

variable (groups : List ScopeGroup) (label : String)

namespace Node

/-! ### Nodes -/

/-- A visit refreshes the expression of a node, and notes its scope and its change, if any. -/
theorem visit_eq (n : Node) (s : Tally) : n.visit groups label s =
    ({ n with regex := refreshedRegex groups n },
      s.extend ((managing? groups n).map (·.scope)).toList
        (refreshChange? groups label n).toList) := by
  obtain ⟨name, regex, comment, children, rest, order⟩ := n
  unfold visit refreshedRegex refreshChange? managing?
  cases name with
  | none => exact Prod.ext rfl s.extend_nil.symm
  | some scope =>
    cases regex with
    | none =>
      cases hg : ScopeGroup.find? groups scope with
      | none => simp [hg, s.extend_nil]
      | some g => simp [hg, s.extend_nil]
    | some current =>
      cases hg : ScopeGroup.find? groups scope with
      | none => simp [hg, s.extend_nil]
      | some g =>
        by_cases hc : current = g.regex
        · simp [hg, hc, Tally.extend, WordSet.insertAll]
        · simp [hg, hc, Tally.extend, WordSet.insertAll, setRegex]

/-- A node is visited before the nodes nested in it. -/
theorem update_eq_visit (n : Node) (s : Tally) : n.update groups label s =
    (n.visit groups label s).1.updateSection groups label (n.visit groups label s).2 := by
  have hchildren : (n.visit groups label s).1.children = n.children := by rw [visit_eq]
  rw [updateSection, hchildren]
  match n with
  | ⟨_, _, _, none, _, _⟩ => rfl
  | ⟨_, _, _, some _, _, _⟩ => rfl

/-- What the walk makes of each node of a sequence it makes of the sequence. -/
theorem updateAll_eq_of : ∀ (nodes : List Node) (s : Tally),
    (∀ n ∈ nodes, ∀ s, n.update groups label s = (n.refresh groups,
      s.extend (managedScopes groups [n]) (refreshChanges groups label [n]))) →
    updateAll groups label nodes s = (refreshAll groups nodes,
      s.extend (managedScopes groups nodes) (refreshChanges groups label nodes))
  | [], s, _ => by
    rw [updateAll, refreshAll]
    exact Prod.ext rfl s.extend_nil.symm
  | n :: nodes, s, h => by
    have ih := updateAll_eq_of nodes (s.extend (managedScopes groups [n])
      (refreshChanges groups label [n])) fun m hm => h m (List.mem_cons_of_mem n hm)
    have hpreorder : preorderAll (n :: nodes) = preorderAll [n] ++ preorderAll nodes :=
      preorderAll_append [n] nodes
    rw [updateAll, h n List.mem_cons_self, refreshAll]
    dsimp only
    rw [ih, Tally.extend_extend]
    simp only [managedScopes, refreshChanges, hpreorder, List.filterMap_append]

/-- The walk through the nodes nested in a node. -/
theorem updateSection_eq_of (n : Node) (s : Tally)
    (h : ∀ nodes, n.children = some nodes → ∀ m ∈ nodes, ∀ s, m.update groups label s =
      (m.refresh groups, s.extend (managedScopes groups [m]) (refreshChanges groups label [m]))) :
    n.updateSection groups label s = (n.mapChildren (refreshAll groups),
      s.extend (managedScopes groups (n.children.getD []))
        (refreshChanges groups label (n.children.getD []))) := by
  rw [updateSection]
  cases hc : n.children with
  | none =>
    have hsame : n.mapChildren (refreshAll groups) = n := mapChildren_eq_self (by rw [hc]; rfl)
    rw [hsame]
    exact Prod.ext rfl s.extend_nil.symm
  | some nodes =>
    have hnodes := updateAll_eq_of groups label nodes s (h nodes hc)
    dsimp only
    rw [hnodes, mapChildren, hc]
    rfl

/-- The walk through a node and the nodes nested in it. -/
theorem update_eq (n : Node) : ∀ s : Tally, n.update groups label s = (n.refresh groups,
    s.extend (managedScopes groups [n]) (refreshChanges groups label [n])) := by
  induction n using induction with
  | step n ih =>
    intro s
    have hpreorder : preorderAll [n] = n :: preorderAll (n.children.getD []) := by
      rw [preorderAll, preorderAll, List.append_nil, preorder_eq]
    have hnested := fun s => updateSection_eq_of groups label
      { n with regex := refreshedRegex groups n } s ih
    rw [update_eq_visit, visit_eq]
    dsimp only
    rw [hnested, Tally.extend_extend, refresh_eq]
    simp only [managedScopes, refreshChanges, hpreorder, List.filterMap_cons]
    cases managing? groups n <;> cases refreshChange? groups label n <;> rfl

/-- The walk through a sequence refreshes it; the scopes and the changes come behind those that
there were, in pre-order. -/
theorem updateAll_eq (nodes : List Node) (s : Tally) : updateAll groups label nodes s =
    (refreshAll groups nodes,
      s.extend (managedScopes groups nodes) (refreshChanges groups label nodes)) :=
  updateAll_eq_of groups label nodes s fun n _ => n.update_eq groups label

end Node

/-! ### Grammars -/

namespace Document

/-- The sequences of sections, each with its label. -/
def sectionSequences (es : List (String × Node)) : List (String × List Node) :=
  es.filterMap fun e => e.2.children.map fun nodes => (sectionLabel e.1, nodes)

theorem sectionSequences_cons (e : String × Node) (es : List (String × Node)) :
    sectionSequences (e :: es) =
      (e.2.children.map fun nodes => (sectionLabel e.1, nodes)).toList ++ sectionSequences es := by
  rw [sectionSequences, sectionSequences, List.filterMap_cons]
  cases e.2.children <;> rfl

/-- The walk through sections refreshes their sequences, in order. -/
theorem updateSections_eq : ∀ (es : List (String × Node)) (s : Tally),
    updateSections groups es s = (es.map fun e => (e.1, e.2.mapChildren (Node.refreshAll groups)),
      s.extend ((sectionSequences es).flatMap fun q => GrammarSync.managedScopes groups q.2)
        ((sectionSequences es).flatMap fun q => GrammarSync.refreshChanges groups q.1 q.2))
  | [], s => Prod.ext rfl s.extend_nil.symm
  | (name, n) :: es, s => by
    have hsection := n.updateSection_eq_of groups (sectionLabel name) s
      fun _ _ m _ => m.update_eq groups (sectionLabel name)
    have ih := updateSections_eq es
    rw [updateSections, hsection]
    dsimp only
    rw [ih, Tally.extend_extend, List.map_cons, sectionSequences_cons, List.flatMap_append,
      List.flatMap_append]
    cases n.children with
    | none => rfl
    | some nodes => simp

/-- **The walk through a grammar.** It leaves the refreshed grammar, the set of the scopes with a
managed node, and a log with the changes in the order of the walk, behind what it had. -/
theorem update_eq (log : ChangeLog) (d : Document) : d.update groups log =
    (d.refresh groups, ⟨d.managedScopes groups, log ++ d.refreshChanges groups⟩) := by
  have hsequences : d.sequences = (topLabel, d.patterns) :: sectionSequences d.repository := rfl
  rw [update, Node.updateAll_eq]
  dsimp only
  rw [updateSections_eq, Tally.extend_extend, managedScopes, refreshChanges, hsequences,
    List.flatMap_cons, List.flatMap_cons]
  rfl

end Document
end GrammarSync
