/-
# Taking additions out again

An addition in a log names a section, a scope and an expression. Taking it out
removes the first node of that name and expression from the section's own
sequence, and there is no result if the section has none. Taken out newest
first, the additions of a run give the refreshed grammar
(`takeOutAll?_synchronize`): no node of the grammar was managed for an added
scope, so each record takes out the node that was inserted for it.

Key definitions: `Node.reads`, `Document.takeOut?`, `Document.takeOutAll?`.
Key theorems: `eraseP_insertBefore`, `Document.takeOut?_add`,
`Document.takeOutAll?_addAll`, `takeOutAll?_synchronize`.
-/
import GrammarSync.Proofs.Run
import Mathlib.Data.List.Basic

namespace GrammarSync

/-- Whether a node has a scope as its name and a given expression. -/
def Node.reads (scope regex : String) (n : Node) : Bool :=
  n.name = some scope && n.regex = some regex

namespace Document

/-- The document without the node that an addition reports, if the section has such a node.
Nothing is taken out for an update. -/
def takeOut? (d : Document) : Change → Option Document
  | .updated .. => some d
  | .added scope path regex => do
    let e ← d.repository.find? (sectionLabel ·.1 = path)
    let nodes ← d.sectionPatterns? e.1
    if nodes.any (Node.reads scope regex) then
      some (d.modifySection e.1 (·.eraseP (Node.reads scope regex)))
    else none

/-- The document without the nodes that the additions of a log report, the last one first. -/
def takeOutAll? (d : Document) : ChangeLog → Option Document
  | [] => some d
  | c :: log => (takeOutAll? d log).bind (·.takeOut? c)

end Document

/-! ### One addition -/

/-- An addition has the scope and the expression that its record says. -/
theorem Addition.reads_node (taxonomy : Taxonomy) (a : Addition) :
    (a.node taxonomy).reads a.rule.scope (a.rule.group taxonomy).regex = true := by
  simp [Node.reads, node, ScopeGroup.pattern, Node.generated, Rule.group]

theorem eraseP_insertBefore {p : Node → Bool} (anchor : Option String) {node : Node}
    {nodes : List Node} (hnode : p node = true) (hnodes : ∀ n ∈ nodes, p n = false) :
    (insertBefore anchor node nodes).eraseP p = nodes := by
  obtain ⟨xs, ys, hsplit, hins⟩ := insertBefore_split anchor node nodes
  have hxs : ∀ n ∈ xs, ¬ p n = true := by
    intro n hn
    rw [hnodes n (by rw [hsplit]; exact List.mem_append_left _ hn)]
    exact Bool.false_ne_true
  rw [hins, List.eraseP_append_right _ hxs, List.eraseP_cons_of_pos hnode, hsplit]

theorem sectionLabel_injective {a b : String} (h : sectionLabel a = sectionLabel b) : a = b :=
  (String.append_right_inj "repository.").mp h

namespace Document

/-- The label of a section with patterns leads back to it. -/
theorem find?_sectionLabel {d : Document} {name : String} {nodes : List Node}
    (h : d.sectionPatterns? name = some nodes) :
    ∃ s, d.repository.find? (sectionLabel ·.1 = sectionLabel name) = some (name, s) := by
  obtain ⟨xs, s, ys, hrep, hxs, -, -⟩ := modifySection_of_patterns h
  have hnone : xs.find? (fun e => decide (sectionLabel e.1 = sectionLabel name)) = none := by
    rw [List.find?_eq_none]
    intro e he hlabel
    have hname : e.1 = name := sectionLabel_injective (of_decide_eq_true hlabel)
    exact hxs (hname ▸ List.mem_map.mpr ⟨e, he, rfl⟩)
  refine ⟨s, ?_⟩
  rw [hrep, List.find?_append, hnone, Option.none_or]
  exact List.find?_cons_of_pos (decide_eq_true rfl)

theorem modifySection_modifySection (d : Document) (name : String) (f g : List Node → List Node) :
    (d.modifySection name f).modifySection name g = d.modifySection name (g ∘ f) := by
  have hrepository : ((d.modifySection name f).modifySection name g).repository =
      (d.modifySection name (g ∘ f)).repository := by
    rw [repository_modifySection, repository_modifySection, repository_modifySection,
      Entries.modify_modify]
    congr 1
    funext s
    exact Node.mapChildren_mapChildren f g s
  exact Document.ext rfl rfl hrepository rfl rfl

/-- A change that keeps the patterns of a section keeps the document. -/
theorem modifySection_eq_self {d : Document} {name : String} {nodes : List Node}
    (h : d.sectionPatterns? name = some nodes) {f : List Node → List Node} (hf : f nodes = nodes) :
    d.modifySection name f = d := by
  obtain ⟨xs, s, ys, hrep, -, hc, hmod⟩ := modifySection_of_patterns h
  have hs : s.mapChildren f = s := by
    refine Node.mapChildren_eq_self ?_
    rw [hc, Option.map_some, hf]
  have hrepository : (d.modifySection name f).repository = d.repository := by
    rw [hmod, hs, hrep]
  exact Document.ext rfl rfl hrepository rfl rfl

variable (t : ScopeTable) (taxonomy : Taxonomy)

/-- Where a scope has no managed node, no pattern of a section has it as its name and an
expression. -/
theorem reads_eq_false {d : Document} {name scope : String} {nodes : List Node}
    (h : d.sectionPatterns? name = some nodes) (hman : d.manages scope = false) (regex : String) :
    ∀ n ∈ nodes, n.reads scope regex = false := by
  intro n hn
  have hfree : n.managedFor scope = false := managedFor_eq_false h hman n hn
  rw [Node.managedFor, Bool.and_eq_false_imp] at hfree
  rw [Node.reads, Bool.and_eq_false_imp]
  intro hname
  have hregex : n.regex = none := by simpa using hfree hname
  rw [hregex]
  rfl

/-- An addition for a scope without a managed node is taken out again. -/
theorem takeOut?_add {d : Document} {a : Addition} (hopen : (d.sectionPatterns? a.target).isSome)
    (hman : d.manages a.rule.scope = false) :
    (d.add t taxonomy a).takeOut? (a.change taxonomy) = some d := by
  obtain ⟨nodes, hnodes⟩ := Option.isSome_iff_exists.mp hopen
  have hreads := a.reads_node taxonomy
  have hfree := reads_eq_false hnodes hman (a.rule.group taxonomy).regex
  have hsection := sectionPatterns?_add t taxonomy hnodes
  obtain ⟨s, hfind⟩ := find?_sectionLabel hsection
  have hany : (insertBefore (t.catchAll? a.target) (a.node taxonomy) nodes).any
      (Node.reads a.rule.scope (a.rule.group taxonomy).regex) = true :=
    List.any_eq_true.mpr ⟨_, mem_insertBefore.mpr (.inl rfl), hreads⟩
  have herase : (List.eraseP (Node.reads a.rule.scope (a.rule.group taxonomy).regex) ∘
      insertBefore (t.catchAll? a.target) (a.node taxonomy)) nodes = nodes :=
    eraseP_insertBefore _ hreads hfree
  rw [Addition.change, takeOut?, hfind]
  simp only [Option.bind_eq_bind, Option.bind_some, hsection, hany, if_true]
  rw [add, modifySection_modifySection, modifySection_eq_self hnodes herase]

/-! ### All additions of a run -/

/-- An addition leaves the other scopes as they are. -/
theorem manages_add {d : Document} {a : Addition} (hopen : (d.sectionPatterns? a.target).isSome)
    {scope : String} (hne : a.rule.scope ≠ scope) :
    (d.add t taxonomy a).manages scope = d.manages scope := by
  have hperm : (d.add t taxonomy a).walk.Perm
      ((sectionLabel a.target, a.node taxonomy) :: d.walk) :=
    walk_insertBefore hopen _ rfl
  rw [manages, hperm.any_eq, List.any_cons, managedFor_node, decide_eq_false hne, Bool.false_or]
  rfl

/-- Additions for different scopes without managed nodes are taken out again. -/
theorem takeOutAll?_addAll : ∀ (adds : List Addition) (d : Document),
    (adds.map (·.rule.scope)).Nodup →
    (∀ a ∈ adds, (d.sectionPatterns? a.target).isSome ∧ d.manages a.rule.scope = false) →
    (d.addAll t taxonomy adds).takeOutAll? (adds.map (Addition.change taxonomy)) = some d
  | [], _, _, _ => rfl
  | a :: adds, d, hnodup, h => by
    rw [List.map_cons, List.nodup_cons] at hnodup
    obtain ⟨hopen, hman⟩ := h a List.mem_cons_self
    have hrest : ∀ b ∈ adds, ((d.add t taxonomy a).sectionPatterns? b.target).isSome ∧
        (d.add t taxonomy a).manages b.rule.scope = false := by
      intro b hb
      obtain ⟨hbopen, hbman⟩ := h b (List.mem_cons_of_mem _ hb)
      have hne : a.rule.scope ≠ b.rule.scope :=
        fun he => hnodup.1 (he ▸ List.mem_map.mpr ⟨b, hb, rfl⟩)
      rw [isSome_sectionPatterns?_add, manages_add t taxonomy hopen hne]
      exact ⟨hbopen, hbman⟩
    have ih := takeOutAll?_addAll adds (d.add t taxonomy a) hnodup.2 hrest
    rw [List.map_cons, takeOutAll?, addAll, List.foldl_cons]
    rw [addAll] at ih
    rw [ih, Option.bind_some]
    exact takeOut?_add t taxonomy hopen hman

theorem takeOutAll?_append (d : Document) (later : ChangeLog) : ∀ earlier : ChangeLog,
    d.takeOutAll? (earlier ++ later) = (d.takeOutAll? later).bind (·.takeOutAll? earlier)
  | [] => by
    rw [List.nil_append]
    cases d.takeOutAll? later <;> rfl
  | c :: earlier => by
    rw [List.cons_append, takeOutAll?, takeOutAll?_append d later earlier]
    cases d.takeOutAll? later <;> rfl

theorem takeOutAll?_of_updated (d : Document) : ∀ log : ChangeLog,
    (∀ c ∈ log, c.isUpdated = true) → d.takeOutAll? log = some d
  | [], _ => rfl
  | .updated .. :: log, h => by
    rw [takeOutAll?, takeOutAll?_of_updated d log fun c hc => h c (List.mem_cons_of_mem _ hc)]
    rfl
  | .added .. :: _, h => absurd (h _ List.mem_cons_self) Bool.false_ne_true

end Document

/-- Without its additions a run is a refreshing. -/
theorem takeOutAll?_synchronize (t : ScopeTable) (taxonomy : Taxonomy) (d : Document) :
    (synchronize t taxonomy d).1.takeOutAll? (synchronize t taxonomy d).2.changes =
      some (d.refresh (t.groups taxonomy)) := by
  rw [document_synchronize, changes_synchronize, Document.takeOutAll?_append,
    Document.takeOutAll?_addAll t taxonomy _ _ (t.nodup_runAdditions d), Option.bind_some]
  · exact Document.takeOutAll?_of_updated _ _ fun c hc =>
      Document.isUpdated_of_mem_refreshChanges hc
  · intro a ha
    rw [Document.isSome_sectionPatterns?_refresh, manages_refresh]
    exact ⟨t.isSome_of_mem_runAdditions ha, (t.mem_runAdditions.mp ha).2.1⟩

end GrammarSync
