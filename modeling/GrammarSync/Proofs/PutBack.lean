/-
# Putting expressions back

An update in a log has the scope of a node, its previous expression and its
new one, but it does not say where the node stands. Together with the way that
leads to the node it can be put back: the node at the end of the way gets the
previous expression again, and there is no result if that node does not have
the scope and the new expression that the update reports. The updates of a
refreshing, put back one after the other at the ways of their nodes, give the
grammar before it (`Document.foldlM_putBack?_refresh`). The argument follows
the tree: what takes every item of a sequence back takes the sequence back
(`foldlM_items`), and this is used for the nodes nested in a node, for the top
sequence and for the sections.

Ways begin with the number of a part: `0` is the top sequence, and `s + 1` is
the sequence of the section at the position `s`.

Key definitions: `Document.walked?`, `Document.places`, `Node.revert?`,
`Document.putBack?`, `Document.putBackAll?`.
Key theorems: `Document.listing_places`, `foldlM_items`,
`Node.foldlM_putBack?_refresh`, `Document.foldlM_putBack?_refresh`.
-/
import GrammarSync.Proofs.DocumentOrder
import GrammarSync.Proofs.Undo

namespace GrammarSync

/-! ### The places of the walk -/

namespace Document

/-- The sequences of the walk, each with its label. A section without patterns has its number, too,
and no node. -/
def parts (d : Document) : List (String × List Node) :=
  (topLabel, d.patterns) :: d.repository.map fun e => (sectionLabel e.1, e.2.children.getD [])

/-- The node of the walk that a way leads to, with the label of its part. -/
def walked? (d : Document) : List Nat → Option (String × Node) :=
  along? (fun part way => (Node.at? part.2 way).map (part.1, ·)) d.parts

/-- The nodes of a part with its label, each with the way that leads to it from there. -/
def partPlaces (part : String × List Node) : List (List Nat × String × Node) :=
  (Node.placesAll 0 part.2).map fun e => (e.1, part.1, e.2)

/-- The nodes of the walk with their labels, each with the way that leads to it. -/
def places (d : Document) : List (List Nat × String × Node) :=
  d.parts.zipIdx.flatMap fun p => (partPlaces p.1).map fun e => (p.2 :: e.1, e.2)

/-- The nodes of the walk are listed by their places. -/
theorem listing_places (d : Document) : Listing d.walked? d.places := by
  apply Listing.along
  intro part _
  exact (Node.listing_placesAll part.2).map (part.1, ·)

/-- The places are those of the walk, in its order. -/
theorem map_snd_places (d : Document) : d.places.map Prod.snd = d.walk := by
  have hparts : d.parts.flatMap (fun part => (Node.preorderAll part.2).map (part.1, ·)) =
      d.walk := by
    rw [walk_eq, parts, List.flatMap_cons, List.flatMap_map]
    rfl
  have hitems : d.parts.flatMap (fun part => (Node.preorderAll part.2).map (part.1, ·)) =
      (d.parts.zipIdx.map Prod.fst).flatMap
        fun part => (Node.preorderAll part.2).map (part.1, ·) := by
    rw [List.zipIdx_map_fst]
  rw [← hparts, hitems, List.flatMap_map, places, List.map_flatMap]
  apply List.flatMap_congr
  rintro ⟨part, i⟩ -
  rw [partPlaces, ← Node.map_snd_placesAll part.2 0, List.map_map, List.map_map, List.map_map]
  rfl

end Document

/-! ### One update -/

namespace Node

/-- The node before an update, if it has the scope and the expression that the update reports. -/
def revert? : Change → Node → Option Node
  | .updated scope _ previous regex, n =>
    if n.reads scope regex then some (n.setRegex previous) else none
  | .added .., _ => none

/-- The node in which an update is put back at the end of a way. -/
def putBack? (n : Node) (e : List Nat × Change) : Option Node :=
  n.modifyAt (revert? e.2) e.1

end Node

namespace Document

/-- The section in which an update is put back at the node that a way leads to. -/
def sectionPutBack? (e : String × Node) (step : List Nat × Change) : Option (String × Node) :=
  (e.2.putBack? step).map (e.1, ·)

/-- The document in which an update is put back at the node of the walk that a way leads to. -/
def putBack? (d : Document) : List Nat × Change → Option Document
  | (0 :: i :: way, c) => do
    let n ← d.patterns[i]?
    let n ← n.putBack? (way, c)
    some { d with patterns := d.patterns.set i n }
  | ((s + 1) :: way, c) => do
    let e ← d.repository[s]?
    let e ← sectionPutBack? e (way, c)
    some { d with repository := d.repository.set s e }
  | _ => none

/-- The document in which the updates of a log are put back, the first one first, each at its own
way. -/
def putBackAll? (d : Document) (ways : List (List Nat)) (log : ChangeLog) : Option Document :=
  (ways.zip (log.filter Change.isUpdated)).foldlM putBack? d

end Document

/-! ### Steps along a sequence -/

section

variable {α β γ σ : Type}

/-- Steps that lead into one part of a whole change the part. -/
theorem foldlM_into {whole : σ → γ → Option σ} {part : α → β → Option α} {wrap : β → γ}
    (put : α → σ) (h : ∀ a b, whole (put a) (wrap b) = (part a b).map put) :
    ∀ (steps : List β) (a : α),
      (steps.map wrap).foldlM whole (put a) = (steps.foldlM part a).map put
  | [], _ => rfl
  | b :: steps, a => by
    rw [List.map_cons, List.foldlM_cons, List.foldlM_cons, h]
    cases part a b with
    | none => rfl
    | some a' => exact foldlM_into put h steps a'

/-- Where every item is taken back by its steps, the steps of all items take the sequence back. The
items of `before` are the ones that are back already. -/
theorem foldlM_items {whole : σ → List Nat × γ → Option σ} {part : α → List Nat × γ → Option α}
    {change : α → α} {steps : α → List (List Nat × γ)} (put : List α → σ) (start : Nat)
    (hwhole : ∀ before a after way c,
      whole (put (before ++ a :: after)) ((start + before.length) :: way, c) =
        (part a (way, c)).map fun b => put (before ++ b :: after)) :
    ∀ (items before : List α), (∀ a ∈ items, (steps a).foldlM part (change a) = some a) →
      ((items.zipIdx (start + before.length)).flatMap fun p =>
        (steps p.1).map fun e => (p.2 :: e.1, e.2)).foldlM whole
          (put (before ++ items.map change)) = some (put (before ++ items))
  | [], before, _ => by rw [List.map_nil]; rfl
  | a :: items, before, h => by
    have ha := h a List.mem_cons_self
    have ih := foldlM_items put start hwhole items (before ++ [a])
      fun b hb => h b (List.mem_cons_of_mem _ hb)
    rw [List.length_append, List.length_singleton, ← Nat.add_assoc, List.append_assoc,
      List.append_assoc, List.singleton_append, List.singleton_append] at ih
    -- the steps of the first item leave the others as they are
    have hitem := foldlM_into (fun b => put (before ++ b :: items.map change))
      (fun b e => hwhole before b (items.map change) e.1 e.2) (steps a) (change a)
    rw [ha, Option.map_some] at hitem
    rw [List.zipIdx_cons, List.flatMap_cons, List.map_cons, List.foldlM_append, hitem]
    exact ih

/-- What is picked along items is picked from each of them. -/
theorem filterMap_along (f : β → Option γ) (entries : α → List (List Nat × β))
    (items : List (α × Nat)) :
    (items.flatMap fun p => (entries p.1).map fun e => (p.2 :: e.1, e.2)).filterMap
      (fun e => (f e.2).map (e.1, ·)) =
    items.flatMap fun p => ((entries p.1).filterMap fun e => (f e.2).map (e.1, ·)).map
      fun e => (p.2 :: e.1, e.2) := by
  rw [List.filterMap_flatMap]
  apply List.flatMap_congr
  intro p _
  rw [List.filterMap_map, List.map_filterMap]
  apply List.filterMap_congr
  intro e _
  rw [Function.comp_apply, Option.map_map]
  rfl

end

/-! ### The updates of a refreshing -/

variable (groups : List ScopeGroup)

/-- The changes that refreshing makes to the nodes at some places. -/
def changesAt (label : String) (places : List (List Nat × Node)) : List (List Nat × Change) :=
  places.filterMap fun p => (refreshChange? groups label p.2).map (p.1, ·)

/-- A managed node has the scope of its group as its name, and an expression. -/
theorem managing?_eq_some {n : Node} {g : ScopeGroup} (h : managing? groups n = some g) :
    n.name = some g.scope ∧ ∃ current, n.regex = some current := by
  unfold managing? at h
  split at h
  · rename_i name current hname hcurrent
    have hscope : g.scope = name := by simpa using List.find?_some h
    rw [hscope]
    exact ⟨hname, current, hcurrent⟩
  · cases h

namespace Node

/-- A node that refreshing does not change itself is refreshed further below only. -/
theorem refresh_of_refreshChange?_eq_none {label : String} {n : Node}
    (h : refreshChange? groups label n = none) :
    n.refresh groups = n.mapChildren (refreshAll groups) := by
  have hregex : refreshedRegex groups n = n.regex := by
    rw [refreshedRegex]
    cases hg : managing? groups n with
    | none => rfl
    | some g =>
      obtain ⟨-, current, hcurrent⟩ := managing?_eq_some groups hg
      rw [refreshChange?, hg, hcurrent] at h
      have hsame : current = g.regex := by simpa using h
      rw [hcurrent, hsame]
  rw [refresh_eq, hregex]
  rfl

/-- The change that refreshing makes to a node itself is taken back. -/
theorem revert?_refresh {label : String} {n : Node} {c : Change}
    (h : refreshChange? groups label n = some c) :
    revert? c (n.refresh groups) = some (n.mapChildren (refreshAll groups)) := by
  rw [refreshChange?] at h
  cases hg : managing? groups n with
  | none =>
    rw [hg] at h
    cases h
  | some g =>
    obtain ⟨hname, current, hcurrent⟩ := managing?_eq_some groups hg
    simp only [hg, hcurrent, Option.ite_none_left_eq_some, Option.some.injEq] at h
    obtain ⟨-, rfl⟩ := h
    have hregex : refreshedRegex groups n = some g.regex := by rw [refreshedRegex, hg]
    have hreads : (n.refresh groups).reads g.scope g.regex = true := by
      simp [reads, hname, hregex]
    rw [revert?, if_pos hreads, setRegex, refresh_regex, hregex, refresh_eq]
    simp [mapChildren, hcurrent]

/-- Changing a nested node changes it in the sequence of its node. -/
theorem putBack?_cons {n : Node} {before after : List Node} {m : Node}
    (h : n.children = some (before ++ m :: after)) (way : List Nat) (c : Change) :
    n.putBack? (before.length :: way, c) =
      (m.putBack? (way, c)).map fun m => { n with children := some (before ++ m :: after) } := by
  rw [putBack?, modifyAt, h, putBack?]
  cases hm : modifyAt (revert? c) way m <;> simp [hm]

theorem changesAt_placesAll (label : String) (nodes : List Node) :
    changesAt groups label (placesAll 0 nodes) = nodes.zipIdx.flatMap fun p =>
      (changesAt groups label p.1.places).map fun e => (p.2 :: e.1, e.2) := by
  rw [placesAll_eq_flatMap, changesAt, filterMap_along _ places]
  rfl

/-- What is put back in the nested nodes is put back below the node. -/
theorem foldlM_putBack?_mapChildren (label : String) (n : Node)
    (h : ∀ nodes, n.children = some nodes → ∀ m ∈ nodes,
      (changesAt groups label m.places).foldlM putBack? (m.refresh groups) = some m) :
    (changesAt groups label (placesAll 0 (n.children.getD []))).foldlM putBack?
      (n.mapChildren (refreshAll groups)) = some n := by
  rw [changesAt_placesAll]
  cases hc : n.children with
  | none => exact congrArg some (mapChildren_eq_self (by rw [hc]; rfl))
  | some nodes =>
    have hnodes := foldlM_items (fun nodes => { n with children := some nodes }) 0
      (fun before m after way c => by rw [Nat.zero_add]; exact putBack?_cons rfl way c)
      nodes [] (h nodes hc)
    have hafter : n.mapChildren (refreshAll groups) =
        { n with children := some ([] ++ nodes.map (refresh groups)) } := by
      rw [mapChildren, hc, Option.map_some, refreshAll_eq_map]
      rfl
    have hbefore : { n with children := some ([] ++ nodes) } = n := by
      cases n
      rw [List.nil_append, ← hc]
    rw [hafter]
    exact hnodes.trans (congrArg some hbefore)

/-- The changes that refreshing makes to a node and to the nodes nested in it are put back. -/
theorem foldlM_putBack?_refresh (label : String) (n : Node) :
    (changesAt groups label n.places).foldlM putBack? (n.refresh groups) = some n := by
  induction n using induction with
  | step n ih =>
    have hnested := foldlM_putBack?_mapChildren groups label n ih
    rw [places_eq, changesAt, List.filterMap_cons, ← changesAt]
    -- the node's own change, if there is one, is put back first
    cases hc : refreshChange? groups label n with
    | none =>
      rw [refresh_of_refreshChange?_eq_none groups hc]
      exact hnested
    | some c =>
      rw [Option.map_some, List.foldlM_cons, putBack?, modifyAt, revert?_refresh groups hc]
      exact hnested

end Node

namespace Document

/-- The changes that refreshing makes, each with the way to its node. -/
def changesAt (groups : List ScopeGroup) (d : Document) : List (List Nat × Change) :=
  d.places.filterMap fun p => (refreshChange? groups p.2.1 p.2.2).map (p.1, ·)

theorem map_snd_changesAt (d : Document) :
    (d.changesAt groups).map Prod.snd = d.refreshChanges groups := by
  rw [changesAt, map_snd_filterMap fun w : String × Node => refreshChange? groups w.1 w.2,
    map_snd_places, refreshChanges_eq]

/-- The changes part by part. -/
theorem changesAt_eq (d : Document) : d.changesAt groups = d.parts.zipIdx.flatMap fun p =>
    (GrammarSync.changesAt groups p.1.1 (Node.placesAll 0 p.1.2)).map
      fun e => (p.2 :: e.1, e.2) := by
  have hpart : ∀ part : String × List Node, (partPlaces part).filterMap
      (fun p => (refreshChange? groups p.2.1 p.2.2).map (p.1, ·)) =
        GrammarSync.changesAt groups part.1 (Node.placesAll 0 part.2) := by
    intro part
    rw [partPlaces, List.filterMap_map]
    rfl
  rw [changesAt, places, filterMap_along (fun w => refreshChange? groups w.1 w.2) partPlaces]
  simp only [hpart]

theorem putBack?_top {d : Document} {before after : List Node} {n : Node}
    (h : d.patterns = before ++ n :: after) (way : List Nat) (c : Change) :
    d.putBack? (0 :: before.length :: way, c) =
      (n.putBack? (way, c)).map fun n => { d with patterns := before ++ n :: after } := by
  rw [putBack?, h]
  cases hn : n.putBack? (way, c) <;> simp [hn]

theorem putBack?_section {d : Document} {before after : List (String × Node)} {e : String × Node}
    (h : d.repository = before ++ e :: after) (way : List Nat) (c : Change) :
    d.putBack? ((1 + before.length) :: way, c) = (sectionPutBack? e (way, c)).map
      fun e => { d with repository := before ++ e :: after } := by
  rw [Nat.add_comm, putBack?, h]
  cases he : sectionPutBack? e (way, c) <;> simp [he]

/-- What is put back in the top sequence. -/
theorem foldlM_putBack?_patterns (c : Document) (nodes : List Node) :
    ((GrammarSync.changesAt groups topLabel (Node.placesAll 0 nodes)).map
      fun e => (0 :: e.1, e.2)).foldlM putBack?
        { c with patterns := Node.refreshAll groups nodes } =
      some { c with patterns := nodes } := by
  rw [List.foldlM_map, Node.changesAt_placesAll, Node.refreshAll_eq_map]
  refine foldlM_items (fun nodes => { c with patterns := nodes }) 0 ?_ nodes []
    fun n _ => Node.foldlM_putBack?_refresh groups topLabel n
  intro before n after way ch
  rw [Nat.zero_add]
  exact putBack?_top rfl way ch

/-- What is put back in a section. -/
theorem foldlM_sectionPutBack? (e : String × Node) :
    (GrammarSync.changesAt groups (sectionLabel e.1)
      (Node.placesAll 0 (e.2.children.getD []))).foldlM sectionPutBack?
        (e.1, e.2.mapChildren (Node.refreshAll groups)) = some e := by
  have hnode := Node.foldlM_putBack?_mapChildren groups (sectionLabel e.1) e.2
    fun _ _ n _ => Node.foldlM_putBack?_refresh groups (sectionLabel e.1) n
  have hinto := foldlM_into (e.1, ·) (fun n step => (rfl : sectionPutBack? (e.1, n) (id step) = _))
    (GrammarSync.changesAt groups (sectionLabel e.1) (Node.placesAll 0 (e.2.children.getD [])))
    (e.2.mapChildren (Node.refreshAll groups))
  rw [List.map_id] at hinto
  exact hinto.trans (congrArg (Option.map (e.1, ·)) hnode)

/-- What is put back in the sections. -/
theorem foldlM_putBack?_repository (c : Document) (es : List (String × Node)) :
    ((es.zipIdx 1).flatMap fun p =>
      (GrammarSync.changesAt groups (sectionLabel p.1.1)
        (Node.placesAll 0 (p.1.2.children.getD []))).map fun e => (p.2 :: e.1, e.2)).foldlM
          putBack? { c with
            repository := es.map fun e => (e.1, e.2.mapChildren (Node.refreshAll groups)) } =
      some { c with repository := es } := by
  refine foldlM_items (fun es => { c with repository := es }) 1 ?_ es []
    fun e _ => foldlM_sectionPutBack? groups e
  intro before e after way ch
  exact putBack?_section rfl way ch

/-- The changes that refreshing makes are put back. -/
theorem foldlM_putBack?_refresh (d : Document) :
    (d.changesAt groups).foldlM putBack? (d.refresh groups) = some d := by
  have htop := foldlM_putBack?_patterns groups (d.refresh groups) d.patterns
  have hsections := foldlM_putBack?_repository groups { d with patterns := d.patterns } d.repository
  rw [changesAt_eq, parts, List.zipIdx_cons, List.flatMap_cons, List.zipIdx_map, List.flatMap_map,
    List.foldlM_append]
  refine (congrArg (· >>= _) htop).trans ?_
  exact hsections

end Document
end GrammarSync
