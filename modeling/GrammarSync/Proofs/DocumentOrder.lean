/-
# Nodes in document order

A node of a grammar is found along a way of positions: the position in a
sequence, then in the sequence nested in that node, and so on. Of two ways the
one with the smaller position at the first difference comes first, and a
proper beginning of a way comes before the way, so that a node comes before
the nodes nested in it. This order of ways is the document order.

Whatever is found along ways is listed in this order, each way once
(`Listing`). Listing a node with the nodes nested in it gives its pre-order
(`Node.listing_places`, `Node.map_snd_places`), and the nodes of a grammar, from
the top sequence through the sections, are listed in the order in which the
structural checks meet them (`Document.exists_listing_at?`).

Key definitions: `Listing`, `along?`, `Node.at?`, `Node.places`,
`Document.at?`.
Key theorems: `Listing.eq`, `Listing.filterMap`, `Listing.along`,
`Node.listing_places`, `Document.exists_listing_at?`.
-/
import GrammarSync.Grammar.Edit
import GrammarSync.Grammar.Lint
import GrammarSync.Proofs.Refresh
import GrammarSync.Words.Order
import Mathlib.Data.List.Basic

namespace GrammarSync

/-! ### Listings -/

section

variable {α β : Type}

/-- The entries hold what is found along ways, each way once and in the order of the ways. -/
structure Listing (found? : List Nat → Option α) (entries : List (List Nat × α)) : Prop where
  mem_iff : ∀ way a, (way, a) ∈ entries ↔ found? way = some a
  increasing : (entries.map Prod.fst).Pairwise (· < ·)

namespace Listing

variable {found? : List Nat → Option α} {entries : List (List Nat × α)}

/-- There is one listing only. -/
theorem eq {others : List (List Nat × α)} (h : Listing found? entries)
    (k : Listing found? others) : entries = others := by
  apply Words.eq_of_pairwise_of_mem_iff (fun _ _ => List.lt_asymm)
    (List.pairwise_map.mp h.increasing) (List.pairwise_map.mp k.increasing)
  rintro ⟨way, a⟩
  rw [h.mem_iff, k.mem_iff]

/-- What is listed and passes a test is listed in the same order. -/
theorem filterMap (f : α → Option β) (h : Listing found? entries) :
    Listing (fun way => (found? way).bind f)
      (entries.filterMap fun e => (f e.2).map (e.1, ·)) where
  mem_iff way b := by
    simp only [List.mem_filterMap, Option.map_eq_some_iff, Prod.mk.injEq, Option.bind_eq_some_iff]
    constructor
    · rintro ⟨⟨w, a⟩, he, c, hc, rfl, rfl⟩
      exact ⟨a, (h.mem_iff _ _).mp he, hc⟩
    · rintro ⟨a, ha, hb⟩
      exact ⟨(way, a), (h.mem_iff _ _).mpr ha, b, hb, rfl, rfl⟩
  increasing := by
    apply List.pairwise_map.mpr
    apply (List.pairwise_map.mp h.increasing).filterMap
    intro e e' hlt b hb b' hb'
    obtain ⟨_, _, rfl⟩ := Option.map_eq_some_iff.mp hb
    obtain ⟨_, _, rfl⟩ := Option.map_eq_some_iff.mp hb'
    exact hlt

/-- The images of what is listed are listed in the same order. -/
theorem map (f : α → β) (h : Listing found? entries) :
    Listing (fun way => (found? way).map f) (entries.map fun e => (e.1, f e.2)) where
  mem_iff way b := by
    simp only [List.mem_map, Prod.mk.injEq, Option.map_eq_some_iff]
    constructor
    · rintro ⟨⟨w, a⟩, he, rfl, rfl⟩
      exact ⟨a, (h.mem_iff _ _).mp he, rfl⟩
    · rintro ⟨a, ha, rfl⟩
      exact ⟨(way, a), (h.mem_iff _ _).mpr ha, rfl, rfl⟩
  increasing := by
    rw [List.map_map]
    exact h.increasing

end Listing

theorem map_snd_filterMap (f : α → Option β) (entries : List (List Nat × α)) :
    (entries.filterMap fun e => (f e.2).map (e.1, ·)).map Prod.snd =
      (entries.map Prod.snd).filterMap f := by
  rw [List.map_filterMap, List.filterMap_map]
  apply List.filterMap_congr
  intro e _
  rw [Option.map_map, Function.comp_apply]
  cases f e.2 <;> rfl

theorem zipIdx_pairwise (items : List α) (k : Nat) :
    (items.zipIdx k).Pairwise fun p q => p.2 < q.2 := by
  have hrange : ((items.zipIdx k).map Prod.snd).Pairwise (· < ·) := by
    rw [List.zipIdx_map_snd]
    exact List.pairwise_lt_range'
  exact List.pairwise_map.mp hrange

/-- What is found along a way whose first position is that of an item and whose others lead on from
there. -/
def along? (found? : α → List Nat → Option β) (items : List α) : List Nat → Option β
  | [] => none
  | i :: way => items[i]?.bind (found? · way)

/-- The listings behind the items, one after the other, are a listing. -/
theorem Listing.along {found? : α → List Nat → Option β} {entries : α → List (List Nat × β)}
    {items : List α} (h : ∀ a ∈ items, Listing (found? a) (entries a)) :
    Listing (along? found? items)
      (items.zipIdx.flatMap fun p => (entries p.1).map fun e => (p.2 :: e.1, e.2)) where
  mem_iff way b := by
    simp only [List.mem_flatMap, List.mem_map, Prod.mk.injEq]
    constructor
    · rintro ⟨⟨a, i⟩, hp, ⟨w, b'⟩, he, rfl, rfl⟩
      have ha : items[i]? = some a := List.mem_zipIdx_iff_getElem?.mp hp
      rw [along?, ha, Option.bind_some]
      exact ((h a (List.mem_of_getElem? ha)).mem_iff w b').mp he
    · intro hway
      cases way with
      | nil => cases hway
      | cons i w =>
        obtain ⟨a, ha, hb⟩ := Option.bind_eq_some_iff.mp hway
        refine ⟨(a, i), List.mem_zipIdx_iff_getElem?.mpr ha, (w, b), ?_, rfl, rfl⟩
        exact ((h a (List.mem_of_getElem? ha)).mem_iff w b).mpr hb
  increasing := by
    rw [List.map_flatMap, List.pairwise_flatMap]
    constructor
    · rintro ⟨a, i⟩ hp
      have ha : a ∈ items := List.mem_of_getElem? (List.mem_zipIdx_iff_getElem?.mp hp)
      rw [List.map_map, List.pairwise_map]
      apply (List.pairwise_map.mp (h a ha).increasing).imp
      intro e e' hlt
      exact List.cons_lt_cons_iff.mpr (.inr ⟨rfl, hlt⟩)
    · apply (zipIdx_pairwise items 0).imp
      intro p q hlt w hw w' hw'
      simp only [List.map_map, List.mem_map, Function.comp_apply] at hw hw'
      obtain ⟨e, -, rfl⟩ := hw
      obtain ⟨e', -, rfl⟩ := hw'
      exact List.cons_lt_cons_iff.mpr (.inl hlt)

/-- If the items' values can be listed, so can the values of all of them, in the order of the
items. -/
theorem exists_listing_along {found? : α → List Nat → Option β} {values : α → List β}
    {items : List α} (h : ∀ a ∈ items, ∃ entries, Listing (found? a) entries ∧
      entries.map Prod.snd = values a) :
    ∃ entries, Listing (along? found? items) entries ∧
      entries.map Prod.snd = items.flatMap values := by
  have htotal : ∀ a, ∃ entries, a ∈ items → Listing (found? a) entries ∧
      entries.map Prod.snd = values a := by
    intro a
    by_cases ha : a ∈ items
    · obtain ⟨entries, hentries⟩ := h a ha
      exact ⟨entries, fun _ => hentries⟩
    · exact ⟨[], fun hmem => absurd hmem ha⟩
  choose entries hentries using htotal
  refine ⟨_, Listing.along fun a ha => (hentries a ha).1, ?_⟩
  have hitems : items.flatMap values = (items.zipIdx.map Prod.fst).flatMap values := by
    rw [List.zipIdx_map_fst]
  rw [List.map_flatMap, hitems, List.flatMap_map]
  apply List.flatMap_congr
  rintro ⟨a, i⟩ hp
  have ha : a ∈ items := List.mem_of_getElem? (List.mem_zipIdx_iff_getElem?.mp hp)
  rw [List.map_map, ← (hentries a ha).2]
  rfl

end

/-! ### The nodes of a sequence -/

namespace Node

/-- The node that a way leads to from a sequence. -/
def at? (nodes : List Node) : List Nat → Option Node :=
  along? (fun n way => n.follow? way) nodes

/-- From a node a way leads to the node itself or on from the nodes nested in it. -/
theorem follow?_cons (n : Node) (i : Nat) (way : List Nat) :
    n.follow? (i :: way) = at? (n.children.getD []) (i :: way) := by
  rw [follow?, at?, along?]
  cases n.children <;> rfl

mutual
/-- A node and the nodes nested in it in pre-order, each with the way that leads to it. -/
def places : Node → List (List Nat × Node)
  | ⟨name, regex, comment, none, rest, order⟩ => [([], ⟨name, regex, comment, none, rest, order⟩)]
  | ⟨name, regex, comment, some nodes, rest, order⟩ =>
    ([], ⟨name, regex, comment, some nodes, rest, order⟩) :: placesAll 0 nodes

/-- The nodes of a sequence that is counted from `i`, with those nested in them, each with the way
that leads to it. -/
def placesAll (i : Nat) : List Node → List (List Nat × Node)
  | [] => []
  | n :: rest => (places n).map (fun e => (i :: e.1, e.2)) ++ placesAll (i + 1) rest
end

theorem places_eq (n : Node) : n.places = ([], n) :: placesAll 0 (n.children.getD []) := by
  rcases n with ⟨name, regex, comment, _ | nodes, rest, order⟩ <;> rfl

theorem placesAll_eq_flatMap : ∀ (nodes : List Node) (i : Nat), placesAll i nodes =
    (nodes.zipIdx i).flatMap fun p => p.1.places.map fun e => (p.2 :: e.1, e.2)
  | [], _ => rfl
  | n :: rest, i => by
    rw [placesAll, placesAll_eq_flatMap rest, List.zipIdx_cons, List.flatMap_cons]

mutual
theorem map_snd_places : ∀ n : Node, n.places.map Prod.snd = n.preorder
  | ⟨_, _, _, none, _, _⟩ => rfl
  | ⟨_, _, _, some nodes, _, _⟩ => by
    rw [places, preorder, List.map_cons, map_snd_placesAll nodes 0]

theorem map_snd_placesAll : ∀ (nodes : List Node) (i : Nat),
    (placesAll i nodes).map Prod.snd = preorderAll nodes
  | [], _ => rfl
  | n :: rest, i => by
    rw [placesAll, preorderAll, List.map_append, List.map_map, map_snd_placesAll rest,
      ← map_snd_places n]
    rfl
end

theorem listing_placesAll_of {nodes : List Node}
    (h : ∀ n ∈ nodes, Listing (fun way => n.follow? way) n.places) :
    Listing (at? nodes) (placesAll 0 nodes) := by
  rw [placesAll_eq_flatMap]
  exact Listing.along h

/-- A node and the nodes nested in it are listed in pre-order. -/
theorem listing_places (n : Node) : Listing (fun way => n.follow? way) n.places := by
  induction n using induction with
  | step n ih =>
    have hentries : Listing (at? (n.children.getD [])) (placesAll 0 (n.children.getD [])) := by
      apply listing_placesAll_of
      intro m hm
      cases hc : n.children with
      | none =>
        rw [hc] at hm
        exact absurd hm List.not_mem_nil
      | some nodes =>
        rw [hc] at hm
        exact ih nodes hc m hm
    rw [places_eq]
    refine ⟨fun way m => ?_, ?_⟩
    · rw [List.mem_cons, hentries.mem_iff]
      cases way with
      | nil => simp [follow?, at?, along?, eq_comm]
      | cons i way => simp [follow?_cons]
    · -- the empty way comes before all others
      rw [List.map_cons, List.pairwise_cons]
      refine ⟨fun way hway => ?_, hentries.increasing⟩
      obtain ⟨e, he, rfl⟩ := List.mem_map.mp hway
      have hfound := (hentries.mem_iff e.1 e.2).mp he
      cases hway : e.1 with
      | nil =>
        rw [hway] at hfound
        cases hfound
      | cons i way => exact List.nil_lt_cons i way

/-- The nodes of a sequence are listed in pre-order. -/
theorem listing_placesAll (nodes : List Node) : Listing (at? nodes) (placesAll 0 nodes) :=
  listing_placesAll_of fun n _ => n.listing_places

end Node

/-! ### The nodes of a grammar -/

namespace Document

/-- The node that a way leads to, with the label of the part in which it stands: `0` goes on in the
top sequence, `s + 1` goes on from the node of the section at the position `s`. -/
def at? (d : Document) : List Nat → Option (String × Node)
  | [] => none
  | 0 :: way => (Node.at? d.patterns way).map (topLabel, ·)
  | (s + 1) :: way => d.repository[s]?.bind fun e => (e.2.follow? way).map (sectionLabel e.1, ·)

/-- The nodes of a grammar in document order, each with the label of its part: those of the top
sequence, then those of every section, from its own node on. -/
def labelled (d : Document) : List (String × Node) :=
  (Node.preorderAll d.patterns).map (topLabel, ·) ++
    d.repository.flatMap fun e => e.2.preorder.map (sectionLabel e.1, ·)

/-- The part of the top sequence, or of a section. -/
def partAt? (d : Document) : Option (String × Node) → List Nat → Option (String × Node)
  | none, way => (Node.at? d.patterns way).map (topLabel, ·)
  | some e, way => (e.2.follow? way).map (sectionLabel e.1, ·)

theorem at?_eq_along? (d : Document) :
    d.at? = along? d.partAt? (none :: d.repository.map some) := by
  funext way
  match way with
  | [] => rfl
  | 0 :: way => rfl
  | (s + 1) :: way =>
    rw [at?, along?, List.getElem?_cons_succ, List.getElem?_map, Option.bind_map]
    rfl

theorem exists_listing_label {found? : List Nat → Option Node} {nodes : List Node} (label : String)
    (h : ∃ entries, Listing found? entries ∧ entries.map Prod.snd = nodes) :
    ∃ entries, Listing (fun way => (found? way).map (label, ·)) entries ∧
      entries.map Prod.snd = nodes.map (label, ·) := by
  obtain ⟨entries, hentries, rfl⟩ := h
  refine ⟨_, hentries.map (label, ·), ?_⟩
  rw [List.map_map, List.map_map]
  rfl

/-- The nodes of a grammar are listed as they are met: the top sequence, then the sections. -/
theorem exists_listing_at? (d : Document) : ∃ entries, Listing d.at? entries ∧
    entries.map Prod.snd = d.labelled := by
  have hlabelled : d.labelled = (none :: d.repository.map some).flatMap fun
      | none => (Node.preorderAll d.patterns).map (topLabel, ·)
      | some e => e.2.preorder.map (sectionLabel e.1, ·) := by
    rw [labelled, List.flatMap_cons, List.flatMap_map]
  rw [at?_eq_along?, hlabelled]
  apply exists_listing_along
  rintro (_ | e) -
  · exact exists_listing_label topLabel
      ⟨_, Node.listing_placesAll d.patterns, Node.map_snd_placesAll d.patterns 0⟩
  · exact exists_listing_label (sectionLabel e.1) ⟨_, e.2.listing_places, e.2.map_snd_places⟩

end Document
end GrammarSync
