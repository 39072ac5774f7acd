/-
# Grammars that fit into a text

A run keeps a grammar within what a text can hold. Refreshing changes texts
only, at whatever depth (`Node.stored_refresh`). A generated pattern has no
numbers and no nested nodes, so it fits wherever a document may be nested five
deep: document, repository, section, sequence, pattern
(`Document.stored_insertPattern`). So the synchronized grammar is stored if the
grammar was (`stored_synchronize`), and its text gives it back
(`parseGrammar_render`).

Key theorems: `Node.stored_iff`, `Document.stored_iff`, `Node.stored_refresh`,
`stored_synchronize`, `of_parseGrammar`, `parseGrammar_render`.
-/
import GrammarSync.Command.Load
import GrammarSync.Proofs.TextRoundTrip
import Mathlib.Data.List.Basic

namespace GrammarSync

variable {ok : Number → Prop}

theorem stored_array_iff {nodes : List Node} {k : Nat} :
    (Json.array (Node.toJsonAll nodes)).Stored ok (k + 1) ↔ ∀ n ∈ nodes, n.toJson.Stored ok k := by
  rw [Node.toJsonAll_eq_map]
  constructor
  · intro h n hn
    cases h with
    | array hitems => exact hitems n.toJson (List.mem_map_of_mem hn)
  · intro h
    refine .array fun v hv => ?_
    obtain ⟨n, hn, rfl⟩ := List.mem_map.mp hv
    exact h n hn

namespace Node

/-- A node is stored if the values under its keys are, one level less deep. -/
theorem stored_iff_values {n : Node} (h : n.Ordered) {k : Nat} :
    n.toJson.Stored ok (k + 1) ↔ ∀ key v, n.value? key = some v → v.Stored ok k := by
  obtain ⟨hjson, -, honce, hfields, -⟩ := emitted h
  rw [hjson]
  constructor
  · intro hstored key v hv
    cases hstored with
    | object _ hmembers => exact hmembers _ ((hfields key v).mpr hv)
  · intro hvalues
    exact .object honce fun e he => hvalues e.1 e.2 ((hfields e.1 e.2).mp he)

/-- A node is stored if its raw values and its nested nodes are, one level less deep. -/
theorem stored_iff {n : Node} (h : n.Ordered) {k : Nat} : n.toJson.Stored ok (k + 1) ↔
    (∀ e ∈ n.rest, e.2.Stored ok k) ∧
      ∀ nodes, n.children = some nodes → (Json.array (toJsonAll nodes)).Stored ok k := by
  rw [stored_iff_values h]
  constructor
  · intro hvalues
    refine ⟨fun e he => hvalues e.1 e.2 ?_, fun nodes hnodes => hvalues "patterns" _ ?_⟩
    · rw [value?_of_raw (h.apart (List.mem_map_of_mem he)), raw?]
      exact Entries.lookup_of_mem h.nodup_raw he
    · simp [value?, hnodes]
  · rintro ⟨hraw, hnested⟩ key v hv
    rcases key_cases key with rfl | rfl | rfl | rfl | hkey
    · obtain ⟨s, -, rfl⟩ := Option.map_eq_some_iff.mp hv
      exact .string s
    · obtain ⟨s, -, rfl⟩ := Option.map_eq_some_iff.mp hv
      exact .string s
    · obtain ⟨s, -, rfl⟩ := Option.map_eq_some_iff.mp hv
      exact .string s
    · obtain ⟨nodes, hnodes, rfl⟩ := Option.map_eq_some_iff.mp hv
      exact hnested nodes hnodes
    · rw [value?_of_raw hkey] at hv
      exact hraw _ (Entries.mem_of_lookup hv)

theorem depth_of_stored {n : Node} {k : Nat} (h : n.toJson.Stored ok k) : ∃ j, k = j + 1 := by
  rw [toJson_eq] at h
  cases h with
  | object _ _ => exact ⟨_, rfl⟩

/-- A refreshed node is stored. -/
theorem stored_refresh {n : Node} (hn : n.Sound) (groups : List ScopeGroup) : ∀ {k : Nat},
    n.toJson.Stored ok k → (n.refresh groups).toJson.Stored ok k := by
  induction n using Node.induction with
  | step n ih =>
    intro k hstored
    obtain ⟨hordered, hnested⟩ := sound_iff.mp hn
    obtain ⟨k, rfl⟩ := depth_of_stored hstored
    obtain ⟨hraw, hchildren⟩ := (stored_iff hordered).mp hstored
    refine (stored_iff (sound_iff.mp (sound_refresh hn groups)).1).mpr ⟨?_, fun nodes hnodes => ?_⟩
    · rw [refresh_eq]
      exact hraw
    · rw [refresh_children] at hnodes
      obtain ⟨own, hown, rfl⟩ := Option.map_eq_some_iff.mp hnodes
      have hall := hchildren own hown
      cases k with
      | zero => cases hall
      | succ k =>
        rw [stored_array_iff] at hall ⊢
        intro m hm
        rw [refreshAll_eq_map, List.mem_map] at hm
        obtain ⟨m, hm, rfl⟩ := hm
        exact ih own hown m hm (hnested own hown m hm) (hall m hm)

/-- A node with its nested nodes changed is stored. -/
theorem stored_mapChildren {n : Node} (hn : n.Sound) {k : Nat} {f : List Node → List Node}
    (hsound : ∀ nodes, (∀ m ∈ nodes, m.Sound) → ∀ m ∈ f nodes, m.Sound)
    (hstored : ∀ nodes, (∀ m ∈ nodes, m.Sound) → (∀ m ∈ nodes, m.toJson.Stored ok k) →
      ∀ m ∈ f nodes, m.toJson.Stored ok k)
    (h : n.toJson.Stored ok (k + 2)) : (n.mapChildren f).toJson.Stored ok (k + 2) := by
  obtain ⟨hordered, hnested⟩ := sound_iff.mp hn
  obtain ⟨hraw, hchildren⟩ := (stored_iff hordered).mp h
  refine (stored_iff (sound_iff.mp (sound_mapChildren hsound hn)).1).mpr
    ⟨hraw, fun nodes hnodes => ?_⟩
  obtain ⟨own, hown, rfl⟩ := Option.map_eq_some_iff.mp hnodes
  have hall := hchildren own hown
  rw [stored_array_iff] at hall ⊢
  exact hstored own (hnested own hown) hall

theorem stored_generated (comment name regex : String) (k : Nat) :
    (generated comment name regex).toJson.Stored ok (k + 1) := by
  have hordered := (sound_iff.mp (sound_generated comment name regex)).1
  refine (stored_iff hordered).mpr ⟨List.forall_mem_nil _, fun nodes hnodes => ?_⟩
  cases hnodes

end Node

namespace Document

/-- A document is stored if its raw values, its nodes and its sections are. -/
theorem stored_iff {d : Document} (h : d.Sound) {k : Nat} : d.toJson.Stored ok (k + 3) ↔
    (∀ e ∈ d.rest, e.2.Stored ok (k + 2)) ∧
      (∀ n ∈ d.patterns, n.toJson.Stored ok (k + 1)) ∧
        ∀ e ∈ d.repository, e.2.toJson.Stored ok (k + 1) := by
  obtain ⟨hjson, -, honce, hfields, -⟩ := emitted h.ordered
  rw [hjson]
  constructor
  · intro hstored
    cases hstored with
    | object _ hmembers =>
      have hvalue : ∀ key v, d.printed? key = some v → v.Stored ok (k + 2) := fun key v hv =>
        hmembers _ ((hfields key v).mpr hv)
      refine ⟨fun e he => hvalue e.1 e.2 ?_, ?_, fun e he => ?_⟩
      · rw [printed?_of_raw (h.ordered.apart (List.mem_map_of_mem he)), raw?]
        exact Entries.lookup_of_mem h.ordered.nodup_raw he
      · exact stored_array_iff.mp (hvalue "patterns" _ (by simp [printed?]))
      · have hrepository := hvalue "repository" _ rfl
        cases hrepository with
        | object _ hall => exact hall _ (List.mem_map_of_mem he)
  · rintro ⟨hraw, hnodes, hsectionNodes⟩
    refine .object honce fun e he => ?_
    obtain ⟨key, v⟩ := e
    have hv := (hfields key v).mp he
    rcases key_cases key with rfl | rfl | rfl | hkey
    · obtain rfl := Option.some.inj hv
      exact .string _
    · obtain rfl := Option.some.inj hv
      exact stored_array_iff.mpr hnodes
    · obtain rfl := Option.some.inj hv
      refine .object ?_ fun e he => ?_
      · rw [Entries.keys, List.map_map]
        exact h.sections
      · obtain ⟨own, hown, rfl⟩ := List.mem_map.mp he
        exact hsectionNodes own hown
    · rw [printed?_of_raw hkey] at hv
      exact hraw _ (Entries.mem_of_lookup hv)

theorem stored_refresh {d : Document} (hd : d.Sound) {k : Nat} (h : d.toJson.Stored ok (k + 5))
    (groups : List ScopeGroup) : (d.refresh groups).toJson.Stored ok (k + 5) := by
  obtain ⟨hpatterns, hsections⟩ := forall_nodes_iff.mp hd.nodes
  obtain ⟨hraw, hnodes, hsectionNodes⟩ := (stored_iff hd).mp h
  have hall : ∀ {j : Nat} (nodes : List Node), (∀ m ∈ nodes, m.Sound) →
      (∀ m ∈ nodes, m.toJson.Stored ok j) →
        ∀ m ∈ Node.refreshAll groups nodes, m.toJson.Stored ok j := by
    intro j nodes hsound hstored m hm
    rw [Node.refreshAll_eq_map, List.mem_map] at hm
    obtain ⟨m, hm, rfl⟩ := hm
    exact Node.stored_refresh (hsound m hm) groups (hstored m hm)
  refine (stored_iff (sound_refresh hd groups)).mpr ⟨hraw, hall _ hpatterns hnodes, fun e he => ?_⟩
  obtain ⟨own, hown, rfl⟩ := List.mem_map.mp he
  exact Node.stored_mapChildren (hsections own hown) (fun _ => Node.sound_refreshAll groups) hall
    (hsectionNodes own hown)

/-- A generated pattern fits into a section. -/
theorem stored_insertPattern {d : Document} (hd : d.Sound) {k : Nat}
    (h : d.toJson.Stored ok (k + 5)) (name : String) (anchor : Option String) (g : ScopeGroup) :
    (d.modifySection name (insertBefore anchor g.pattern)).Sound ∧
      (d.modifySection name (insertBefore anchor g.pattern)).toJson.Stored ok (k + 5) := by
  obtain ⟨hpatterns, hsections⟩ := forall_nodes_iff.mp hd.nodes
  obtain ⟨hraw, hnodes, hsectionNodes⟩ := (stored_iff hd).mp h
  have hkeep : ∀ {P : Node → Prop} {nodes : List Node}, P g.pattern → (∀ m ∈ nodes, P m) →
      ∀ m ∈ insertBefore anchor g.pattern nodes, P m := by
    intro P nodes hnew hold m hm
    rcases mem_insertBefore.mp hm with rfl | hmem
    · exact hnew
    · exact hold m hmem
  have hsound : ∀ nodes : List Node, (∀ m ∈ nodes, m.Sound) →
      ∀ m ∈ insertBefore anchor g.pattern nodes, m.Sound :=
    fun _ => hkeep (Node.sound_generated _ _ _)
  have hsoundDocument := sound_modifySection hd name hsound
  refine ⟨hsoundDocument, (stored_iff hsoundDocument).mpr ⟨hraw, hnodes, ?_⟩⟩
  refine Entries.forall_modify (P := fun n : Node => n.toJson.Stored ok (k + 3)) hsectionNodes
    fun n hn => ?_
  exact Node.stored_mapChildren (hsections _ hn) hsound
    (fun _ _ => hkeep (Node.stored_generated _ _ _ k)) (hsectionNodes _ hn)

end Document

/-- The synchronized grammar is stored if the grammar is. -/
theorem stored_synchronize {d : Document} (hd : d.Sound) {k : Nat}
    (h : d.toJson.Stored ok (k + 5)) (t : ScopeTable) (taxonomy : Taxonomy) :
    (synchronize t taxonomy d).1.toJson.Stored ok (k + 5) := by
  have hrefreshed : (d.refresh (t.groups taxonomy)).Sound ∧
      (d.refresh (t.groups taxonomy)).toJson.Stored ok (k + 5) :=
    ⟨Document.sound_refresh hd _, Document.stored_refresh hd h _⟩
  rw [synchronize_eq_insertMissing]
  refine (insertMissing_induction (P := fun d => d.Sound ∧ d.toJson.Stored ok (k + 5)) ?_ t _ _
    hrefreshed).2
  rintro d name anchor g ⟨hsound, hstored⟩
  exact Document.stored_insertPattern hsound hstored name anchor g

/-! ### Texts of grammars -/

/-- A grammar that a text gives is sound, stored and unchanged. -/
theorem of_parseGrammar {text path : String} {d : Document}
    (h : parseGrammar text path = .ok d) :
    d.Sound ∧ d.toJson.Stored Number.Readable Json.depthLimit := by
  unfold parseGrammar at h
  cases hv : Json.readDocument text with
  | error f => rw [hv] at h; cases h
  | ok v =>
    rw [hv] at h
    dsimp only at h
    have hstored := Json.stored_readDocument hv
    cases hd : Document.ofJson v with
    | error f => rw [hd] at h; cases h
    | ok own =>
      rw [hd] at h
      rw [← Except.ok.inj h]
      refine ⟨Shape.sound_ofJson hstored.distinctKeys hd, ?_⟩
      rwa [Shape.toJson_ofJson hstored.distinctKeys hd]

/-- A sound grammar that is stored is read back from its text. -/
theorem parseGrammar_render {d : Document} (hd : d.Sound)
    (h : d.toJson.Stored Number.Whole Json.depthLimit) (path : String) :
    parseGrammar d.render path = .ok d := by
  have hread : Json.readDocument d.render = .ok d.toJson := Json.readDocument_pretty h
  rw [parseGrammar, hread]
  dsimp only
  rw [Document.ofJson_toJson hd]

end GrammarSync
