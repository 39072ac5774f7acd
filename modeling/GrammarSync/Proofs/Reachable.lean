/-
# Documents under every change

A document is reachable if it comes from a grammar by any number of changes: a
regular expression set, a node put into a sequence or taken out, a section put
in, replaced, taken out or moved, a refreshing, an insertion of what is
missing, a run. Reading gives a sound document (`sound_ofJson`), and every
change keeps it sound: one lemma for each change, and the run lemma by
induction on the changes (`sound_of_reachable`). The changes touch keys in two
ways only: the typed fields of a node keep their places (`Node.Ordered.congr`),
or a node gets an expression and its key comes last (`ordered_setRegex`).

Key definitions: `Node.Made`, `Edit.Makes`, `Document.Reachable`.
Key theorems: `sound_readNode`, `sound_ofJson`, `Document.sound_modifyNode`,
`sound_apply`, `sound_insertMissing`, `sound_of_reachable`,
`reachable_documents_keep_order`.
-/
import GrammarSync.Grammar.Edit
import GrammarSync.Proofs.Frame
import GrammarSync.Proofs.KeyOrder
import GrammarSync.Sync.Run
import Mathlib.Data.List.Basic
import Mathlib.Data.List.Forall2
import Mathlib.Data.List.Nodup

namespace GrammarSync

/-! ### What is read is sound -/

namespace Shape

/-- A typed key has a value if and only if one of the fields has the key. -/
theorem isSome_value?_node {fields : List Field} (hsorted : ∀ f ∈ fields, f.Sorted) {key : String}
    (hkey : key ∈ Node.typedFields) :
    ((node fields).value? key).isSome ↔ key ∈ fields.map Field.key := by
  have hsome : ∀ {β : Type} {get : Field → Option β},
      (∀ f ∈ fields, (get f).isSome ↔ f.key = key) →
        ((fields.findSome? get).isSome ↔ key ∈ fields.map Field.key) := by
    intro β get hget
    rw [List.findSome?_isSome_iff, List.mem_map]
    exact exists_congr fun f => and_congr_right fun hf => hget f hf
  simp only [Node.typedFields, List.mem_cons, List.not_mem_nil, or_false] at hkey
  rcases hkey with rfl | rfl | rfl | rfl
  · simpa [Node.value?, node] using hsome fun f hf => (hsorted f hf).isSome_iff.1
  · simpa [Node.value?, node] using hsome fun f hf => (hsorted f hf).isSome_iff.2.1
  · simpa [Node.value?, node] using hsome fun f hf => (hsorted f hf).isSome_iff.2.2.1
  · simpa [Node.value?, node] using hsome fun f hf => (hsorted f hf).isSome_iff.2.2.2

/-- The raw keys of fields are those of their keys that have no meaning, in order. -/
theorem keys_raw_eq_filter {α : Type} {key : α → String} {raw? : α → Option (String × Json)}
    {typed : List String} : ∀ {fields : List α},
    (∀ a ∈ fields, (key a ∈ typed → raw? a = none) ∧
      (key a ∉ typed → ∃ v, raw? a = some (key a, v))) →
      Entries.keys (fields.filterMap raw?) = (fields.map key).filter (· ∉ typed)
  | [], _ => rfl
  | a :: fields, h => by
    have ih := keys_raw_eq_filter fun b hb => h b (List.mem_cons_of_mem a hb)
    obtain ⟨hnone, hsome⟩ := h a List.mem_cons_self
    rw [List.map_cons]
    by_cases hkey : key a ∈ typed
    · rw [List.filterMap_cons_none (hnone hkey), List.filter_cons_of_neg (by simp [hkey]), ih]
    · obtain ⟨v, hv⟩ := hsome hkey
      rw [List.filterMap_cons_some hv, List.filter_cons_of_pos (by simp [hkey]), ← ih]
      rfl

/-- A field is raw if and only if its key has no meaning. -/
theorem Field.Sorted.raw?_eq {f : Field} (h : f.Sorted) :
    (f.key ∈ Node.typedFields → f.raw? = none) ∧
      (f.key ∉ Node.typedFields → ∃ v, f.raw? = some (f.key, v)) := by
  cases f with
  | raw key value =>
    have hkey := member?_node_eq_none.mp (h key value rfl)
    exact ⟨fun hmem => absurd hmem hkey, fun _ => ⟨value, rfl⟩⟩
  | _ => exact ⟨fun _ => rfl, fun hkey => absurd (by simp [key, Node.typedFields]) hkey⟩

/-- The node of fields with distinct keys is ordered. -/
theorem ordered_node {fields : List Field} (hnodup : (fields.map Field.key).Nodup)
    (hsorted : ∀ f ∈ fields, f.Sorted) : (node fields).Ordered :=
  .of_typed hnodup (fun _ hkey => (isSome_value?_node hsorted hkey).symm)
    (keys_raw_eq_filter fun f hf => (hsorted f hf).raw?_eq)

/-- A node that is read is sound, and so are the nodes of a sequence that is read. -/
theorem sound_readNode_and_readNodes (v : Json) (hv : v.DistinctKeys) :
    (∀ n, readNode v = .ok n → n.Sound) ∧ ∀ nodes, readNodes v = .ok nodes →
      ∃ items, v = .array items ∧ List.Forall₂ (fun _ n => n.Sound) items nodes := by
  refine readNode_induction (P := fun _ n => n.Sound) (fun members fields hkeys hall => ?_) v hv
  have hfields : Entries.keys members = fields.map Field.key :=
    map_eq_map_of_forall₂ hall fun _ _ _ hf => (readField_sorted hf.2).1.symm
  have hordered : (node fields).Ordered := by
    refine ordered_node ?_ (forall_mem_of_forall₂ hall fun _ _ _ hf => (readField_sorted hf.2).2)
    rwa [← hfields]
  have hnested : ∀ f ∈ fields, ∀ nodes, f.children? = some nodes → ∀ m ∈ nodes, m.Sound := by
    refine forall_mem_of_forall₂ hall fun e _ f hf nodes hnodes => ?_
    rcases readField_cases hf.2 with ⟨s, -, ⟨-, rfl⟩ | ⟨-, rfl⟩ | ⟨-, rfl⟩⟩ |
      ⟨own, hown, -, rfl⟩ | ⟨-, rfl⟩
    · cases hnodes
    · cases hnodes
    · cases hnodes
    · obtain rfl : own = nodes := Option.some.inj hnodes
      obtain ⟨items, -, hsound⟩ := hf.1 own hown
      exact forall_mem_of_forall₂ hsound fun _ _ _ hm => hm
    · cases hnodes
  rw [Node.sound_iff]
  refine ⟨hordered, fun nodes hnodes => ?_⟩
  obtain ⟨f, hf, hchildren⟩ := List.exists_of_findSome?_eq_some hnodes
  exact hnested f hf nodes hchildren

theorem sound_readNode {v : Json} {n : Node} (hv : v.DistinctKeys) (h : readNode v = .ok n) :
    n.Sound :=
  (sound_readNode_and_readNodes v hv).1 n h

theorem sound_readNodes {v : Json} {nodes : List Node} (hv : v.DistinctKeys)
    (h : readNodes v = .ok nodes) : ∀ n ∈ nodes, n.Sound := by
  obtain ⟨items, -, hall⟩ := (sound_readNode_and_readNodes v hv).2 nodes h
  exact forall_mem_of_forall₂ hall fun _ _ _ hn => hn

theorem sound_readRepository {v : Json} {sections : List (String × Node)} (hv : v.DistinctKeys)
    (h : readRepository v = .ok sections) :
    (Entries.keys sections).Nodup ∧ ∀ e ∈ sections, e.2.Sound := by
  obtain ⟨members, rfl, hall⟩ := readRepository_ok h
  have hkeys : Entries.keys members = Entries.keys sections :=
    map_eq_map_of_forall₂ hall fun _ _ _ hs => hs.1.symm
  refine ⟨?_, ?_⟩
  · rw [← hkeys]
    exact hv.1
  · exact forall_mem_of_forall₂ hall fun e he _ hs =>
      sound_readNode (distinctMembers_iff.mp hv.2 e he) hs.2

theorem member?_document_eq_none {key : String} (h : Part.document.member? key = none) :
    key ∉ requiredFields := by
  intro hmem
  simp only [requiredFields, List.mem_cons, List.not_mem_nil, or_false] at hmem
  rcases hmem with rfl | rfl | rfl <;> simp [Part.member?] at h

/-- A field is raw if and only if its key has no meaning. -/
theorem DocumentField.Sorted.raw?_eq {f : DocumentField} (h : f.Sorted) :
    (f.key ∈ requiredFields → f.raw? = none) ∧
      (f.key ∉ requiredFields → ∃ v, f.raw? = some (f.key, v)) := by
  cases f with
  | raw key value =>
    have hkey := member?_document_eq_none (h key value rfl)
    exact ⟨fun hmem => absurd hmem hkey, fun _ => ⟨value, rfl⟩⟩
  | _ => exact ⟨fun _ => rfl, fun hkey => absurd (by simp [key, requiredFields]) hkey⟩

/-- The document of fields with distinct keys is ordered. -/
theorem ordered_document {fields : List DocumentField} {d : Document}
    (hnodup : (fields.map DocumentField.key).Nodup) (hsorted : ∀ f ∈ fields, f.Sorted)
    (hd : document fields = .ok d) : d.Ordered := by
  obtain ⟨hscope, hpatterns, hrepository, hrest, horder⟩ := document_eq_ok hd
  have hplaced : d.rawKeys = d.order.filter (· ∉ requiredFields) := by
    rw [Document.rawKeys, hrest, horder]
    exact keys_raw_eq_filter fun f hf => (hsorted f hf).raw?_eq
  have hrequired : ∀ key ∈ requiredFields, key ∈ d.order := by
    have hfound : ∀ {β : Type} {get : DocumentField → Option β} {b : β} {key : String},
        fields.findSome? get = some b → (∀ f, (get f).isSome → f.key = key) → key ∈ d.order := by
      intro β get b key hb hget
      obtain ⟨f, hf, hfb⟩ := List.exists_of_findSome?_eq_some hb
      rw [horder, ← hget f (by rw [hfb]; rfl)]
      exact List.mem_map_of_mem hf
    simp only [requiredFields, List.forall_mem_cons]
    exact ⟨hfound hscope fun f => f.key_of_isSome.1, hfound hpatterns fun f => f.key_of_isSome.2.1,
      hfound hrepository fun f => f.key_of_isSome.2.2, fun _ h => absurd h List.not_mem_nil⟩
  refine ⟨by rwa [horder], fun key => ?_, hplaced⟩
  rw [hplaced, List.mem_filter, decide_eq_true_eq]
  by_cases hkey : key ∈ requiredFields
  · simp [hkey, hrequired key hkey]
  · simp [hkey]

/-- A document that is read is sound. -/
theorem sound_ofJson {v : Json} {d : Document} (hv : v.DistinctKeys)
    (h : Document.ofJson v = .ok d) : d.Sound := by
  obtain ⟨members, fields, rfl, hd, hall⟩ := ofJson_ok h
  have hkeys : Entries.keys members = fields.map DocumentField.key :=
    map_eq_map_of_forall₂ hall fun _ _ _ hf => (readDocumentField_sorted hf).1.symm
  have hsorted : ∀ f ∈ fields, f.Sorted :=
    forall_mem_of_forall₂ hall fun _ _ _ hf => (readDocumentField_sorted hf).2
  have hparts : ∀ f ∈ fields, (∀ nodes, f = .patterns nodes → ∀ n ∈ nodes, n.Sound) ∧
      ∀ sections, f = .repository sections →
        (Entries.keys sections).Nodup ∧ ∀ e ∈ sections, e.2.Sound := by
    refine forall_mem_of_forall₂ hall fun e he f hf => ?_
    have hvalue := distinctMembers_iff.mp hv.2 e he
    rcases readDocumentField_cases hf with ⟨s, -, -, rfl⟩ | ⟨nodes, hnodes, -, rfl⟩ |
      ⟨sections, hsections, -, rfl⟩ | ⟨-, rfl⟩
    · exact ⟨fun _ h => (nomatch h), fun _ h => (nomatch h)⟩
    · refine ⟨fun own hown => ?_, fun _ h => (nomatch h)⟩
      obtain rfl := DocumentField.patterns.inj hown
      exact sound_readNodes hvalue hnodes
    · refine ⟨fun _ h => (nomatch h), fun own hown => ?_⟩
      obtain rfl := DocumentField.repository.inj hown
      exact sound_readRepository hvalue hsections
    · exact ⟨fun _ h => (nomatch h), fun _ h => (nomatch h)⟩
  have hnodup : (fields.map DocumentField.key).Nodup := by
    rw [← hkeys]
    exact hv.1
  obtain ⟨-, hpatterns, hrepository, -⟩ := document_eq_ok hd
  obtain ⟨f, hf, hfp⟩ := List.exists_of_findSome?_eq_some hpatterns
  obtain ⟨g, hg, hgr⟩ := List.exists_of_findSome?_eq_some hrepository
  have hfpatterns : f = .patterns d.patterns := by
    cases f with
    | patterns nodes => rw [Option.some.inj hfp]
    | _ => cases hfp
  have hgsections : g = .repository d.repository := by
    cases g with
    | repository sections => rw [Option.some.inj hgr]
    | _ => cases hgr
  obtain ⟨hnames, hsections⟩ := (hparts g hg).2 _ hgsections
  refine ⟨ordered_document hnodup hsorted hd, ?_, hnames⟩
  exact Document.forall_nodes_iff.mpr ⟨(hparts f hf).1 _ hfpatterns, hsections⟩

end Shape

/-! ### Changes of nodes -/

namespace Node

/-- The value of a typed key is there as long as the field is. -/
theorem isSome_value?_congr {m n : Node} (hname : m.name.isSome = n.name.isSome)
    (hregex : m.regex.isSome = n.regex.isSome) (hcomment : m.comment.isSome = n.comment.isSome)
    (hchildren : m.children.isSome = n.children.isSome) :
    ∀ key ∈ typedFields, (m.value? key).isSome = (n.value? key).isSome := by
  intro key hkey
  simp only [typedFields, List.mem_cons, List.not_mem_nil, or_false] at hkey
  rcases hkey with rfl | rfl | rfl | rfl
  · simpa [value?] using hname
  · simpa [value?] using hregex
  · simpa [value?] using hcomment
  · simpa [value?] using hchildren

/-- A node with an expression set is ordered: its key comes last if it is new. -/
theorem ordered_setRegex {n : Node} (h : n.Ordered) (regex : String) :
    (n.setRegex regex).Ordered := by
  cases hr : n.regex with
  | some current =>
    have horder : (n.setRegex regex).order = n.order := by
      rw [setRegex, hr]
      rfl
    exact h.congr horder rfl (isSome_value?_congr rfl (by simp [setRegex, hr]) rfl rfl)
  | none =>
    have horder : (n.setRegex regex).order = n.order ++ ["match"] := by
      rw [setRegex, hr]
      rfl
    have hnew : "match" ∉ n.order := by
      rw [h.mem_order_iff]
      simp [value?, hr]
    refine .of_typed ?_ (fun key hkey => ?_) ?_
    · rw [horder, ← List.concat_eq_append]
      exact h.nodup.concat hnew
    · rw [horder, List.mem_append, List.mem_singleton, h.mem_order_iff]
      simp only [typedFields, List.mem_cons, List.not_mem_nil, or_false] at hkey
      rcases hkey with rfl | rfl | rfl | rfl <;> simp [value?, setRegex]
    · have hraw : (n.setRegex regex).rawKeys = n.rawKeys := rfl
      rw [hraw, horder, List.filter_append, ← h.placed]
      exact (List.append_nil _).symm

theorem sound_setRegex {n : Node} (h : n.Sound) (regex : String) : (n.setRegex regex).Sound := by
  obtain ⟨hordered, hnested⟩ := sound_iff.mp h
  exact sound_iff.mpr ⟨ordered_setRegex hordered regex, hnested⟩

theorem sound_generated (comment name regex : String) : (generated comment name regex).Sound := by
  have horder : (generated comment name regex).order = ["comment", "name", "match"] := rfl
  refine sound_iff.mpr ⟨.of_typed ?_ (fun key hkey => ?_) ?_, fun _ h => nomatch h⟩
  · rw [horder]
    decide
  · simp only [typedFields, List.mem_cons, List.not_mem_nil, or_false] at hkey
    rcases hkey with rfl | rfl | rfl | rfl <;> simp [value?, generated]
  · rfl

/-- Other nested nodes in a node. -/
theorem sound_children {n : Node} {nodes others : List Node} (h : n.Sound)
    (hnodes : n.children = some nodes) (hothers : ∀ m ∈ others, m.Sound) :
    Sound { n with children := some others } := by
  obtain ⟨hordered, -⟩ := sound_iff.mp h
  have htyped := isSome_value?_congr (m := { n with children := some others }) (n := n) rfl rfl rfl
    (by rw [hnodes]; rfl)
  refine sound_iff.mpr ⟨hordered.congr rfl rfl htyped, fun own hown => ?_⟩
  · rw [← Option.some.inj hown]
    exact hothers

/-- A change of one node at the end of a way keeps what is around it sound. -/
theorem sound_modifyAt {f : Node → Option Node} (hf : ∀ m m', m.Sound → f m = some m' → m'.Sound) :
    ∀ (steps : List Nat) {n n' : Node}, n.Sound → modifyAt f steps n = some n' → n'.Sound
  | [], n, n', hn, h => hf n n' hn h
  | i :: steps, n, n', hn, h => by
    simp only [modifyAt, Option.bind_eq_bind, Option.bind_eq_some_iff, Option.some.injEq] at h
    obtain ⟨nodes, hnodes, child, hchild, child', hchild', rfl⟩ := h
    have hnested := (sound_iff.mp hn).2 nodes hnodes
    have hsound : child'.Sound :=
      sound_modifyAt hf steps (hnested child (List.mem_of_getElem? hchild)) hchild'
    refine sound_children hn hnodes fun m hm => ?_
    rcases List.mem_or_eq_of_mem_set hm with hold | rfl
    · exact hnested m hold
    · exact hsound

theorem sound_modifyChildren {f : List Node → Option (List Node)}
    (hf : ∀ nodes nodes', (∀ m ∈ nodes, m.Sound) → f nodes = some nodes' → ∀ m ∈ nodes', m.Sound)
    {n n' : Node} (hn : n.Sound) (h : modifyChildren f n = some n') : n'.Sound := by
  simp only [modifyChildren, Option.bind_eq_bind, Option.bind_eq_some_iff, Option.some.injEq] at h
  obtain ⟨nodes, hnodes, nodes', hnodes', rfl⟩ := h
  exact sound_children hn hnodes (hf nodes nodes' ((sound_iff.mp hn).2 nodes hnodes) hnodes')

theorem isSome_refreshedRegex_any (groups : List ScopeGroup) (n : Node) :
    (refreshedRegex groups n).isSome = n.regex.isSome := by
  unfold refreshedRegex managing?
  cases n.regex with
  | none => cases n.name <;> rfl
  | some current =>
    cases n.name with
    | none => rfl
    | some name => cases h : ScopeGroup.find? groups name <;> simp [h]

/-- A refreshed node is sound. -/
theorem sound_refresh {n : Node} (h : n.Sound) (groups : List ScopeGroup) :
    (n.refresh groups).Sound := by
  intro m hm
  rw [preorder_refresh, List.mem_map] at hm
  obtain ⟨k, hk, rfl⟩ := hm
  refine (h k hk).congr (by rw [refresh_eq]) (by rw [refresh_eq]) ?_
  exact isSome_value?_congr (by simp) (by simp [isSome_refreshedRegex_any]) (by simp [refresh_eq])
    (by simp)

theorem sound_refreshAll (groups : List ScopeGroup) {nodes : List Node}
    (h : ∀ n ∈ nodes, n.Sound) : ∀ n ∈ refreshAll groups nodes, n.Sound := by
  intro n hn
  rw [refreshAll_eq_map, List.mem_map] at hn
  obtain ⟨m, hm, rfl⟩ := hn
  exact sound_refresh (h m hm) groups

theorem sound_mapChildren {f : List Node → List Node}
    (hf : ∀ nodes, (∀ m ∈ nodes, m.Sound) → ∀ m ∈ f nodes, m.Sound) {n : Node} (hn : n.Sound) :
    (n.mapChildren f).Sound := by
  obtain ⟨hordered, hnested⟩ := sound_iff.mp hn
  have htyped := isSome_value?_congr (m := n.mapChildren f) (n := n) rfl rfl rfl Option.isSome_map
  refine sound_iff.mpr ⟨hordered.congr rfl rfl htyped, fun nodes hnodes => ?_⟩
  · obtain ⟨own, hown, rfl⟩ := Option.map_eq_some_iff.mp hnodes
    exact hf own (hnested own hown)

end Node

/-! ### Changes of documents -/

namespace Document

/-- Other nodes and sections in a document. -/
theorem sound_parts {d : Document} (h : d.Sound) {patterns : List Node}
    {repository : List (String × Node)} (hpatterns : ∀ n ∈ patterns, n.Sound)
    (hsections : ∀ e ∈ repository, e.2.Sound) (hnames : (Entries.keys repository).Nodup) :
    Sound { d with patterns, repository } :=
  ⟨⟨h.ordered.nodup, h.ordered.listed, h.ordered.placed⟩,
    forall_nodes_iff.mpr ⟨hpatterns, hsections⟩, hnames⟩

end Document

namespace Entries

variable {α : Type} {P : α → Prop}

theorem forall_modify {k : String} {f : α → α} {es : List (String × α)} (h : ∀ e ∈ es, P e.2)
    (hf : ∀ v, (k, v) ∈ es → P (f v)) : ∀ e ∈ modify k f es, P e.2 := by
  induction es with
  | nil => exact h
  | cons e rest ih =>
    obtain ⟨x, u⟩ := e
    rw [List.forall_mem_cons] at h
    unfold modify
    by_cases hx : x = k
    · rw [if_pos hx, List.forall_mem_cons]
      exact ⟨hf u (hx ▸ List.mem_cons_self), h.2⟩
    · rw [if_neg hx, List.forall_mem_cons]
      exact ⟨h.1, ih h.2 fun v hv => hf v (List.mem_cons_of_mem _ hv)⟩

theorem mem_put {k : String} {v : α} {e : String × α} {es : List (String × α)}
    (h : e ∈ put k v es) : e = (k, v) ∨ e ∈ es := by
  induction es with
  | nil => exact .inl (List.mem_singleton.mp h)
  | cons d rest ih =>
    obtain ⟨x, u⟩ := d
    unfold put at h
    by_cases hx : x = k
    · rw [if_pos hx] at h
      exact (List.mem_cons.mp h).imp_right (List.mem_cons_of_mem _)
    · rw [if_neg hx] at h
      rcases List.mem_cons.mp h with rfl | hrest
      · exact .inr List.mem_cons_self
      · exact (ih hrest).imp_right (List.mem_cons_of_mem _)

/-- A new key comes last, another keeps its place. -/
theorem keys_put (k : String) (v : α) (es : List (String × α)) :
    keys (put k v es) = if k ∈ keys es then keys es else keys es ++ [k] := by
  induction es with
  | nil => rfl
  | cons e rest ih =>
    obtain ⟨x, u⟩ := e
    have hcons : ∀ (y : String) (w : α) (es : List (String × α)),
        keys ((y, w) :: es) = y :: keys es := fun _ _ _ => rfl
    unfold put
    by_cases hx : x = k
    · rw [if_pos hx, hcons, hcons, hx, if_pos List.mem_cons_self]
    · rw [if_neg hx, hcons, hcons, ih]
      by_cases hk : k ∈ keys rest
      · rw [if_pos hk, if_pos (List.mem_cons_of_mem _ hk)]
      · have hout : k ∉ x :: keys rest := by
          rw [List.mem_cons, not_or]
          exact ⟨Ne.symm hx, hk⟩
        rw [if_neg hk, if_neg hout, List.cons_append]

theorem nodup_put {k : String} {v : α} {es : List (String × α)} (h : (keys es).Nodup) :
    (keys (put k v es)).Nodup := by
  rw [keys_put]
  by_cases hk : k ∈ keys es
  · rw [if_pos hk]
    exact h
  · rw [if_neg hk, ← List.concat_eq_append]
    exact h.concat hk

end Entries

namespace Document

theorem sound_modifyNode {f : Node → Option Node}
    (hf : ∀ m m', m.Sound → f m = some m' → m'.Sound) {d d' : Document} (hd : d.Sound)
    {place : Place} (h : d.modifyNode f place = some d') : d'.Sound := by
  obtain ⟨hpatterns, hsections⟩ := forall_nodes_iff.mp hd.nodes
  cases place with
  | pattern i steps =>
    simp only [modifyNode, Option.bind_eq_bind, Option.bind_eq_some_iff, Option.some.injEq] at h
    obtain ⟨n, hn, n', hn', rfl⟩ := h
    have hsound := Node.sound_modifyAt hf steps (hpatterns n (List.mem_of_getElem? hn)) hn'
    refine sound_parts hd (fun m hm => ?_) hsections hd.sections
    rcases List.mem_or_eq_of_mem_set hm with hold | rfl
    · exact hpatterns m hold
    · exact hsound
  | inSection name steps =>
    simp only [modifyNode, Option.bind_eq_bind, Option.bind_eq_some_iff, Option.some.injEq] at h
    obtain ⟨n, hn, n', hn', rfl⟩ := h
    have hsound := Node.sound_modifyAt hf steps (hsections _ (Entries.mem_of_lookup hn)) hn'
    refine sound_parts hd hpatterns (Entries.forall_modify hsections fun _ _ => hsound) ?_
    rw [Entries.keys_modify]
    exact hd.sections

theorem sound_modifySequence {f : List Node → Option (List Node)}
    (hf : ∀ nodes nodes', (∀ m ∈ nodes, m.Sound) → f nodes = some nodes' → ∀ m ∈ nodes', m.Sound)
    {d d' : Document} (hd : d.Sound) {sequence : Sequence}
    (h : d.modifySequence f sequence = some d') : d'.Sound := by
  cases sequence with
  | top =>
    simp only [modifySequence, Option.bind_eq_bind, Option.bind_eq_some_iff,
      Option.some.injEq] at h
    obtain ⟨nodes, hnodes, rfl⟩ := h
    obtain ⟨hpatterns, hsections⟩ := forall_nodes_iff.mp hd.nodes
    exact sound_parts hd (hf _ _ hpatterns hnodes) hsections hd.sections
  | under place => exact sound_modifyNode (fun _ _ => Node.sound_modifyChildren hf) hd h

theorem sound_setSection {d : Document} (hd : d.Sound) (name : String) {n : Node} (hn : n.Sound) :
    (d.setSection name n).Sound := by
  obtain ⟨hpatterns, hsections⟩ := forall_nodes_iff.mp hd.nodes
  refine sound_parts hd hpatterns (fun e he => ?_) (Entries.nodup_put hd.sections)
  rcases Entries.mem_put he with rfl | hold
  · exact hn
  · exact hsections e hold

theorem sound_removeSection {d : Document} (hd : d.Sound) (name : String) :
    (d.removeSection name).Sound := by
  obtain ⟨hpatterns, hsections⟩ := forall_nodes_iff.mp hd.nodes
  refine sound_parts hd hpatterns (fun e he => hsections e (List.mem_filter.mp he).1) ?_
  exact hd.sections.sublist (List.filter_sublist.map Prod.fst)

/-- The sections in another order. -/
theorem sound_moveSections {d : Document} (hd : d.Sound) {sections : List (String × Node)}
    (h : sections.Perm d.repository) : Sound { d with repository := sections } := by
  obtain ⟨hpatterns, hsections⟩ := forall_nodes_iff.mp hd.nodes
  refine sound_parts hd hpatterns (fun e he => hsections e (h.mem_iff.mp he)) ?_
  exact (h.map Prod.fst).nodup_iff.mpr hd.sections

theorem sound_refresh {d : Document} (hd : d.Sound) (groups : List ScopeGroup) :
    (d.refresh groups).Sound := by
  obtain ⟨hpatterns, hsections⟩ := forall_nodes_iff.mp hd.nodes
  have hkeys := keys_refresh groups d
  refine sound_parts hd (Node.sound_refreshAll groups hpatterns) (fun e he => ?_) ?_
  · obtain ⟨own, hown, rfl⟩ := List.mem_map.mp he
    exact Node.sound_mapChildren (fun _ => Node.sound_refreshAll groups) (hsections own hown)
  · exact (congrArg List.Nodup hkeys).mpr hd.sections

theorem sound_modifySection {d : Document} (hd : d.Sound) (name : String)
    {f : List Node → List Node} (hf : ∀ nodes, (∀ m ∈ nodes, m.Sound) → ∀ m ∈ f nodes, m.Sound) :
    (d.modifySection name f).Sound := by
  obtain ⟨hpatterns, hsections⟩ := forall_nodes_iff.mp hd.nodes
  refine sound_parts hd hpatterns (Entries.forall_modify hsections fun n hn => ?_) ?_
  · exact Node.sound_mapChildren hf (hsections _ hn)
  · rw [Entries.keys_modify]
    exact hd.sections

end Document

/-! ### Insertions and runs -/

/-- Inserting the pattern of a group changes at most one section, by that pattern. -/
theorem document_insertGroup (t : ScopeTable) (s : Insertion) (g : ScopeGroup) :
    (insertGroup t s g).document = s.document ∨ ∃ name anchor, (insertGroup t s g).document =
      s.document.modifySection name (insertBefore anchor g.pattern) := by
  unfold insertGroup
  by_cases hhandled : g.scope ∈ s.handled
  · rw [if_pos hhandled]
    exact .inl rfl
  rw [if_neg hhandled]
  cases t.route? g.scope with
  | none => exact .inl rfl
  | some route =>
    dsimp only
    by_cases hclosed : (s.document.sectionPatterns? route.target).isNone
    · rw [if_pos hclosed]
      exact .inl rfl
    · rw [if_neg hclosed]
      exact .inr ⟨route.target, t.catchAll? route.target, rfl⟩

/-- What holds of a document and is kept by putting a generated pattern into a section holds after
the insertion of what is missing. -/
theorem insertMissing_induction {P : Document → Prop}
    (step : ∀ d name anchor (g : ScopeGroup), P d →
      P (d.modifySection name (insertBefore anchor g.pattern)))
    (t : ScopeTable) (groups : List ScopeGroup) (handled : WordSet) {d : Document} (hd : P d) :
    P (insertMissing t groups handled d).document := by
  have hfold : ∀ (groups : List ScopeGroup) (s : Insertion), P s.document →
      P (groups.foldl (insertGroup t) s).document := by
    intro groups
    induction groups with
    | nil => exact fun s hs => hs
    | cons g rest ih =>
      intro s hs
      rw [List.foldl_cons]
      refine ih _ ?_
      rcases document_insertGroup t s g with hsame | ⟨name, anchor, hnew⟩
      · rw [hsame]
        exact hs
      · rw [hnew]
        exact step s.document name anchor g hs
  exact hfold groups ⟨d, handled, [], []⟩ hd

theorem Document.sound_insertMissing {d : Document} (hd : d.Sound) (t : ScopeTable)
    (groups : List ScopeGroup) (handled : WordSet) :
    (insertMissing t groups handled d).document.Sound := by
  refine insertMissing_induction (fun d name anchor g hd => ?_) t groups handled hd
  refine sound_modifySection hd name fun nodes hnodes m hm => ?_
  rcases mem_insertBefore.mp hm with rfl | hold
  · exact Node.sound_generated _ _ _
  · exact hnodes m hold

theorem Document.sound_synchronize {d : Document} (hd : d.Sound) (t : ScopeTable)
    (taxonomy : Taxonomy) : (synchronize t taxonomy d).1.Sound := by
  rw [synchronize_eq_insertMissing]
  exact sound_insertMissing (sound_refresh hd _) t _ _

/-! ### Reachable documents -/

/-- A node that comes into a document: parsed or generated. -/
inductive Node.Made : Node → Prop
  | parsed {v : Json} {n : Node} : v.DistinctKeys → Node.ofJson v = .ok n → Node.Made n
  | generated (comment name regex : String) : Node.Made (.generated comment name regex)

theorem Node.Made.sound {n : Node} (h : n.Made) : n.Sound := by
  cases h with
  | parsed hv hn => exact Shape.sound_readNode hv hn
  | generated comment name regex => exact sound_generated comment name regex

/-- The nodes that an edit brings in are parsed or generated. -/
def Edit.Makes : Edit → Prop
  | .insert _ _ n => n.Made
  | .setSection _ n => n.Made
  | _ => True

/-- A document that comes from a parsed one by any number of changes. -/
inductive Document.Reachable : Document → Prop
  | parsed {v : Json} {d : Document} :
      v.DistinctKeys → Document.ofJson v = .ok d → Document.Reachable d
  | edited {d d' : Document} {e : Edit} :
      Document.Reachable d → e.Makes → e.apply d = some d' → Document.Reachable d'
  /-- What is left after a removal may stand in another order. -/
  | moved {d : Document} {sections : List (String × Node)} : Document.Reachable d →
      sections.Perm d.repository → Document.Reachable { d with repository := sections }
  | refreshed {d : Document} (groups : List ScopeGroup) :
      Document.Reachable d → Document.Reachable (d.refresh groups)
  | filled {d : Document} (t : ScopeTable) (groups : List ScopeGroup) (handled : WordSet) :
      Document.Reachable d → Document.Reachable (insertMissing t groups handled d).document
  | synchronized {d : Document} (t : ScopeTable) (taxonomy : Taxonomy) :
      Document.Reachable d → Document.Reachable (synchronize t taxonomy d).1

/-- An edit keeps a document sound. -/
theorem sound_apply {d d' : Document} {e : Edit} (hd : d.Sound) (he : e.Makes)
    (h : e.apply d = some d') : d'.Sound := by
  cases e with
  | setRegex place regex =>
    refine Document.sound_modifyNode (fun m m' hm hm' => ?_) hd h
    rw [← Option.some.inj hm']
    exact Node.sound_setRegex hm regex
  | insert sequence index n =>
    have hseq : d.modifySequence (fun nodes => some (insertNode index n nodes)) sequence =
      some d' := h
    refine Document.sound_modifySequence (fun nodes nodes' hnodes hnew => ?_) hd hseq
    rw [← Option.some.inj hnew]
    intro m hm
    rw [insertNode, List.mem_append, List.mem_cons] at hm
    rcases hm with hfront | rfl | hback
    · exact hnodes m (List.mem_of_mem_take hfront)
    · exact Node.Made.sound he
    · exact hnodes m (List.mem_of_mem_drop hback)
  | remove sequence index =>
    refine Document.sound_modifySequence (fun nodes nodes' hnodes hnew => ?_) hd h
    unfold removeNode at hnew
    by_cases hindex : index < nodes.length
    · rw [if_pos hindex] at hnew
      rw [← Option.some.inj hnew]
      exact fun m hm => hnodes m (List.mem_of_mem_eraseIdx hm)
    · rw [if_neg hindex] at hnew
      cases hnew
  | setSection name n =>
    rw [← Option.some.inj h]
    exact Document.sound_setSection hd name (Node.Made.sound he)
  | removeSection name =>
    rw [← Option.some.inj h]
    exact Document.sound_removeSection hd name

/-- Every change keeps a document sound. -/
theorem sound_of_reachable {d : Document} (h : d.Reachable) : d.Sound := by
  induction h with
  | parsed hv hd => exact Shape.sound_ofJson hv hd
  | edited _ he hd' ih => exact sound_apply ih he hd'
  | moved _ hperm ih => exact Document.sound_moveSections ih hperm
  | refreshed groups _ ih => exact Document.sound_refresh ih groups
  | filled t groups handled _ ih => exact Document.sound_insertMissing ih t groups handled
  | synchronized t taxonomy _ ih => exact Document.sound_synchronize ih t taxonomy

/-- However a document was changed, its keys and those of its nodes are recorded without repetitions
and are exactly the typed keys that are present and the raw keys. So every field is printed once, a
typed one never as null, and the document is read back from its value with the same order of keys
and sections. -/
theorem reachable_documents_keep_order {d : Document} (h : d.Reachable) :
    (d.Ordered ∧ ∀ n ∈ d.nodes, n.Ordered) ∧
      ((∃ members, d.Emitted members) ∧ ∀ n ∈ d.nodes, ∃ members, n.Emitted members) ∧
      Document.ofJson d.toJson = .ok d := by
  have hsound := sound_of_reachable h
  refine ⟨⟨hsound.ordered, hsound.nodes⟩, ⟨⟨_, Document.emitted hsound.ordered⟩, fun n hn => ?_⟩,
    Document.ofJson_toJson hsound⟩
  exact ⟨_, Node.emitted (hsound.nodes n hn)⟩

/-- A grammar with one section, which has no patterns yet. -/
def bareGrammar : Json :=
  .object [("repository", .object [("all", .object [("patterns", .array [])])]),
    ("fileTypes", .null), ("patterns", .array []), ("scopeName", .string "source.hew")]

/-- The grammar after a pattern was put into the section and the section got an expression. -/
def editedGrammar : Document :=
  ⟨"source.hew", [],
    [("all", ⟨none, some "x", none, some [.generated "a" "b" "c"], [], ["patterns", "match"]⟩)],
    [("fileTypes", .null)], ["repository", "fileTypes", "patterns", "scopeName"]⟩

theorem editedGrammar_keeps_order : editedGrammar.Reachable ∧
    (∃ members, editedGrammar.Emitted members) ∧
      Document.ofJson editedGrammar.toJson = .ok editedGrammar := by
  have hdistinct : bareGrammar.DistinctKeys := by
    simp [bareGrammar, Json.DistinctKeys, Json.DistinctItems, Json.DistinctMembers, Entries.keys]
  have hread : Document.ofJson bareGrammar = .ok ⟨"source.hew", [],
      [("all", ⟨none, none, none, some [], [], ["patterns"]⟩)],
      [("fileTypes", .null)], ["repository", "fileTypes", "patterns", "scopeName"]⟩ := by
    have hsection : Shape.readNode (.object [("patterns", .array [])]) =
        .ok ⟨none, none, none, some [], [], ["patterns"]⟩ := by
      rw [Shape.readNode, Shape.readFields, Shape.readFields, Shape.readField, Shape.readNodes,
        Shape.readItems]
      rfl
    have hnodes : Shape.readNodes (.array []) = .ok [] := by
      rw [Shape.readNodes, Shape.readItems]
    simp only [bareGrammar, Document.ofJson, Shape.readDocumentFields, Shape.readDocumentField,
      Shape.readRepository, Shape.readSections, hsection, hnodes]
    rfl
  have hreachable : editedGrammar.Reachable := by
    have hinserted := Document.Reachable.edited (.parsed hdistinct hread)
      (e := .insert (.under (.inSection "all" [])) 0 (.generated "a" "b" "c"))
      (.generated "a" "b" "c") rfl
    exact .edited hinserted (e := .setRegex (.inSection "all" []) "x") trivial rfl
  obtain ⟨-, ⟨hemitted, -⟩, hback⟩ := reachable_documents_keep_order hreachable
  exact ⟨hreachable, hemitted, hback⟩

end GrammarSync
