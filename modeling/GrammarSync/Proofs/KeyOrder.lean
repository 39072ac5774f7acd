/-
# The order of keys

A node keeps the order of its keys beside its typed fields and its raw values,
and a document does the same; the types do not make the two agree. They agree
if the order has no repetitions and lists exactly the typed keys that are
present and the raw keys, these in the order of their values (`Node.Ordered`,
`Document.Ordered`). Printing looks up every key of the order. Where order and
fields agree it gives every field once, a typed one never as null
(`Node.emitted`, `Document.emitted`), and what was printed is read back as it
was, with sections and keys in their order (`readNode_toJson`,
`ofJson_toJson`).

Key definitions: `Node.Ordered`, `Node.Sound`, `Document.Ordered`,
`Document.Sound`, `Node.Emitted`, `Document.Emitted`.
Key theorems: `Node.Ordered.mem_order_iff`, `Node.sound_iff`, `Node.emitted`,
`Document.emitted`, `readNode_toJson`, `ofJson_toJson`.
-/
import GrammarSync.Proofs.FirstFault
import GrammarSync.Proofs.Refresh
import Mathlib.Data.List.Basic
import Mathlib.Data.List.Forall2
import Mathlib.Data.List.Nodup

namespace GrammarSync

/-! ### Raw values beside their keys -/

section Raw

variable {rest : List (String × Json)} {order : List String}

theorem isSome_lookup_iff {key : String} : (rest.lookup key).isSome ↔ key ∈ Entries.keys rest := by
  rw [← Option.ne_none_iff_isSome, ne_eq, Entries.lookup_eq_none_iff, not_not]

/-- Raw values that stand in the order of their keys are found again key by key. -/
theorem filterMap_raw {fields : List String} (hnodup : order.Nodup)
    (hplaced : Entries.keys rest = order.filter (· ∉ fields)) :
    (order.filterMap fun key =>
      if key ∉ fields then some (key, (rest.lookup key).getD .null) else none) = rest := by
  have hkeys : (Entries.keys rest).Nodup := by
    rw [hplaced]
    exact hnodup.filter _
  have hguard : (order.filterMap fun key =>
      if key ∉ fields then some (key, (rest.lookup key).getD .null) else none) =
        (Entries.keys rest).map fun key => (key, (rest.lookup key).getD .null) := by
    rw [hplaced, ← List.filterMap_eq_filter, List.map_filterMap]
    refine List.filterMap_congr fun key _ => ?_
    by_cases hkey : key ∈ fields <;> simp [Option.guard, hkey]
  rw [hguard, Entries.keys, List.map_map]
  refine (List.map_congr_left fun e he => ?_).trans (List.map_id rest)
  have hfound : rest.lookup e.1 = some e.2 := Entries.lookup_of_mem hkeys he
  rw [Function.comp_apply, hfound]
  rfl

end Raw

/-! ### Nodes -/

namespace Node

/-- The keys of a node that have a meaning. -/
def typedFields : List String :=
  ["name", "match", "comment", "patterns"]

/-- The value under a key: of a typed field that is present, or raw. -/
def value? (n : Node) (key : String) : Option Json :=
  if key = "name" then n.name.map .string
  else if key = "match" then n.regex.map .string
  else if key = "comment" then n.comment.map .string
  else if key = "patterns" then n.children.map fun nodes => .array (toJsonAll nodes)
  else n.raw? key

/-- The typed keys that are present. -/
def typedKeys (n : Node) : List String :=
  typedFields.filter fun key => (n.value? key).isSome

/-- The raw keys. -/
def rawKeys (n : Node) : List String :=
  Entries.keys n.rest

/-- The order has no repetitions, it lists the typed keys that are present and the raw keys, and the
raw values stand in it. -/
structure Ordered (n : Node) : Prop where
  nodup : n.order.Nodup
  listed : ∀ key, key ∈ n.order ↔ key ∈ n.typedKeys ∨ key ∈ n.rawKeys
  placed : n.rawKeys = n.order.filter (· ∉ typedFields)

/-- The keys of the node and of all nodes nested in it are in order. -/
def Sound (n : Node) : Prop :=
  ∀ m ∈ n.preorder, m.Ordered

theorem sound_iff {n : Node} : n.Sound ↔
    n.Ordered ∧ ∀ nodes, n.children = some nodes → ∀ m ∈ nodes, m.Sound := by
  unfold Sound
  rw [preorder_eq, List.forall_mem_cons]
  refine and_congr_right fun _ => ?_
  cases n.children with
  | none => simp [preorderAll]
  | some nodes =>
    rw [Option.getD_some, preorderAll_eq_flatMap]
    simp only [List.mem_flatMap, Option.some.injEq, forall_eq']
    constructor
    · exact fun h m hm k hk => h k ⟨m, hm, hk⟩
    · rintro h k ⟨m, hm, hk⟩
      exact h m hm k hk

theorem key_cases (key : String) : key = "name" ∨ key = "match" ∨ key = "comment" ∨
    key = "patterns" ∨ key ∉ typedFields := by
  simp only [typedFields, List.mem_cons, List.not_mem_nil, or_false]
  tauto

theorem value?_of_raw {n : Node} {key : String} (hkey : key ∉ typedFields) :
    n.value? key = n.raw? key := by
  simp only [typedFields, List.mem_cons, List.not_mem_nil, or_false, not_or] at hkey
  simp [value?, hkey]

theorem mem_typedKeys {n : Node} {key : String} :
    key ∈ n.typedKeys ↔ key ∈ typedFields ∧ (n.value? key).isSome :=
  List.mem_filter

/-- An order without repetitions is right if it is for the typed keys and if the raw values stand in
it. -/
theorem Ordered.of_typed {n : Node} (hnodup : n.order.Nodup)
    (htyped : ∀ key ∈ typedFields, (key ∈ n.order ↔ (n.value? key).isSome))
    (hplaced : n.rawKeys = n.order.filter (· ∉ typedFields)) : n.Ordered := by
  refine ⟨hnodup, fun key => ?_, hplaced⟩
  rw [mem_typedKeys, hplaced, List.mem_filter, decide_eq_true_eq]
  by_cases hkey : key ∈ typedFields
  · simp [htyped key hkey, hkey]
  · simp [hkey]

namespace Ordered

variable {n : Node} (h : n.Ordered)
include h

/-- No raw key is a typed one. -/
theorem apart {key : String} (hkey : key ∈ n.rawKeys) : key ∉ typedFields := by
  rw [h.placed, List.mem_filter, decide_eq_true_eq] at hkey
  exact hkey.2

theorem nodup_raw : n.rawKeys.Nodup := by
  rw [h.placed]
  exact h.nodup.filter _

/-- The keys of the order are those that have a value. -/
theorem mem_order_iff {key : String} : key ∈ n.order ↔ (n.value? key).isSome := by
  rw [h.listed, mem_typedKeys]
  by_cases hkey : key ∈ typedFields
  · have hraw : key ∉ n.rawKeys := fun hraw => h.apart hraw hkey
    simp [hkey, hraw]
  · rw [value?_of_raw hkey, raw?, isSome_lookup_iff, ← rawKeys]
    simp [hkey]

/-- The order fits every node with it that has the same raw values and typed fields in the same
places. -/
theorem congr {m : Node} (horder : m.order = n.order) (hrest : m.rest = n.rest)
    (htyped : ∀ key ∈ typedFields, (m.value? key).isSome = (n.value? key).isSome) : m.Ordered := by
  refine .of_typed ?_ (fun key hkey => ?_) ?_
  · rw [horder]
    exact h.nodup
  · rw [horder, htyped key hkey]
    exact h.mem_order_iff
  · rw [rawKeys, hrest, horder]
    exact h.placed

end Ordered

end Node

/-! ### Reading a printed node -/

namespace Shape

theorem member?_node_eq_none {key : String} :
    Part.node.member? key = none ↔ key ∉ Node.typedFields := by
  rw [Node.typedFields]
  constructor
  · intro hnone hmem
    simp only [List.mem_cons, List.not_mem_nil, or_false] at hmem
    rcases hmem with rfl | rfl | rfl | rfl <;> simp [Part.member?] at hnone
  · intro hkey
    simp only [List.mem_cons, List.not_mem_nil, or_false, not_or] at hkey
    simp [Part.member?, hkey]

/-- A field is read from its member, if its nested nodes are and its raw key has no meaning. -/
theorem readField_member {f : Field} (hsorted : f.Sorted)
    (hnodes : ∀ nodes, f = .children nodes →
      readNodes (.array (Node.toJsonAll nodes)) = .ok nodes) :
    readField f.key f.value = .ok f := by
  cases f with
  | children nodes =>
    unfold readField
    simp [Field.key, Field.value, hnodes nodes rfl, Except.map]
  | raw key value =>
    have hkey := member?_node_eq_none.mp (hsorted key value rfl)
    unfold readField
    simp only [Node.typedFields, List.mem_cons, List.not_mem_nil, or_false, not_or] at hkey
    simp [Field.key, Field.value, hkey]
  | _ =>
    unfold readField
    simp [Field.key, Field.value, readText, Except.map]

/-- A sequence is read from the values of its nodes if each node is. -/
theorem readNodes_toJsonAll {nodes : List Node} (h : ∀ n ∈ nodes, readNode n.toJson = .ok n) :
    readNodes (.array (Node.toJsonAll nodes)) = .ok nodes := by
  have hitems : List.Forall₂ (fun w n => readNode w = .ok n) (nodes.map Node.toJson) nodes := by
    rw [List.forall₂_map_left_iff, List.forall₂_same]
    exact h
  have hindexed : (nodes.map Node.toJson).zipIdx.map Prod.fst = nodes.map Node.toJson := by
    rw [List.zipIdx_map_fst]
  rw [readNodes, readItems_eq_readAll, Node.toJsonAll_eq_map]
  refine readAll_eq_ok ?_
  rw [← hindexed, List.forall₂_map_left_iff] at hitems
  exact hitems.imp fun e n hn => by rw [hn]; rfl

/-- Sections are read from their values if each node is. -/
theorem readRepository_toJson {sections : List (String × Node)}
    (h : ∀ e ∈ sections, readNode e.2.toJson = .ok e.2) :
    readRepository (.object (sections.map fun e => (e.1, e.2.toJson))) = .ok sections := by
  rw [readRepository, readSections_eq_readAll]
  refine readAll_eq_ok ?_
  rw [List.forall₂_map_left_iff, List.forall₂_same]
  intro e he
  rw [h e he]
  rfl

end Shape

namespace Node

/-- The field under a key. -/
def field (n : Node) (key : String) : Shape.Field :=
  if key = "name" then .name (n.name.getD "")
  else if key = "match" then .regex (n.regex.getD "")
  else if key = "comment" then .comment (n.comment.getD "")
  else if key = "patterns" then .children (n.children.getD [])
  else .raw key ((n.raw? key).getD .null)

theorem field_of_raw {n : Node} {key : String} (hkey : key ∉ typedFields) :
    n.field key = .raw key ((n.raw? key).getD .null) := by
  simp only [typedFields, List.mem_cons, List.not_mem_nil, or_false, not_or] at hkey
  simp [field, hkey]

theorem key_field (n : Node) (key : String) : (n.field key).key = key := by
  rcases key_cases key with rfl | rfl | rfl | rfl | hkey
  · simp [field, Shape.Field.key]
  · simp [field, Shape.Field.key]
  · simp [field, Shape.Field.key]
  · simp [field, Shape.Field.key]
  · rw [field_of_raw hkey]
    rfl

theorem sorted_field (n : Node) (key : String) : (n.field key).Sorted := by
  intro k v hraw
  have hk : key = k := by
    rw [← n.key_field key, hraw]
    rfl
  rw [Shape.member?_node_eq_none, ← hk]
  intro hkey
  simp only [typedFields, List.mem_cons, List.not_mem_nil, or_false] at hkey
  rcases hkey with rfl | rfl | rfl | rfl <;> simp [field] at hraw

theorem keys_fields (n : Node) : (n.order.map n.field).map Shape.Field.key = n.order := by
  rw [List.map_map]
  exact (List.map_congr_left fun key _ => n.key_field key).trans (List.map_id _)

/-- A value under a key is that of the field, and it is what is printed. -/
theorem value?_eq_field {n : Node} {key : String} (h : (n.value? key).isSome) :
    n.value? key = some (n.field key).value ∧
      n.printed? n.nested key = some (n.field key).value := by
  obtain ⟨v, hv⟩ := Option.isSome_iff_exists.mp h
  rcases key_cases key with rfl | rfl | rfl | rfl | hkey
  · obtain ⟨s, hs, rfl⟩ := Option.map_eq_some_iff.mp hv
    simp [value?, printed?, field, hs, Shape.Field.value, optionalText]
  · obtain ⟨s, hs, rfl⟩ := Option.map_eq_some_iff.mp hv
    simp [value?, printed?, field, hs, Shape.Field.value, optionalText]
  · obtain ⟨s, hs, rfl⟩ := Option.map_eq_some_iff.mp hv
    simp [value?, printed?, field, hs, Shape.Field.value, optionalText]
  · obtain ⟨nodes, hnodes, rfl⟩ := Option.map_eq_some_iff.mp hv
    simp [value?, printed?, field, hnodes, Shape.Field.value, nested]
  · rw [Shape.printed?_of_raw n n.nested (Shape.member?_node_eq_none.mpr hkey), value?_of_raw hkey,
      field_of_raw hkey]
    rw [value?_of_raw hkey] at hv
    simp [hv, Shape.Field.value]

/-- What one typed key holds is found among the fields. -/
theorem findSome?_fields {β : Type} {n : Node} (h : n.Ordered) {key : String}
    {get : Shape.Field → Option β} (value : Option β)
    (hhas : (n.value? key).isSome = value.isSome)
    (hsame : ∀ b, value = some b → get (n.field key) = some b)
    (hget : ∀ f, (get f).isSome → f.key = key) :
    (n.order.map n.field).findSome? get = value := by
  have hother : ∀ k, (get (n.field k)).isSome → k = key := fun k hk => by
    rw [← n.key_field k, hget _ hk]
  rw [List.findSome?_map]
  cases value with
  | none =>
    rw [List.findSome?_eq_none_iff]
    intro k hk
    rw [← Option.not_isSome_iff_eq_none]
    intro hsome
    rw [hother k hsome, h.mem_order_iff, hhas] at hk
    cases hk
  | some b =>
    have hkey : key ∈ n.order := h.mem_order_iff.mpr hhas
    exact findSome?_eq_of_unique hkey (hsame b rfl) fun k _ => hother k

/-- A field that gives a raw value has a key without a meaning. -/
theorem raw?_field (n : Node) (key : String) : (n.field key).raw? =
    if key ∉ typedFields then some (key, (n.raw? key).getD .null) else none := by
  rcases key_cases key with rfl | rfl | rfl | rfl | hkey
  · simp [field, Shape.Field.raw?, typedFields]
  · simp [field, Shape.Field.raw?, typedFields]
  · simp [field, Shape.Field.raw?, typedFields]
  · simp [field, Shape.Field.raw?, typedFields]
  · rw [field_of_raw hkey, if_pos hkey]
    rfl

/-- The node of its own fields. -/
theorem node_fields {n : Node} (h : n.Ordered) : Shape.node (n.order.map n.field) = n := by
  have hname : (n.order.map n.field).findSome? Shape.Field.name? = n.name :=
    findSome?_fields h n.name (by simp [value?])
      (fun b hb => by simp [field, hb, Shape.Field.name?]) fun f => f.key_of_isSome.1
  have hregex : (n.order.map n.field).findSome? Shape.Field.regex? = n.regex :=
    findSome?_fields h n.regex (by simp [value?])
      (fun b hb => by simp [field, hb, Shape.Field.regex?]) fun f => f.key_of_isSome.2.1
  have hcomment : (n.order.map n.field).findSome? Shape.Field.comment? = n.comment :=
    findSome?_fields h n.comment (by simp [value?])
      (fun b hb => by simp [field, hb, Shape.Field.comment?]) fun f => f.key_of_isSome.2.2.1
  have hchildren : (n.order.map n.field).findSome? Shape.Field.children? = n.children :=
    findSome?_fields h n.children (by simp [value?])
      (fun b hb => by simp [field, hb, Shape.Field.children?]) fun f => f.key_of_isSome.2.2.2
  have hrest : (n.order.map n.field).filterMap Shape.Field.raw? = n.rest := by
    rw [List.filterMap_map]
    exact (List.filterMap_congr fun key _ => n.raw?_field key).trans
      (filterMap_raw h.nodup h.placed)
  rw [Shape.node, hname, hregex, hcomment, hchildren, hrest, keys_fields]
  cases n
  rfl

/-- The fields of an ordered node are its members. -/
theorem toJson_eq_fields {n : Node} (h : n.Ordered) :
    n.toJson = .object ((n.order.map n.field).map fun f => (f.key, f.value)) := by
  have hmembers : Entries.listed (n.printed? n.nested) ((n.order.map n.field).map Shape.Field.key) =
      (n.order.map n.field).map fun f => (f.key, f.value) := by
    refine Entries.listed_map fun f hf => ?_
    obtain ⟨key, hkey, rfl⟩ := List.mem_map.mp hf
    rw [key_field]
    exact (value?_eq_field (h.mem_order_iff.mp hkey)).2
  rw [toJson_eq, ← hmembers, keys_fields]

/-- A sound node is read back from its value. -/
theorem readNode_toJson {n : Node} (h : n.Sound) : Shape.readNode n.toJson = .ok n := by
  induction n using Node.induction with
  | step n ih =>
    obtain ⟨hordered, hnested⟩ := sound_iff.mp h
    have hfields : ∀ f ∈ n.order.map n.field, Shape.readField f.key f.value = .ok f := by
      intro f hf
      obtain ⟨key, hkey, rfl⟩ := List.mem_map.mp hf
      refine Shape.readField_member (n.sorted_field key) fun nodes hchildren => ?_
      obtain rfl : key = "patterns" := by
        rw [← n.key_field key, hchildren]
        rfl
      have hhas : (n.value? "patterns").isSome := hordered.mem_order_iff.mp hkey
      have hsome : n.children = some nodes := by
        obtain ⟨v, hv⟩ := Option.isSome_iff_exists.mp hhas
        obtain ⟨own, hown, -⟩ := Option.map_eq_some_iff.mp hv
        have hsame : Shape.Field.children (n.children.getD []) = .children nodes := hchildren
        rw [hown] at hsame ⊢
        exact congrArg some (Shape.Field.children.inj hsame)
      exact Shape.readNodes_toJsonAll fun m hm => ih nodes hsome m hm (hnested nodes hsome m hm)
    have hread : Shape.readAll (fun e => Shape.within e.1 (Shape.readField e.1 e.2))
        ((n.order.map n.field).map fun f => (f.key, f.value)) = .ok (n.order.map n.field) := by
      refine Shape.readAll_eq_ok ?_
      rw [List.forall₂_map_left_iff, List.forall₂_same]
      intro f hf
      rw [hfields f hf]
      rfl
    rw [toJson_eq_fields hordered, Shape.readNode, Shape.readFields_eq_readAll, hread]
    exact congrArg Except.ok (node_fields hordered)

/-! ### What a node prints -/

/-- A node prints its fields, each once and in the recorded order, and no null under a typed key. -/
structure Emitted (n : Node) (members : List (String × Json)) : Prop where
  json : n.toJson = .object members
  keys : Entries.keys members = n.order
  once : (Entries.keys members).Nodup
  fields : ∀ key v, (key, v) ∈ members ↔ n.value? key = some v
  typed : ∀ key ∈ typedFields, (key, Json.null) ∉ members

/-- No typed field is null. -/
theorem value?_typed_ne_null (n : Node) {key : String} (hkey : key ∈ typedFields) :
    n.value? key ≠ some .null := by
  simp only [typedFields, List.mem_cons, List.not_mem_nil, or_false] at hkey
  rcases hkey with rfl | rfl | rfl | rfl <;> simp [value?]

/-- An ordered node prints the values of its keys. -/
theorem toJson_eq_listed {n : Node} (h : n.Ordered) :
    n.toJson = .object (Entries.listed n.value? n.order) := by
  rw [toJson_eq]
  refine congrArg Json.object (List.filterMap_congr fun key hkey => ?_)
  obtain ⟨hvalue, hprinted⟩ := value?_eq_field (h.mem_order_iff.mp hkey)
  rw [hvalue, hprinted]

/-- An ordered node prints its fields. -/
theorem emitted {n : Node} (h : n.Ordered) : n.Emitted (Entries.listed n.value? n.order) := by
  have hkeys : Entries.keys (Entries.listed n.value? n.order) = n.order :=
    Entries.keys_listed fun _ hkey => h.mem_order_iff.mp hkey
  refine ⟨toJson_eq_listed h, hkeys, ?_, fun key v => ?_, fun key hkey hnull => ?_⟩
  · rw [hkeys]
    exact h.nodup
  · rw [Entries.mem_listed, h.mem_order_iff]
    exact and_iff_right_of_imp fun hv => by rw [hv]; rfl
  · exact n.value?_typed_ne_null hkey (Entries.mem_listed.mp hnull).2

/-- Where the order and the raw values do not agree, printing loses both. -/
example : (⟨none, none, none, none, [("begin", .null)], ["end"]⟩ : Node).toJson = .object [] :=
  rfl

end Node

/-! ### Documents -/

namespace Document

/-- The raw keys. -/
def rawKeys (d : Document) : List String :=
  Entries.keys d.rest

/-- All nodes of a document: of the top sequence and of the sections, at every depth. -/
def nodes (d : Document) : List Node :=
  Node.preorderAll d.patterns ++ d.repository.flatMap fun e => e.2.preorder

/-- The order has no repetitions, it lists the required keys and the raw keys, and the raw values
stand in it. -/
structure Ordered (d : Document) : Prop where
  nodup : d.order.Nodup
  listed : ∀ key, key ∈ d.order ↔ key ∈ Shape.requiredFields ∨ key ∈ d.rawKeys
  placed : d.rawKeys = d.order.filter (· ∉ Shape.requiredFields)

/-- The keys of a document and of all its nodes are in order, and no two sections have one name. -/
structure Sound (d : Document) : Prop where
  ordered : d.Ordered
  nodes : ∀ n ∈ d.nodes, n.Ordered
  sections : (Entries.keys d.repository).Nodup

theorem forall_nodes_iff {d : Document} : (∀ n ∈ d.nodes, n.Ordered) ↔
    (∀ n ∈ d.patterns, n.Sound) ∧ ∀ e ∈ d.repository, e.2.Sound := by
  unfold nodes Node.Sound
  rw [List.forall_mem_append, Node.preorderAll_eq_flatMap]
  simp only [List.mem_flatMap]
  constructor
  · rintro ⟨hpatterns, hsections⟩
    exact ⟨fun n hn m hm => hpatterns m ⟨n, hn, hm⟩, fun e he m hm => hsections m ⟨e, he, hm⟩⟩
  · rintro ⟨hpatterns, hsections⟩
    refine ⟨?_, ?_⟩
    · rintro m ⟨n, hn, hm⟩
      exact hpatterns n hn m hm
    · rintro m ⟨e, he, hm⟩
      exact hsections e he m hm

theorem key_cases (key : String) : key = "scopeName" ∨ key = "patterns" ∨ key = "repository" ∨
    key ∉ Shape.requiredFields := by
  simp only [Shape.requiredFields, List.mem_cons, List.not_mem_nil, or_false]
  tauto

theorem printed?_of_raw {d : Document} {key : String} (hkey : key ∉ Shape.requiredFields) :
    d.printed? key = d.raw? key := by
  simp only [Shape.requiredFields, List.mem_cons, List.not_mem_nil, or_false, not_or] at hkey
  simp [printed?, hkey]

/-- Every required key has a value, and it is not null. -/
theorem printed?_required (d : Document) {key : String} (hkey : key ∈ Shape.requiredFields) :
    (d.printed? key).isSome ∧ d.printed? key ≠ some .null := by
  simp only [Shape.requiredFields, List.mem_cons, List.not_mem_nil, or_false] at hkey
  rcases hkey with rfl | rfl | rfl <;> simp [printed?]

namespace Ordered

variable {d : Document} (h : d.Ordered)
include h

/-- No raw key is a required one. -/
theorem apart {key : String} (hkey : key ∈ d.rawKeys) : key ∉ Shape.requiredFields := by
  rw [h.placed, List.mem_filter, decide_eq_true_eq] at hkey
  exact hkey.2

theorem nodup_raw : d.rawKeys.Nodup := by
  rw [h.placed]
  exact h.nodup.filter _

/-- The keys of the order are those that have a value. -/
theorem mem_order_iff {key : String} : key ∈ d.order ↔ (d.printed? key).isSome := by
  rw [h.listed]
  by_cases hkey : key ∈ Shape.requiredFields
  · simp [hkey, (d.printed?_required hkey).1]
  · rw [printed?_of_raw hkey, raw?, isSome_lookup_iff, ← rawKeys, or_iff_right hkey]

end Ordered

/-- The field under a key. -/
def field (d : Document) (key : String) : Shape.DocumentField :=
  if key = "scopeName" then .scopeName d.scopeName
  else if key = "patterns" then .patterns d.patterns
  else if key = "repository" then .repository d.repository
  else .raw key ((d.raw? key).getD .null)

theorem field_of_raw {d : Document} {key : String} (hkey : key ∉ Shape.requiredFields) :
    d.field key = .raw key ((d.raw? key).getD .null) := by
  simp only [Shape.requiredFields, List.mem_cons, List.not_mem_nil, or_false, not_or] at hkey
  simp [field, hkey]

theorem key_field (d : Document) (key : String) : (d.field key).key = key := by
  rcases key_cases key with rfl | rfl | rfl | hkey
  · simp [field, Shape.DocumentField.key]
  · simp [field, Shape.DocumentField.key]
  · simp [field, Shape.DocumentField.key]
  · rw [field_of_raw hkey]
    rfl

theorem keys_fields (d : Document) :
    (d.order.map d.field).map Shape.DocumentField.key = d.order := by
  rw [List.map_map]
  exact (List.map_congr_left fun key _ => d.key_field key).trans (List.map_id _)

/-- What is printed under a key is the value of the field. -/
theorem printed?_eq_field {d : Document} {key : String} (h : (d.printed? key).isSome) :
    d.printed? key = some (d.field key).value := by
  rcases key_cases key with rfl | rfl | rfl | hkey
  · simp [printed?, field, Shape.DocumentField.value]
  · simp [printed?, field, Shape.DocumentField.value]
  · simp [printed?, field, Shape.DocumentField.value]
  · rw [printed?_of_raw hkey] at h ⊢
    obtain ⟨v, hv⟩ := Option.isSome_iff_exists.mp h
    rw [field_of_raw hkey, hv]
    rfl

theorem toJson_eq_fields {d : Document} (h : d.Ordered) :
    d.toJson = .object ((d.order.map d.field).map fun f => (f.key, f.value)) := by
  have hmembers : Entries.listed d.printed? ((d.order.map d.field).map Shape.DocumentField.key) =
      (d.order.map d.field).map fun f => (f.key, f.value) := by
    refine Entries.listed_map fun f hf => ?_
    obtain ⟨key, hkey, rfl⟩ := List.mem_map.mp hf
    rw [key_field]
    exact printed?_eq_field (h.mem_order_iff.mp hkey)
  rw [toJson, ← hmembers, keys_fields]

/-- A field that gives a raw value has a key without a meaning. -/
theorem raw?_field (d : Document) (key : String) : (d.field key).raw? =
    if key ∉ Shape.requiredFields then some (key, (d.raw? key).getD .null) else none := by
  rcases key_cases key with rfl | rfl | rfl | hkey
  · simp [field, Shape.DocumentField.raw?, Shape.requiredFields]
  · simp [field, Shape.DocumentField.raw?, Shape.requiredFields]
  · simp [field, Shape.DocumentField.raw?, Shape.requiredFields]
  · rw [field_of_raw hkey, if_pos hkey]
    rfl

/-- The document of its own fields. -/
theorem document_fields {d : Document} (h : d.Ordered) :
    Shape.document (d.order.map d.field) = .ok d := by
  have hfind : ∀ {β : Type} {get : Shape.DocumentField → Option β} {key : String} {b : β},
      key ∈ Shape.requiredFields → get (d.field key) = some b →
        (∀ f, (get f).isSome → f.key = key) → (d.order.map d.field).findSome? get = some b := by
    intro β get key b hkey hb hget
    have hmem : key ∈ d.order := (h.listed key).mpr (.inl hkey)
    rw [List.findSome?_map]
    refine findSome?_eq_of_unique hmem hb fun k _ hk => ?_
    rw [← d.key_field k, hget _ hk]
  have hscope : (d.order.map d.field).findSome? Shape.DocumentField.scopeName? =
      some d.scopeName :=
    hfind (by simp [Shape.requiredFields]) (by simp [field, Shape.DocumentField.scopeName?])
      fun f => f.key_of_isSome.1
  have hpatterns : (d.order.map d.field).findSome? Shape.DocumentField.patterns? =
      some d.patterns :=
    hfind (by simp [Shape.requiredFields]) (by simp [field, Shape.DocumentField.patterns?])
      fun f => f.key_of_isSome.2.1
  have hrepository : (d.order.map d.field).findSome? Shape.DocumentField.repository? =
      some d.repository :=
    hfind (by simp [Shape.requiredFields]) (by simp [field, Shape.DocumentField.repository?])
      fun f => f.key_of_isSome.2.2
  have hrest : (d.order.map d.field).filterMap Shape.DocumentField.raw? = d.rest := by
    rw [List.filterMap_map]
    exact (List.filterMap_congr fun key _ => d.raw?_field key).trans
      (filterMap_raw h.nodup h.placed)
  rw [Shape.document, hscope, hpatterns, hrepository, hrest, keys_fields]
  rfl

/-- A sound document is read back from its value. -/
theorem ofJson_toJson {d : Document} (h : d.Sound) : ofJson d.toJson = .ok d := by
  obtain ⟨hpatterns, hsections⟩ := forall_nodes_iff.mp h.nodes
  have hfields : ∀ f ∈ d.order.map d.field, Shape.readDocumentField f.key f.value = .ok f := by
    intro f hf
    obtain ⟨key, hkey, rfl⟩ := List.mem_map.mp hf
    rcases key_cases key with rfl | rfl | rfl | hraw
    · simp [field, Shape.DocumentField.key, Shape.DocumentField.value, Shape.readDocumentField,
        Shape.readText, Except.map]
    · have hnodes := Shape.readNodes_toJsonAll fun n hn => Node.readNode_toJson (hpatterns n hn)
      simp [field, Shape.DocumentField.key, Shape.DocumentField.value, Shape.readDocumentField,
        hnodes, Except.map]
    · have hread := Shape.readRepository_toJson fun e he => Node.readNode_toJson (hsections e he)
      simp [field, Shape.DocumentField.key, Shape.DocumentField.value, Shape.readDocumentField,
        hread, Except.map]
    · rw [field_of_raw hraw]
      simp only [Shape.requiredFields, List.mem_cons, List.not_mem_nil, or_false, not_or] at hraw
      simp [Shape.DocumentField.key, Shape.DocumentField.value, Shape.readDocumentField, hraw]
  have hread : Shape.readDocumentFields ((d.order.map d.field).map fun f => (f.key, f.value)) =
      .ok (d.order.map d.field) := by
    rw [Shape.readDocumentFields_eq_readAll]
    refine Shape.readAll_eq_ok ?_
    rw [List.forall₂_map_left_iff, List.forall₂_same]
    intro f hf
    rw [hfields f hf]
    rfl
  rw [toJson_eq_fields h.ordered, ofJson, hread]
  exact document_fields h.ordered

/-! ### What a document prints -/

/-- A document prints its fields, each once and in the recorded order, and no null under a required
key. -/
structure Emitted (d : Document) (members : List (String × Json)) : Prop where
  json : d.toJson = .object members
  keys : Entries.keys members = d.order
  once : (Entries.keys members).Nodup
  fields : ∀ key v, (key, v) ∈ members ↔ d.printed? key = some v
  typed : ∀ key ∈ Shape.requiredFields, (key, Json.null) ∉ members

/-- An ordered document prints its fields. -/
theorem emitted {d : Document} (h : d.Ordered) : d.Emitted (Entries.listed d.printed? d.order) := by
  have hkeys : Entries.keys (Entries.listed d.printed? d.order) = d.order :=
    Entries.keys_listed fun _ hkey => h.mem_order_iff.mp hkey
  refine ⟨rfl, hkeys, ?_, fun key v => ?_, fun key hkey hnull => ?_⟩
  · rw [hkeys]
    exact h.nodup
  · rw [Entries.mem_listed, h.mem_order_iff]
    exact and_iff_right_of_imp fun hv => by rw [hv]; rfl
  · exact (d.printed?_required hkey).2 (Entries.mem_listed.mp hnull).2

end Document
end GrammarSync
