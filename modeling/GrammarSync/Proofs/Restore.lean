/-
# Reading a grammar and printing it again

The reader of documents has the first fault in document order, and then the
first required field that is missing (`fault?_ofJson`); so it accepts the
well-shaped grammars and nothing else (`ofJson_ok_iff`). It sorts the members
of an object into typed fields and raw values, and keeps the order of the keys
apart. Printing follows the order, and each key gives back the member it came
from, because the keys of an object are distinct: nothing is lost, and nothing
changes its place (`toJson_readNode`, `toJson_ofJson`).

Key definitions: `missingField?`, `Field.Sorted`, `Field.value`, `DocumentField.value`.
Key theorems: `readField_cases`, `fault?_ofJson`, `ofJson_ok_iff`, `readNode_induction`,
`toJson_readNode`, `toJson_ofJson`, `accepts_wellShaped_and_restores`.
-/
import GrammarSync.Proofs.WellShaped
import Mathlib.Data.List.Basic
import Mathlib.Data.List.Forall2
import Mathlib.Data.List.Nodup

namespace GrammarSync

/-! ### Lists side by side -/

section Sides

variable {α β γ : Type} {R : α → β → Prop}

theorem map_eq_map_of_forall₂ {f : α → γ} {g : β → γ} {as : List α} {bs : List β}
    (h : List.Forall₂ R as bs) (hR : ∀ a ∈ as, ∀ b, R a b → f a = g b) : as.map f = bs.map g := by
  induction h with
  | nil => rfl
  | cons hab _ ih =>
    rw [List.forall_mem_cons] at hR
    rw [List.map_cons, List.map_cons, hR.1 _ hab, ih hR.2]

theorem forall_mem_of_forall₂ {Q : β → Prop} {as : List α} {bs : List β}
    (h : List.Forall₂ R as bs) (hR : ∀ a ∈ as, ∀ b, R a b → Q b) : ∀ b ∈ bs, Q b := by
  induction h with
  | nil => exact fun b hb => absurd hb List.not_mem_nil
  | cons hab _ ih =>
    rw [List.forall_mem_cons] at hR
    exact List.forall_mem_cons.mpr ⟨hR.1 _ hab, ih hR.2⟩

/-- What only one element gives is found. -/
theorem findSome?_eq_of_unique {g : α → Option γ} {as : List α} {a : α} {c : γ} (ha : a ∈ as)
    (hc : g a = some c) (h : ∀ b ∈ as, (g b).isSome → b = a) : as.findSome? g = some c := by
  have hsome : (as.findSome? g).isSome :=
    List.findSome?_isSome_iff.mpr ⟨a, ha, by rw [hc]; rfl⟩
  obtain ⟨c', hc'⟩ := Option.isSome_iff_exists.mp hsome
  obtain ⟨b, hb, hgb⟩ := List.exists_of_findSome?_eq_some hc'
  have hba : b = a := h b hb (by rw [hgb]; rfl)
  rw [hc', ← hgb, hba, hc]

end Sides

namespace Shape

/-! ### What a reader makes of a member -/

/-- A member of a node is a text or a sequence under one of the four keys, or raw. -/
theorem readField_cases {key : String} {value : Json} {field : Field}
    (h : readField key value = .ok field) :
    (∃ s, value = .string s ∧ (key = "name" ∧ field = .name s ∨
      key = "match" ∧ field = .regex s ∨ key = "comment" ∧ field = .comment s)) ∨
    (∃ nodes, readNodes value = .ok nodes ∧ key = "patterns" ∧ field = .children nodes) ∨
    (Part.node.member? key = none ∧ field = .raw key value) := by
  have htext : ∀ {f : String → Field}, (readText value).map f = .ok field →
      ∃ s, value = .string s ∧ field = f s := by
    intro f hf
    cases value with
    | string s => exact ⟨s, rfl, (Except.ok.inj hf).symm⟩
    | _ => cases hf
  unfold readField at h
  by_cases hname : key = "name"
  · rw [if_pos hname] at h
    obtain ⟨s, hs, hf⟩ := htext h
    exact .inl ⟨s, hs, .inl ⟨hname, hf⟩⟩
  by_cases hregex : key = "match"
  · rw [if_neg hname, if_pos hregex] at h
    obtain ⟨s, hs, hf⟩ := htext h
    exact .inl ⟨s, hs, .inr (.inl ⟨hregex, hf⟩)⟩
  by_cases hcomment : key = "comment"
  · rw [if_neg hname, if_neg hregex, if_pos hcomment] at h
    obtain ⟨s, hs, hf⟩ := htext h
    exact .inl ⟨s, hs, .inr (.inr ⟨hcomment, hf⟩)⟩
  by_cases hpatterns : key = "patterns"
  · rw [if_neg hname, if_neg hregex, if_neg hcomment, if_pos hpatterns] at h
    cases hn : readNodes value with
    | error f => rw [hn] at h; cases h
    | ok nodes =>
      rw [hn] at h
      exact .inr (.inl ⟨nodes, rfl, hpatterns, (Except.ok.inj h).symm⟩)
  · rw [if_neg hname, if_neg hregex, if_neg hcomment, if_neg hpatterns] at h
    exact .inr (.inr ⟨by simp [Part.member?, hname, hregex, hcomment, hpatterns],
      (Except.ok.inj h).symm⟩)

/-- A member of a document is one of the three required ones, or raw. -/
theorem readDocumentField_cases {key : String} {value : Json} {field : DocumentField}
    (h : readDocumentField key value = .ok field) :
    (∃ s, value = .string s ∧ key = "scopeName" ∧ field = .scopeName s) ∨
    (∃ nodes, readNodes value = .ok nodes ∧ key = "patterns" ∧ field = .patterns nodes) ∨
    (∃ sections, readRepository value = .ok sections ∧ key = "repository" ∧
      field = .repository sections) ∨
    (Part.document.member? key = none ∧ field = .raw key value) := by
  unfold readDocumentField at h
  by_cases hscope : key = "scopeName"
  · rw [if_pos hscope] at h
    cases value with
    | string s => exact .inl ⟨s, rfl, hscope, (Except.ok.inj h).symm⟩
    | _ => cases h
  by_cases hpatterns : key = "patterns"
  · rw [if_neg hscope, if_pos hpatterns] at h
    cases hn : readNodes value with
    | error f => rw [hn] at h; cases h
    | ok nodes =>
      rw [hn] at h
      exact .inr (.inl ⟨nodes, rfl, hpatterns, (Except.ok.inj h).symm⟩)
  by_cases hrepository : key = "repository"
  · rw [if_neg hscope, if_neg hpatterns, if_pos hrepository] at h
    cases hs : readRepository value with
    | error f => rw [hs] at h; cases h
    | ok sections =>
      rw [hs] at h
      exact .inr (.inr (.inl ⟨sections, rfl, hrepository, (Except.ok.inj h).symm⟩))
  · rw [if_neg hscope, if_neg hpatterns, if_neg hrepository] at h
    exact .inr (.inr (.inr ⟨by simp [Part.member?, hscope, hpatterns, hrepository],
      (Except.ok.inj h).symm⟩))

theorem eq_ok_of_within {α : Type} {token : String} {r : Shaped α} {a : α}
    (h : within token r = .ok a) : r = .ok a := by
  cases r with
  | ok b => exact h
  | error f => cases h

/-- A key without a meaning is none of those that have one. -/
theorem Part.ne_of_member? {p : Part} {key name : String} (h : p.member? key = none)
    (hname : (p.member? name).isSome) : key ≠ name := by
  rintro rfl
  rw [h] at hname
  cases hname

/-! ### Missing fields -/

/-- The fields that a document must have. -/
def requiredFields : List String :=
  ["scopeName", "patterns", "repository"]

/-- The first required field that an object lacks. -/
def missingField? : Json → Option String
  | .object members => requiredFields.find? fun field => field ∉ Entries.keys members
  | _ => none

/-- A raw field has a key without a meaning. -/
def Field.Sorted (f : Field) : Prop :=
  ∀ key value, f = .raw key value → Part.node.member? key = none

/-- A raw field has a key without a meaning. -/
def DocumentField.Sorted (f : DocumentField) : Prop :=
  ∀ key value, f = .raw key value → Part.document.member? key = none

theorem readField_sorted {key : String} {value : Json} {field : Field}
    (h : readField key value = .ok field) : field.key = key ∧ field.Sorted := by
  rcases readField_cases h with ⟨s, -, ⟨rfl, rfl⟩ | ⟨rfl, rfl⟩ | ⟨rfl, rfl⟩⟩ |
    ⟨nodes, -, rfl, rfl⟩ | ⟨hraw, rfl⟩
  · exact ⟨rfl, fun _ _ h => nomatch h⟩
  · exact ⟨rfl, fun _ _ h => nomatch h⟩
  · exact ⟨rfl, fun _ _ h => nomatch h⟩
  · exact ⟨rfl, fun _ _ h => nomatch h⟩
  · refine ⟨rfl, fun k v hkv => ?_⟩
    obtain ⟨rfl, rfl⟩ := Field.raw.inj hkv
    exact hraw

theorem readDocumentField_sorted {key : String} {value : Json} {field : DocumentField}
    (h : readDocumentField key value = .ok field) : field.key = key ∧ field.Sorted := by
  rcases readDocumentField_cases h with ⟨s, -, hkey, rfl⟩ | ⟨nodes, -, hkey, rfl⟩ |
    ⟨sections, -, hkey, rfl⟩ | ⟨hraw, rfl⟩
  · exact ⟨hkey.symm, fun _ _ h => nomatch h⟩
  · exact ⟨hkey.symm, fun _ _ h => nomatch h⟩
  · exact ⟨hkey.symm, fun _ _ h => nomatch h⟩
  · refine ⟨rfl, fun k v hkv => ?_⟩
    obtain ⟨rfl, rfl⟩ := DocumentField.raw.inj hkv
    exact hraw

theorem Field.Sorted.isSome_iff {f : Field} (h : f.Sorted) :
    (f.name?.isSome ↔ f.key = "name") ∧ (f.regex?.isSome ↔ f.key = "match") ∧
      (f.comment?.isSome ↔ f.key = "comment") ∧ (f.children?.isSome ↔ f.key = "patterns") := by
  cases f with
  | raw key value =>
    have hne : ∀ name, (Part.node.member? name).isSome → key ≠ name := fun _ =>
      Part.ne_of_member? (h key value rfl)
    simp [name?, regex?, comment?, children?, Field.key, hne "name" rfl, hne "match" rfl,
      hne "comment" rfl, hne "patterns" rfl]
  | _ => simp [name?, regex?, comment?, children?, Field.key]

theorem DocumentField.Sorted.isSome_iff {f : DocumentField} (h : f.Sorted) :
    (f.scopeName?.isSome ↔ f.key = "scopeName") ∧
      (f.patterns?.isSome ↔ f.key = "patterns") ∧
        (f.repository?.isSome ↔ f.key = "repository") := by
  cases f with
  | raw key value =>
    have hne : ∀ name, (Part.document.member? name).isSome → key ≠ name := fun _ =>
      Part.ne_of_member? (h key value rfl)
    simp [scopeName?, patterns?, repository?, DocumentField.key, hne "scopeName" rfl,
      hne "patterns" rfl, hne "repository" rfl]
  | _ => simp [scopeName?, patterns?, repository?, DocumentField.key]

theorem forall₂_readDocumentFields {members : List (String × Json)} {fields : List DocumentField}
    (h : readDocumentFields members = .ok fields) :
    List.Forall₂ (fun e f => readDocumentField e.1 e.2 = .ok f) members fields := by
  rw [readDocumentFields_eq_readAll] at h
  exact (forall₂_of_readAll h).imp fun _ _ => eq_ok_of_within

/-- A required field is found if its key is there. -/
theorem isSome_findSome?_iff {members : List (String × Json)} {fields : List DocumentField}
    (h : readDocumentFields members = .ok fields) :
    ((fields.findSome? DocumentField.scopeName?).isSome ↔ "scopeName" ∈ Entries.keys members) ∧
      ((fields.findSome? DocumentField.patterns?).isSome ↔ "patterns" ∈ Entries.keys members) ∧
        ((fields.findSome? DocumentField.repository?).isSome ↔
          "repository" ∈ Entries.keys members) := by
  have hall := forall₂_readDocumentFields h
  have hkeys : Entries.keys members = fields.map fun f => f.key :=
    map_eq_map_of_forall₂ hall fun _ _ _ hf => (readDocumentField_sorted hf).1.symm
  have hsorted : ∀ f ∈ fields, f.Sorted :=
    forall_mem_of_forall₂ hall fun _ _ _ hf => (readDocumentField_sorted hf).2
  simp only [List.findSome?_isSome_iff, hkeys, List.mem_map]
  refine ⟨exists_congr fun f => and_congr_right fun hf => (hsorted f hf).isSome_iff.1,
    exists_congr fun f => and_congr_right fun hf => (hsorted f hf).isSome_iff.2.1,
    exists_congr fun f => and_congr_right fun hf => (hsorted f hf).isSome_iff.2.2⟩

theorem fault?_document {members : List (String × Json)} {fields : List DocumentField}
    (h : readDocumentFields members = .ok fields) : fault? (document fields) =
      (missingField? (.object members)).map fun field => ⟨[], .missing field⟩ := by
  obtain ⟨hscope, hpatterns, hrepository⟩ := isSome_findSome?_iff h
  unfold document missingField? requiredFields
  cases hs : fields.findSome? DocumentField.scopeName? with
  | none =>
    rw [hs] at hscope
    simp [← hscope, require, fault?, bind, Except.bind]
  | some scopeName =>
    rw [hs] at hscope
    cases hp : fields.findSome? DocumentField.patterns? with
    | none =>
      rw [hp] at hpatterns
      simp [← hscope, ← hpatterns, require, fault?, bind, Except.bind]
    | some patterns =>
      rw [hp] at hpatterns
      cases hr : fields.findSome? DocumentField.repository? with
      | none =>
        rw [hr] at hrepository
        simp [← hscope, ← hpatterns, ← hrepository, require, fault?, bind, Except.bind]
      | some repository =>
        rw [hr] at hrepository
        simp [← hscope, ← hpatterns, ← hrepository, require, fault?, bind, Except.bind]

/-- A document has the first fault in document order; if it has none, the first required field that
is missing is at fault. -/
theorem fault?_ofJson (v : Json) : fault? (Document.ofJson v) =
    (firstFault? .document v).or
      ((missingField? v).map fun field => ⟨[], .missing field⟩) := by
  cases v with
  | object members =>
    rw [← fault?_readDocumentFields, Document.ofJson]
    cases hf : readDocumentFields members with
    | error f => rfl
    | ok fields => exact fault?_document hf
  | _ =>
    rw [firstFault?_of_kind_ne (by simp [Json.kind, Part.kind])]
    rfl

/-! ### The accepted values -/

/-- Distinct keys: a key has one value. -/
theorem value_unique {members : List (String × Json)} (h : (Entries.keys members).Nodup)
    {key : String} {v w : Json} (hv : (key, v) ∈ members) (hw : (key, w) ∈ members) : v = w :=
  congrArg Prod.snd (List.inj_on_of_nodup_map h hv hw rfl)

theorem mem_keys {members : List (String × Json)} {key : String} :
    key ∈ Entries.keys members ↔ ∃ v, (key, v) ∈ members := by
  rw [Entries.keys, List.mem_map]
  constructor
  · rintro ⟨e, he, rfl⟩
    exact ⟨e.2, he⟩
  · rintro ⟨v, hv⟩
    exact ⟨(key, v), hv, rfl⟩

theorem missingField?_eq_none {members : List (String × Json)} :
    missingField? (.object members) = none ↔
      ∀ field ∈ requiredFields, field ∈ Entries.keys members := by
  rw [missingField?, List.find?_eq_none]
  simp only [decide_eq_true_eq, not_not]

/-- The well-shaped grammars are the objects with well-shaped parts and without missing fields. -/
theorem wellShaped_document_iff {v : Json} (hv : v.DistinctKeys) :
    Document.WellShaped v ↔ Part.document.Shaped v ∧ missingField? v = none := by
  constructor
  · rintro ⟨hscope, ⟨hpatterns, hnodes⟩, ⟨hrepository, hsections⟩⟩
    have hunique := @value_unique _ hv.1
    refine ⟨⟨_, rfl, ?_, ?_, ?_⟩, missingField?_eq_none.mpr ?_⟩
    · exact fun w hw => ⟨_, hunique hw hscope⟩
    · exact fun w hw => ⟨_, hunique hw hpatterns, hnodes⟩
    · exact fun w hw => ⟨_, hunique hw hrepository, hsections⟩
    · simp only [requiredFields, List.forall_mem_cons]
      exact ⟨mem_keys.mpr ⟨_, hscope⟩, mem_keys.mpr ⟨_, hpatterns⟩,
        mem_keys.mpr ⟨_, hrepository⟩, fun _ h => absurd h List.not_mem_nil⟩
  · rintro ⟨⟨members, rfl, hscope, hpatterns, hrepository⟩, hmissing⟩
    simp only [missingField?_eq_none, requiredFields, List.forall_mem_cons] at hmissing
    obtain ⟨hs, hp, hr, -⟩ := hmissing
    obtain ⟨v, hv⟩ := mem_keys.mp hs
    obtain ⟨w, hw⟩ := mem_keys.mp hp
    obtain ⟨u, hu⟩ := mem_keys.mp hr
    obtain ⟨scope, rfl⟩ := hscope v hv
    obtain ⟨nodes, rfl, hnodes⟩ := hpatterns w hw
    obtain ⟨sections, rfl, hsections⟩ := hrepository u hu
    exact .object hv ⟨hw, hnodes⟩ ⟨hu, hsections⟩

/-- Reading accepts the well-shaped grammars and nothing else. -/
theorem ofJson_ok_iff {v : Json} (hv : v.DistinctKeys) :
    (∃ d, Document.ofJson v = .ok d) ↔ Document.WellShaped v := by
  rw [← fault?_eq_none, fault?_ofJson, wellShaped_document_iff hv, ← met_iff_shaped,
    ← firstFault?_eq_none, Option.or_eq_none_iff, Option.map_eq_none_iff]

/-! ### Fields give back their members -/

end Shape

/-- The value of the nested nodes of a node. -/
def Node.nested (n : Node) : Json :=
  match n.children with
  | none => .null
  | some nodes => .array (toJsonAll nodes)

theorem Node.toJson_eq : ∀ n : Node,
    n.toJson = .object (Entries.listed (n.printed? n.nested) n.order)
  | ⟨_, _, _, none, _, _⟩ => rfl
  | ⟨_, _, _, some _, _, _⟩ => rfl

theorem Node.toJsonAll_eq_map : ∀ nodes : List Node, toJsonAll nodes = nodes.map toJson
  | [] => rfl
  | n :: rest => by rw [toJsonAll, toJsonAll_eq_map rest, List.map_cons]

namespace Shape

/-- The value of the member that a field of a node came from. -/
def Field.value : Field → Json
  | .name s => .string s
  | .regex s => .string s
  | .comment s => .string s
  | .children nodes => .array (Node.toJsonAll nodes)
  | .raw _ value => value

/-- The value of the member that a field of a document came from. -/
def DocumentField.value : DocumentField → Json
  | .scopeName s => .string s
  | .patterns nodes => .array (Node.toJsonAll nodes)
  | .repository sections => .object (sections.map fun e => (e.1, e.2.toJson))
  | .raw _ value => value

theorem Field.key_of_isSome (f : Field) : (f.name?.isSome → f.key = "name") ∧
    (f.regex?.isSome → f.key = "match") ∧ (f.comment?.isSome → f.key = "comment") ∧
      (f.children?.isSome → f.key = "patterns") := by
  cases f <;> simp [name?, regex?, comment?, children?, key]

theorem Field.eq_raw_of_raw? {f : Field} {key : String} {value : Json}
    (h : f.raw? = some (key, value)) : f = .raw key value := by
  cases f with
  | raw k v =>
    obtain ⟨rfl, rfl⟩ := Prod.mk.inj (Option.some.inj h)
    rfl
  | _ => cases h

theorem DocumentField.eq_raw_of_raw? {f : DocumentField} {key : String} {value : Json}
    (h : f.raw? = some (key, value)) : f = .raw key value := by
  cases f with
  | raw k v =>
    obtain ⟨rfl, rfl⟩ := Prod.mk.inj (Option.some.inj h)
    rfl
  | _ => cases h

/-- The raw keys of fields are some of their keys, in order. -/
theorem keys_raw_sublist {α : Type} {key : α → String} {raw? : α → Option (String × Json)}
    (h : ∀ a k v, raw? a = some (k, v) → key a = k) :
    ∀ fields : List α, (Entries.keys (fields.filterMap raw?)).Sublist (fields.map key)
  | [] => List.Sublist.slnil
  | a :: fields => by
    have ih := keys_raw_sublist h fields
    cases hr : raw? a with
    | none =>
      rw [List.filterMap_cons_none hr, List.map_cons]
      exact ih.cons (key a)
    | some e =>
      rw [List.filterMap_cons_some hr, List.map_cons, h a e.1 e.2 hr]
      exact ih.cons_cons e.1

/-- A raw value is found under its key if the keys of the fields are distinct. -/
theorem lookup_raw {α : Type} {key : α → String} {raw? : α → Option (String × Json)}
    (h : ∀ a k v, raw? a = some (k, v) → key a = k) {fields : List α}
    (hkeys : (fields.map key).Nodup) {a : α} (ha : a ∈ fields) {k : String} {v : Json}
    (hraw : raw? a = some (k, v)) : (fields.filterMap raw?).lookup k = some v :=
  Entries.lookup_of_mem (hkeys.sublist (keys_raw_sublist h fields))
    (List.mem_filterMap.mpr ⟨a, ha, hraw⟩)

theorem Field.key_of_raw? (f : Field) (k : String) (v : Json) (h : f.raw? = some (k, v)) :
    f.key = k := by
  rw [eq_raw_of_raw? h]
  rfl

theorem DocumentField.key_of_raw? (f : DocumentField) (k : String) (v : Json)
    (h : f.raw? = some (k, v)) : f.key = k := by
  rw [eq_raw_of_raw? h]
  rfl

/-- Under a key without a meaning a node prints its raw value. -/
theorem printed?_of_raw (n : Node) (nested : Json) {key : String}
    (h : Part.node.member? key = none) : n.printed? nested key = n.raw? key := by
  rw [Node.printed?, if_neg (Part.ne_of_member? h rfl), if_neg (Part.ne_of_member? h rfl),
    if_neg (Part.ne_of_member? h rfl), if_neg (Part.ne_of_member? h rfl)]

/-- Under a key without a meaning a document prints its raw value. -/
theorem document_printed?_of_raw (d : Document) {key : String}
    (h : Part.document.member? key = none) : d.printed? key = d.raw? key := by
  rw [Document.printed?, if_neg (Part.ne_of_member? h rfl), if_neg (Part.ne_of_member? h rfl),
    if_neg (Part.ne_of_member? h rfl)]

/-- Fields with distinct keys print as the members they came from. -/
theorem toJson_node {fields : List Field} (h : (fields.map Field.key).Nodup)
    (hsorted : ∀ f ∈ fields, f.Sorted) :
    (node fields).toJson = .object (fields.map fun f => (f.key, f.value)) := by
  have hfind : ∀ {β : Type} {get : Field → Option β} {f : Field} {b : β}, f ∈ fields →
      get f = some b → (∀ g, (get g).isSome → g.key = f.key) →
        fields.findSome? get = some b := by
    intro β get f b hf hb hkey
    exact findSome?_eq_of_unique hf hb fun g hg hsome =>
      List.inj_on_of_nodup_map h hg hf (hkey g hsome)
  have horder : (node fields).order = fields.map Field.key := rfl
  rw [Node.toJson_eq, horder]
  refine congrArg Json.object (Entries.listed_map fun f hf => ?_)
  cases f with
  | name s =>
    have hname : (node fields).name = some s := hfind hf rfl fun g => g.key_of_isSome.1
    rw [Field.key, Node.printed?, if_pos rfl, hname]
    rfl
  | regex s =>
    have hregex : (node fields).regex = some s := hfind hf rfl fun g => g.key_of_isSome.2.1
    rw [Field.key, Node.printed?, if_neg (by decide), if_pos rfl, hregex]
    rfl
  | comment s =>
    have hcomment : (node fields).comment = some s := hfind hf rfl fun g => g.key_of_isSome.2.2.1
    rw [Field.key, Node.printed?, if_neg (by decide), if_neg (by decide), if_pos rfl, hcomment]
    rfl
  | children nodes =>
    have hchildren : (node fields).children = some nodes :=
      hfind hf rfl fun g => g.key_of_isSome.2.2.2
    rw [Field.key, Node.printed?, if_neg (by decide), if_neg (by decide), if_neg (by decide),
      if_pos rfl, Node.nested, hchildren]
    rfl
  | raw key value =>
    rw [Field.key, printed?_of_raw _ _ (hsorted _ hf key value rfl)]
    exact lookup_raw Field.key_of_raw? h hf rfl

theorem DocumentField.key_of_isSome (f : DocumentField) :
    (f.scopeName?.isSome → f.key = "scopeName") ∧
      (f.patterns?.isSome → f.key = "patterns") ∧
        (f.repository?.isSome → f.key = "repository") := by
  cases f <;> simp [scopeName?, patterns?, repository?, key]

theorem document_eq_ok {fields : List DocumentField} {d : Document} (h : document fields = .ok d) :
    fields.findSome? DocumentField.scopeName? = some d.scopeName ∧
      fields.findSome? DocumentField.patterns? = some d.patterns ∧
        fields.findSome? DocumentField.repository? = some d.repository ∧
          d.rest = fields.filterMap DocumentField.raw? ∧
            d.order = fields.map DocumentField.key := by
  unfold document at h
  cases hs : fields.findSome? DocumentField.scopeName? with
  | none => rw [hs] at h; cases h
  | some scopeName =>
    cases hp : fields.findSome? DocumentField.patterns? with
    | none => rw [hs, hp] at h; cases h
    | some patterns =>
      cases hr : fields.findSome? DocumentField.repository? with
      | none => rw [hs, hp, hr] at h; cases h
      | some repository =>
        rw [hs, hp, hr] at h
        rw [← Except.ok.inj h]
        exact ⟨rfl, rfl, rfl, rfl, rfl⟩

/-- Fields with distinct keys print as the members they came from. -/
theorem toJson_document {fields : List DocumentField} {d : Document}
    (h : (fields.map DocumentField.key).Nodup) (hsorted : ∀ f ∈ fields, f.Sorted)
    (hd : document fields = .ok d) :
    d.toJson = .object (fields.map fun f => (f.key, f.value)) := by
  obtain ⟨hscope, hpatterns, hrepository, hrest, horder⟩ := document_eq_ok hd
  have hsame : ∀ {β : Type} {get : DocumentField → Option β} {f : DocumentField} {b c : β},
      f ∈ fields → get f = some b → (∀ g, (get g).isSome → g.key = f.key) →
        fields.findSome? get = some c → c = b := by
    intro β get f b c hf hb hkey hc
    have hfound := findSome?_eq_of_unique hf hb fun g hg hsome =>
      List.inj_on_of_nodup_map h hg hf (hkey g hsome)
    exact Option.some.inj (hc.symm.trans hfound)
  rw [Document.toJson, horder]
  refine congrArg Json.object (Entries.listed_map fun f hf => ?_)
  cases f with
  | scopeName s =>
    have hs : d.scopeName = s := hsame hf rfl (fun g => g.key_of_isSome.1) hscope
    rw [DocumentField.key, Document.printed?, if_pos rfl, hs]
    rfl
  | patterns nodes =>
    have hn : d.patterns = nodes := hsame hf rfl (fun g => g.key_of_isSome.2.1) hpatterns
    rw [DocumentField.key, Document.printed?, if_neg (by decide), if_pos rfl, hn]
    rfl
  | repository sections =>
    have hr : d.repository = sections :=
      hsame hf rfl (fun g => g.key_of_isSome.2.2) hrepository
    rw [DocumentField.key, Document.printed?, if_neg (by decide), if_neg (by decide), if_pos rfl,
      hr]
    rfl
  | raw key value =>
    rw [DocumentField.key, document_printed?_of_raw d (hsorted _ hf key value rfl), Document.raw?,
      hrest]
    exact lookup_raw DocumentField.key_of_raw? h hf rfl

/-! ### Printing what was read -/

theorem distinctItems_iff {items : List Json} :
    Json.DistinctItems items ↔ ∀ v ∈ items, v.DistinctKeys := by
  induction items with
  | nil => exact ⟨fun _ v hv => absurd hv List.not_mem_nil, fun _ => trivial⟩
  | cons v rest ih => rw [Json.DistinctItems, ih, List.forall_mem_cons]

theorem distinctMembers_iff {members : List (String × Json)} :
    Json.DistinctMembers members ↔ ∀ e ∈ members, e.2.DistinctKeys := by
  induction members with
  | nil => exact ⟨fun _ v hv => absurd hv List.not_mem_nil, fun _ => trivial⟩
  | cons e rest ih =>
    obtain ⟨key, v⟩ := e
    rw [Json.DistinctMembers, ih, List.forall_mem_cons]

theorem readNode_ok {v : Json} {n : Node} (h : readNode v = .ok n) :
    ∃ members fields, v = .object members ∧ n = node fields ∧
      List.Forall₂ (fun e f => readField e.1 e.2 = .ok f) members fields := by
  cases v with
  | object members =>
    rw [readNode, readFields_eq_readAll] at h
    cases hf : readAll (fun e => within e.1 (readField e.1 e.2)) members with
    | error f => rw [hf] at h; cases h
    | ok fields =>
      rw [hf] at h
      refine ⟨members, fields, rfl, (Except.ok.inj h).symm, ?_⟩
      exact (forall₂_of_readAll hf).imp fun _ _ => eq_ok_of_within
  | _ => rw [readNode] at h; cases h

theorem readNodes_ok {v : Json} {nodes : List Node} (h : readNodes v = .ok nodes) :
    ∃ items, v = .array items ∧ List.Forall₂ (fun w n => readNode w = .ok n) items nodes := by
  cases v with
  | array items =>
    rw [readNodes, readItems_eq_readAll] at h
    refine ⟨items, rfl, ?_⟩
    have hall := (forall₂_of_readAll h).imp fun _ _ => eq_ok_of_within
    have hitems : items = items.zipIdx.map Prod.fst := by rw [List.zipIdx_map_fst]
    rw [hitems, List.forall₂_map_left_iff]
    exact hall
  | _ => rw [readNodes] at h; cases h

/-- A field came from the member that it was read from, if the nodes nested in it did. -/
theorem member_readField {key : String} {value : Json} {field : Field}
    (ih : ∀ nodes, readNodes value = .ok nodes → .array (Node.toJsonAll nodes) = value)
    (h : readField key value = .ok field) : (key, value) = (field.key, field.value) := by
  rcases readField_cases h with ⟨s, rfl, ⟨rfl, rfl⟩ | ⟨rfl, rfl⟩ | ⟨rfl, rfl⟩⟩ |
    ⟨nodes, hnodes, rfl, rfl⟩ | ⟨-, rfl⟩
  · rfl
  · rfl
  · rfl
  · rw [Field.key, Field.value, ih nodes hnodes]
  · rfl

/-- What holds of a value and the node that is read from it, if it holds of the nodes nested in it.
The members of an object and the fields of its node stand side by side. -/
theorem readNode_induction {P : Json → Node → Prop}
    (step : ∀ members fields, (Entries.keys members).Nodup →
      List.Forall₂ (fun e f => (∀ nodes, readNodes e.2 = .ok nodes →
          ∃ items, e.2 = .array items ∧ List.Forall₂ P items nodes) ∧
        readField e.1 e.2 = .ok f) members fields →
      P (.object members) (node fields)) (v : Json) (hv : v.DistinctKeys) :
    (∀ n, readNode v = .ok n → P v n) ∧ ∀ nodes, readNodes v = .ok nodes →
      ∃ items, v = .array items ∧ List.Forall₂ P items nodes := by
  induction v using Json.induction with
  | array items ih =>
    refine ⟨fun n hn => ?_, fun nodes hnodes => ?_⟩
    · obtain ⟨_, _, heq, -⟩ := readNode_ok hn
      cases heq
    · obtain ⟨_, heq, hall⟩ := readNodes_ok hnodes
      obtain rfl := Json.array.inj heq
      have hread : ∀ w ∈ items, ∀ n, readNode w = .ok n → P w n := fun w hw =>
        (ih w hw (distinctItems_iff.mp hv w hw)).1
      refine ⟨items, rfl, ?_⟩
      exact ((List.forall₂_and_left _ _).mpr ⟨hread, hall⟩).imp fun w n hn => hn.1 n hn.2
  | object members ih =>
    refine ⟨fun n hn => ?_, fun nodes hnodes => ?_⟩
    · obtain ⟨_, fields, heq, rfl, hall⟩ := readNode_ok hn
      obtain rfl := Json.object.inj heq
      refine step members fields hv.1 ((List.forall₂_and_left _ _).mpr ⟨fun e he => ?_, hall⟩)
      exact (ih e he (distinctMembers_iff.mp hv.2 e he)).2
    · obtain ⟨_, heq, -⟩ := readNodes_ok hnodes
      cases heq
  | _ =>
    refine ⟨fun n hn => ?_, fun nodes hnodes => ?_⟩
    · obtain ⟨_, _, heq, -⟩ := readNode_ok hn
      cases heq
    · obtain ⟨_, heq, -⟩ := readNodes_ok hnodes
      cases heq

theorem toJsonAll_of_forall₂ {items : List Json} {nodes : List Node}
    (h : List.Forall₂ (fun w n => n.toJson = w) items nodes) : Node.toJsonAll nodes = items := by
  have hitems : items.map id = nodes.map Node.toJson :=
    map_eq_map_of_forall₂ h fun w _ n hn => hn.symm
  rw [Node.toJsonAll_eq_map, ← hitems, List.map_id]

/-- A node, or a sequence of nodes, prints as the value it was read from. -/
theorem toJson_readNode_and_readNodes (v : Json) (hv : v.DistinctKeys) :
    (∀ n, readNode v = .ok n → n.toJson = v) ∧ ∀ nodes, readNodes v = .ok nodes →
      ∃ items, v = .array items ∧ List.Forall₂ (fun w n => n.toJson = w) items nodes := by
  refine readNode_induction (P := fun v n => n.toJson = v) (fun members fields hkeys hall => ?_) v hv
  have hmembers : members.map id = fields.map fun f => (f.key, f.value) := by
    refine map_eq_map_of_forall₂ hall fun e _ f hf => member_readField (fun nodes hnodes => ?_) hf.2
    obtain ⟨items, hitems, hsame⟩ := hf.1 nodes hnodes
    rw [hitems, toJsonAll_of_forall₂ hsame]
  rw [List.map_id] at hmembers
  have hnodup : (fields.map Field.key).Nodup := by
    rwa [hmembers, Entries.keys, List.map_map] at hkeys
  have hsorted : ∀ f ∈ fields, f.Sorted :=
    forall_mem_of_forall₂ hall fun _ _ _ hf => (readField_sorted hf.2).2
  rw [toJson_node hnodup hsorted, ← hmembers]

theorem toJson_readNode {v : Json} {n : Node} (hv : v.DistinctKeys) (h : readNode v = .ok n) :
    n.toJson = v :=
  (toJson_readNode_and_readNodes v hv).1 n h

theorem toJson_readNodes {v : Json} {nodes : List Node} (hv : v.DistinctKeys)
    (h : readNodes v = .ok nodes) : .array (Node.toJsonAll nodes) = v := by
  obtain ⟨items, rfl, hall⟩ := (toJson_readNode_and_readNodes v hv).2 nodes h
  rw [toJsonAll_of_forall₂ hall]

/-- The sections of a repository, side by side with its members. -/
theorem readRepository_ok {v : Json} {sections : List (String × Node)}
    (h : readRepository v = .ok sections) : ∃ members, v = .object members ∧
      List.Forall₂ (fun e s => s.1 = e.1 ∧ readNode e.2 = .ok s.2) members sections := by
  cases v with
  | object members =>
    rw [readRepository, readSections_eq_readAll] at h
    refine ⟨members, rfl, (forall₂_of_readAll h).imp fun e s hs => ?_⟩
    cases hn : within e.1 (readNode e.2) with
    | error f => rw [hn] at hs; cases hs
    | ok n =>
      rw [hn] at hs
      rw [← Except.ok.inj hs]
      exact ⟨rfl, eq_ok_of_within hn⟩
  | _ => cases h

theorem toJson_readRepository {v : Json} {sections : List (String × Node)} (hv : v.DistinctKeys)
    (h : readRepository v = .ok sections) :
    .object (sections.map fun e => (e.1, e.2.toJson)) = v := by
  obtain ⟨members, rfl, hall⟩ := readRepository_ok h
  have hmembers : members.map id = sections.map fun e => (e.1, e.2.toJson) :=
    map_eq_map_of_forall₂ hall fun e hmem s hs =>
      Prod.ext hs.1.symm (toJson_readNode (distinctMembers_iff.mp hv.2 e hmem) hs.2).symm
  rw [← hmembers, List.map_id]

theorem member_readDocumentField {key : String} {value : Json} {field : DocumentField}
    (hv : value.DistinctKeys) (h : readDocumentField key value = .ok field) :
    (key, value) = (field.key, field.value) := by
  rcases readDocumentField_cases h with ⟨s, rfl, rfl, rfl⟩ | ⟨nodes, hnodes, rfl, rfl⟩ |
    ⟨sections, hsections, rfl, rfl⟩ | ⟨-, rfl⟩
  · rfl
  · rw [DocumentField.key, DocumentField.value, toJson_readNodes hv hnodes]
  · rw [DocumentField.key, DocumentField.value, toJson_readRepository hv hsections]
  · rfl

/-- The members of a document, side by side with its fields. -/
theorem ofJson_ok {v : Json} {d : Document} (h : Document.ofJson v = .ok d) :
    ∃ members fields, v = .object members ∧ document fields = .ok d ∧
      List.Forall₂ (fun e f => readDocumentField e.1 e.2 = .ok f) members fields := by
  cases v with
  | object members =>
    rw [Document.ofJson] at h
    cases hf : readDocumentFields members with
    | error f => rw [hf] at h; cases h
    | ok fields =>
      rw [hf] at h
      exact ⟨members, fields, rfl, h, forall₂_readDocumentFields hf⟩
  | _ => cases h

/-- A document prints as the value it was read from. -/
theorem toJson_ofJson {v : Json} {d : Document} (hv : v.DistinctKeys)
    (h : Document.ofJson v = .ok d) : d.toJson = v := by
  obtain ⟨members, fields, rfl, hd, hall⟩ := ofJson_ok h
  have hmembers : members.map id = fields.map fun f => (f.key, f.value) :=
    map_eq_map_of_forall₂ hall fun e hmem f hf =>
      member_readDocumentField (distinctMembers_iff.mp hv.2 e hmem) hf
  rw [List.map_id] at hmembers
  have hkeys : (fields.map DocumentField.key).Nodup := by
    have hnodup := hv.1
    rwa [hmembers, Entries.keys, List.map_map] at hnodup
  have hsorted : ∀ f ∈ fields, f.Sorted :=
    forall_mem_of_forall₂ hall fun _ _ _ hf => (readDocumentField_sorted hf).2
  rw [toJson_document hkeys hsorted hd, ← hmembers]

end Shape

/-- A value is read as a document if and only if it is a well-shaped grammar, and then the document
prints as that value, with every key in its place. -/
theorem accepts_wellShaped_and_restores {v : Json} (hv : v.DistinctKeys) :
    ((∃ d, Document.ofJson v = .ok d) ↔ Document.WellShaped v) ∧
      ∀ d, Document.ofJson v = .ok d → d.toJson = v :=
  ⟨Shape.ofJson_ok_iff hv, fun _ h => Shape.toJson_ofJson hv h⟩

/-- A node with its expression in front of its name, and a null that means nothing here. -/
def scatteredNode : Json :=
  .object [("match", .string "x"), ("end", .null), ("name", .string "y")]

/-- A section without a name of its own, around an empty node. -/
def scatteredSection : Json :=
  .object [("patterns", .array [.object []])]

/-- A grammar whose keys stand in an unusual order. -/
def scatteredGrammar : Json :=
  .object [("patterns", .array [scatteredNode]), ("version", .number (.int 2)),
    ("repository", .object [("", scatteredSection)]), ("scopeName", .string "source.hew")]

theorem scatteredGrammar_restored : scatteredGrammar.DistinctKeys ∧
    ∃ d, Document.ofJson scatteredGrammar = .ok d ∧ d.toJson = scatteredGrammar := by
  have hdistinct : scatteredGrammar.DistinctKeys := by
    simp [scatteredGrammar, scatteredNode, scatteredSection, Json.DistinctKeys,
      Json.DistinctItems, Json.DistinctMembers, Entries.keys]
  have hempty : Node.WellShaped (.object []) :=
    .object (by simp) (by simp) (by simp)
  have hnode : ∀ v ∈ [scatteredNode], Node.WellShaped v := by
    rw [List.forall_mem_singleton]
    exact .object (by simp) (by simp) (by simp)
  have hsection : ∀ e ∈ [("", scatteredSection)], Node.WellShaped e.2 := by
    rw [List.forall_mem_singleton]
    exact .object (by simp) (by simp) (by simp [hempty])
  have hgrammar : Document.WellShaped scatteredGrammar := by
    have hscope : ("scopeName", Json.string "source.hew") ∈
      [("patterns", .array [scatteredNode]), ("version", .number (.int 2)),
        ("repository", .object [("", scatteredSection)]), ("scopeName", .string "source.hew")] := by
      simp
    exact .object hscope ⟨List.mem_cons_self, hnode⟩
      ⟨.tail _ (.tail _ List.mem_cons_self), hsection⟩
  obtain ⟨haccepts, hrestores⟩ := accepts_wellShaped_and_restores hdistinct
  obtain ⟨d, hd⟩ := haccepts.mpr hgrammar
  exact ⟨hdistinct, d, hd, hrestores d hd⟩

end GrammarSync
