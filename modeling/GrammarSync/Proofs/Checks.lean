/-
# The checks of a shape, in document order

Some parts of a grammar must be of a fixed kind: the document, its repository,
nodes, sequences of nodes and texts. `Part.inside` lists the parts directly
inside a value, each under its token, and `checks` lists the parts at every
depth in document order, a value before what is inside it. Reading a value as
a part goes through its checks in this order and stops at the first one that
is not met (`fault?_readNode`, `fault?_readDocumentFields`). All readers go
through lists in the same way, which is said once (`readAll`).

Key definitions: `Part`, `Part.inside`, `checks`, `firstFault?`, `readAll`.
Key theorems: `Json.induction`, `checks_eq`, `firstFault?_of_kind`,
`fault?_readAll`, `fault?_readNode`, `fault?_readDocumentFields`.
-/
import GrammarSync.Grammar.Shape
import Mathlib.Data.List.Basic
import Mathlib.Data.List.Forall2

namespace GrammarSync

/-! ### Values and their elements -/

namespace Json

/-- What holds of every scalar, and of every container as soon as it holds of its elements, holds of
every value. -/
theorem induction {P : Json → Prop} (null : P .null) (bool : ∀ b, P (.bool b))
    (number : ∀ n, P (.number n)) (string : ∀ s, P (.string s))
    (array : ∀ items, (∀ v ∈ items, P v) → P (.array items))
    (object : ∀ members, (∀ e ∈ members, P e.2) → P (.object members)) : ∀ v, P v
  | .null => null
  | .bool b => bool b
  | .number n => number n
  | .string s => string s
  | .array items => array items fun v _ => induction null bool number string array object v
  | .object members => object members fun e _ =>
    induction null bool number string array object e.2
decreasing_by
  · have hsize := List.sizeOf_lt_of_mem ‹v ∈ items›
    simp only [Json.array.sizeOf_spec]
    omega
  · have hsize := List.sizeOf_lt_of_mem ‹e ∈ members›
    have hvalue : sizeOf e = 1 + sizeOf e.1 + sizeOf e.2 := rfl
    simp only [Json.object.sizeOf_spec]
    omega

end Json

/-- A fault of a part, placed under the part's token. -/
def ShapeFault.under (token : String) (f : ShapeFault) : ShapeFault :=
  ⟨token :: f.path, f.problem⟩

namespace Shape

/-! ### Parts -/

/-- The parts of a grammar that must be of a fixed kind. -/
inductive Part where
  | document
  | repository
  | node
  | sequence
  | text
deriving DecidableEq

namespace Part

/-- The kind of a part. -/
def kind : Part → Json.Kind
  | .document => .object
  | .repository => .object
  | .node => .object
  | .sequence => .array
  | .text => .string

/-- The part under a key; other members are free. -/
def member? : Part → String → Option Part
  | .document, key =>
    if key = "scopeName" then some .text
    else if key = "patterns" then some .sequence
    else if key = "repository" then some .repository
    else none
  | .repository, _ => some .node
  | .node, key =>
    if key = "name" then some .text
    else if key = "match" then some .text
    else if key = "comment" then some .text
    else if key = "patterns" then some .sequence
    else none
  | .sequence, _ => none
  | .text, _ => none

/-- The part that every item is. -/
def item? : Part → Option Part
  | .sequence => some .node
  | _ => none

/-- The parts directly inside a value, each under its token, in order. -/
def inside (part : Part) : Json → List (String × Part × Json)
  | .object members => members.filterMap fun e => (part.member? e.1).map fun p => (e.1, p, e.2)
  | .array items => items.zipIdx.filterMap fun e => part.item?.map fun p => (toString e.2, p, e.1)
  | _ => []

theorem mem_inside_object {part : Part} {members : List (String × Json)} {token : String} {p : Part}
    {w : Json} : (token, p, w) ∈ part.inside (.object members) ↔
      (token, w) ∈ members ∧ part.member? token = some p := by
  rw [inside, List.mem_filterMap]
  constructor
  · rintro ⟨⟨key, v⟩, he, hp⟩
    obtain ⟨q, hq, heq⟩ := Option.map_eq_some_iff.mp hp
    obtain ⟨rfl, rfl, rfl⟩ : key = token ∧ q = p ∧ v = w := by simpa using heq
    exact ⟨he, hq⟩
  · rintro ⟨he, hp⟩
    exact ⟨(token, w), he, by rw [hp]; rfl⟩

theorem mem_inside_array {part : Part} {items : List Json} {token : String} {p : Part} {w : Json} :
    (token, p, w) ∈ part.inside (.array items) ↔
      ∃ i : Nat, items[i]? = some w ∧ token = toString i ∧ part.item? = some p := by
  rw [inside, List.mem_filterMap]
  constructor
  · rintro ⟨⟨v, i⟩, he, hp⟩
    obtain ⟨q, hq, heq⟩ := Option.map_eq_some_iff.mp hp
    obtain ⟨rfl, rfl, rfl⟩ : toString i = token ∧ q = p ∧ v = w := by simpa using heq
    exact ⟨i, List.mk_mem_zipIdx_iff_getElem?.mp he, rfl, hq⟩
  · rintro ⟨i, hi, rfl, hp⟩
    exact ⟨(w, i), List.mk_mem_zipIdx_iff_getElem?.mpr hi, by rw [hp]; rfl⟩

theorem sizeOf_lt_of_mem_inside {part : Part} {v : Json} {e : String × Part × Json}
    (h : e ∈ part.inside v) : sizeOf e.2.2 < sizeOf v := by
  obtain ⟨token, p, w⟩ := e
  cases v with
  | object members =>
    have hsize := List.sizeOf_lt_of_mem (mem_inside_object.mp h).1
    simp only [Prod.mk.sizeOf_spec, Json.object.sizeOf_spec] at hsize ⊢
    omega
  | array items =>
    obtain ⟨i, hi, -, -⟩ := mem_inside_array.mp h
    have hsize := List.sizeOf_lt_of_mem (List.mem_of_getElem? hi)
    simp only [Json.array.sizeOf_spec]
    omega
  | _ => exact absurd h List.not_mem_nil

end Part

/-! ### Checks -/

/-- A value that must be of the kind of a part, and the way to it. -/
structure Check where
  path : List String
  part : Part
  value : Json

namespace Check

/-- The value is of the kind of the part. -/
def Met (c : Check) : Prop :=
  c.value.kind = c.part.kind

instance (c : Check) : Decidable c.Met :=
  inferInstanceAs (Decidable (c.value.kind = c.part.kind))

/-- The check, placed under a token. -/
def under (token : String) (c : Check) : Check :=
  { c with path := token :: c.path }

/-- What is wrong if the check is not met. -/
def fault? (c : Check) : Option ShapeFault :=
  if c.Met then none else some ⟨c.path, .unexpected c.part.kind c.value.kind⟩

theorem fault?_eq_none {c : Check} : c.fault? = none ↔ c.Met := by
  unfold fault?
  split <;> simp_all

theorem fault?_under (token : String) (c : Check) :
    (c.under token).fault? = c.fault?.map (ShapeFault.under token) := by
  unfold fault?
  by_cases h : c.Met
  · have hunder : (c.under token).Met := h
    rw [if_pos h, if_pos hunder]
    rfl
  · have hunder : ¬ (c.under token).Met := h
    rw [if_neg h, if_neg hunder]
    rfl

end Check

/-- The checks of a value as a part, in document order: its own, and then those of the parts inside
it, one part after the other. -/
def checks (part : Part) (v : Json) : List Check :=
  ⟨[], part, v⟩ :: (part.inside v).attach.flatMap fun e =>
    (checks e.1.2.1 e.1.2.2).map (Check.under e.1.1)
termination_by sizeOf v
decreasing_by exact Part.sizeOf_lt_of_mem_inside e.2

theorem checks_eq (part : Part) (v : Json) : checks part v =
    ⟨[], part, v⟩ :: (part.inside v).flatMap fun e =>
      (checks e.2.1 e.2.2).map (Check.under e.1) := by
  have hattach := List.attach_map_subtype_val (part.inside v)
  rw [checks]
  conv_rhs => rw [← hattach, List.flatMap_map]

/-- The first fault of a value as a part, in document order. -/
def firstFault? (part : Part) (v : Json) : Option ShapeFault :=
  (checks part v).findSome? Check.fault?

theorem firstFault?_of_kind_ne {part : Part} {v : Json} (h : v.kind ≠ part.kind) :
    firstFault? part v = some (.unexpected part.kind v) := by
  have hroot : Check.fault? ⟨[], part, v⟩ = some (.unexpected part.kind v) := if_neg h
  rw [firstFault?, checks_eq, List.findSome?_cons, hroot]

theorem findSome?_congr {α β : Type} {f g : α → Option β} {xs : List α} (h : ∀ x ∈ xs, f x = g x) :
    xs.findSome? f = xs.findSome? g := by
  rw [← List.head?_filterMap, ← List.head?_filterMap, List.filterMap_congr h]

/-- A value of the right kind has the first fault of the parts inside it. -/
theorem firstFault?_of_kind {part : Part} {v : Json} (h : v.kind = part.kind) :
    firstFault? part v = (part.inside v).findSome? fun e =>
      (firstFault? e.2.1 e.2.2).map (ShapeFault.under e.1) := by
  have hroot : Check.fault? ⟨[], part, v⟩ = none := if_pos h
  have hblocks : ∀ es : List (String × Part × Json),
      (es.flatMap fun e => (checks e.2.1 e.2.2).map (Check.under e.1)).findSome? Check.fault? =
        es.findSome? fun e => (firstFault? e.2.1 e.2.2).map (ShapeFault.under e.1) := by
    intro es
    induction es with
    | nil => rfl
    | cons e es ih =>
      have hblock : ((checks e.2.1 e.2.2).map (Check.under e.1)).findSome? Check.fault? =
          (firstFault? e.2.1 e.2.2).map (ShapeFault.under e.1) := by
        rw [firstFault?, List.findSome?_map, List.map_findSome?]
        exact findSome?_congr fun c _ => Check.fault?_under e.1 c
      rw [List.flatMap_cons, List.findSome?_append, List.findSome?_cons, ih, hblock]
      cases (firstFault? e.2.1 e.2.2).map (ShapeFault.under e.1) <;> rfl
  rw [firstFault?, checks_eq, List.findSome?_cons, hroot]
  exact hblocks _

/-- An object of the right kind has the first fault of its members that are parts. -/
theorem firstFault?_object {part : Part} (members : List (String × Json))
    (h : part.kind = .object) : firstFault? part (.object members) = members.findSome? fun e =>
      ((part.member? e.1).bind fun p => firstFault? p e.2).map (ShapeFault.under e.1) := by
  rw [firstFault?_of_kind (by rw [h]; rfl), Part.inside, ← List.head?_filterMap, List.filterMap_filterMap,
    List.head?_filterMap]
  refine findSome?_congr fun e _ => ?_
  cases part.member? e.1 <;> rfl

/-- A list of nodes has the first fault of its items. -/
theorem firstFault?_array (items : List Json) : firstFault? .sequence (.array items) =
    items.zipIdx.findSome? fun e =>
      (firstFault? .node e.1).map (ShapeFault.under (toString e.2)) := by
  rw [firstFault?_of_kind (by rfl), Part.inside, ← List.head?_filterMap, List.filterMap_filterMap,
    List.head?_filterMap]
  rfl

/-- No fault is found if and only if every check is met. -/
theorem firstFault?_eq_none {part : Part} {v : Json} :
    firstFault? part v = none ↔ ∀ c ∈ checks part v, c.Met := by
  rw [firstFault?, List.findSome?_eq_none_iff]
  exact forall₂_congr fun c _ => Check.fault?_eq_none

/-! ### Readers that go through a list -/

/-- The fault that a reader stops at. -/
def fault? {α : Type} : Shaped α → Option ShapeFault
  | .ok _ => none
  | .error f => some f

theorem fault?_map {α β : Type} (g : α → β) (r : Shaped α) : fault? (r.map g) = fault? r := by
  cases r <;> rfl

theorem fault?_within {α : Type} (token : String) (r : Shaped α) :
    fault? (within token r) = (fault? r).map (ShapeFault.under token) := by
  cases r <;> rfl

theorem fault?_eq_none {α : Type} {r : Shaped α} : fault? r = none ↔ ∃ a, r = .ok a := by
  cases r <;> simp [fault?]

/-- Read the elements of a list one after the other, up to the first fault. -/
def readAll {α β : Type} (read : α → Shaped β) : List α → Shaped (List β)
  | [] => .ok []
  | a :: rest =>
    match read a with
    | .error f => .error f
    | .ok b =>
      match readAll read rest with
      | .error f => .error f
      | .ok bs => .ok (b :: bs)

/-- Reading a list stops at the fault of the first element that has one. -/
theorem fault?_readAll {α β : Type} (read : α → Shaped β) : ∀ as : List α,
    fault? (readAll read as) = as.findSome? fun a => fault? (read a)
  | [] => rfl
  | a :: rest => by
    have ih := fault?_readAll read rest
    rw [List.findSome?_cons, ← ih, readAll]
    cases read a with
    | error f => rfl
    | ok b => cases readAll read rest <;> rfl

/-- A list that is read is read element by element. -/
theorem forall₂_of_readAll {α β : Type} {read : α → Shaped β} : ∀ {as : List α} {bs : List β},
    readAll read as = .ok bs → List.Forall₂ (fun a b => read a = .ok b) as bs
  | [], bs, h => by
    rw [← Except.ok.inj h]
    exact .nil
  | a :: rest, bs, h => by
    unfold readAll at h
    cases ha : read a with
    | error f => rw [ha] at h; cases h
    | ok b =>
      rw [ha] at h
      cases hr : readAll read rest with
      | error f => rw [hr] at h; cases h
      | ok others =>
        rw [hr] at h
        rw [← Except.ok.inj h]
        exact .cons ha (forall₂_of_readAll hr)

theorem readAll_eq_ok {α β : Type} {read : α → Shaped β} {as : List α} {bs : List β}
    (h : List.Forall₂ (fun a b => read a = .ok b) as bs) : readAll read as = .ok bs := by
  induction h with
  | nil => rfl
  | cons ha _ ih => rw [readAll, ha, ih]

theorem readFields_eq_readAll : ∀ members : List (String × Json),
    readFields members = readAll (fun e => within e.1 (readField e.1 e.2)) members
  | [] => by rw [readFields, readAll]
  | (key, value) :: rest => by
    rw [readFields, readAll, readFields_eq_readAll rest]
    cases within key (readField key value) with
    | error f => rfl
    | ok field => cases readAll _ rest <;> rfl

theorem readItems_eq_readAll : ∀ (items : List Json) (i : Nat),
    readItems i items = readAll (fun e => within (toString e.2) (readNode e.1)) (items.zipIdx i)
  | [], _ => by rw [readItems, List.zipIdx_nil, readAll]
  | v :: rest, i => by
    rw [readItems, List.zipIdx_cons, readAll, readItems_eq_readAll rest (i + 1)]
    cases within (toString i) (readNode v) with
    | error f => rfl
    | ok n => cases readAll _ (rest.zipIdx (i + 1)) <;> rfl

theorem readSections_eq_readAll : ∀ members : List (String × Json), readSections members =
    readAll (fun e => (within e.1 (readNode e.2)).map fun n => (e.1, n)) members
  | [] => rfl
  | (key, value) :: rest => by
    rw [readSections, readAll, readSections_eq_readAll rest]
    cases within key (readNode value) with
    | error f => rfl
    | ok n => cases readAll _ rest <;> rfl

theorem readDocumentFields_eq_readAll : ∀ members : List (String × Json),
    readDocumentFields members =
      readAll (fun e => within e.1 (readDocumentField e.1 e.2)) members
  | [] => rfl
  | (key, value) :: rest => by
    rw [readDocumentFields, readAll, readDocumentFields_eq_readAll rest]
    cases within key (readDocumentField key value) with
    | error f => rfl
    | ok field => cases readAll _ rest <;> rfl

/-! ### Readers stop at the first fault -/

/-- A value of the wrong kind is at fault itself. -/
theorem fault?_of_kind_ne {α : Type} {part : Part} {v : Json} {r : Shaped α}
    (h : v.kind ≠ part.kind) (hr : r = .error (.unexpected part.kind v)) :
    fault? r = firstFault? part v := by
  rw [hr, firstFault?_of_kind_ne h]
  rfl

theorem fault?_readText (v : Json) : fault? (readText v) = firstFault? .text v := by
  cases v with
  | string s =>
    rw [firstFault?_of_kind (by rfl)]
    rfl
  | _ => exact fault?_of_kind_ne (by simp [Json.kind, Part.kind]) rfl

theorem fault?_readNode_of_kind_ne {v : Json} (h : v.kind ≠ .object) :
    fault? (readNode v) = firstFault? .node v := by
  refine fault?_of_kind_ne h ?_
  cases v with
  | object members => exact absurd rfl h
  | _ => rw [readNode]; rfl

theorem fault?_readNodes_of_kind_ne {v : Json} (h : v.kind ≠ .array) :
    fault? (readNodes v) = firstFault? .sequence v := by
  refine fault?_of_kind_ne h ?_
  cases v with
  | array items => exact absurd rfl h
  | _ => rw [readNodes]; rfl

/-- A member of a node is read as the part under its key. -/
theorem fault?_readField {key : String} {value : Json}
    (ih : fault? (readNodes value) = firstFault? .sequence value) :
    fault? (readField key value) =
      (Part.node.member? key).bind fun p => firstFault? p value := by
  unfold readField Part.member?
  by_cases hname : key = "name"
  · simp only [if_pos hname, fault?_map, fault?_readText, Option.bind_some]
  by_cases hregex : key = "match"
  · simp only [if_neg hname, if_pos hregex, fault?_map, fault?_readText, Option.bind_some]
  by_cases hcomment : key = "comment"
  · simp only [if_neg hname, if_neg hregex, if_pos hcomment, fault?_map, fault?_readText,
      Option.bind_some]
  by_cases hpatterns : key = "patterns"
  · simp only [if_neg hname, if_neg hregex, if_neg hcomment, if_pos hpatterns, fault?_map, ih,
      Option.bind_some]
  · simp only [if_neg hname, if_neg hregex, if_neg hcomment, if_neg hpatterns, Option.bind_none]
    rfl

/-- Reading a node, or a sequence of nodes, stops at the first fault in document order. -/
theorem fault?_readNode_and_readNodes (v : Json) :
    fault? (readNode v) = firstFault? .node v ∧
      fault? (readNodes v) = firstFault? .sequence v := by
  induction v using Json.induction with
  | array items ih =>
    refine ⟨fault?_readNode_of_kind_ne (by simp [Json.kind]), ?_⟩
    rw [firstFault?_array, readNodes, readItems_eq_readAll, fault?_readAll]
    refine findSome?_congr fun e he => ?_
    rw [fault?_within, (ih e.1 (List.fst_mem_of_mem_zipIdx he)).1]
  | object members ih =>
    refine ⟨?_, fault?_readNodes_of_kind_ne (by simp [Json.kind])⟩
    have hfields : fault? (readNode (.object members)) = fault? (readFields members) := by
      rw [readNode]
      cases readFields members <;> rfl
    rw [firstFault?_object members rfl, hfields, readFields_eq_readAll, fault?_readAll]
    refine findSome?_congr fun e he => ?_
    rw [fault?_within, fault?_readField (ih e he).2]
  | _ =>
    exact ⟨fault?_readNode_of_kind_ne (by simp [Json.kind]),
      fault?_readNodes_of_kind_ne (by simp [Json.kind])⟩

theorem fault?_readNode (v : Json) : fault? (readNode v) = firstFault? .node v :=
  (fault?_readNode_and_readNodes v).1

theorem fault?_readNodes (v : Json) : fault? (readNodes v) = firstFault? .sequence v :=
  (fault?_readNode_and_readNodes v).2

theorem fault?_readRepository (v : Json) :
    fault? (readRepository v) = firstFault? .repository v := by
  cases v with
  | object members =>
    rw [firstFault?_object members rfl, readRepository, readSections_eq_readAll, fault?_readAll]
    refine findSome?_congr fun e _ => ?_
    rw [fault?_map, fault?_within, fault?_readNode]
    rfl
  | _ => exact fault?_of_kind_ne (by simp [Json.kind, Part.kind]) rfl

/-- A member of a document is read as the part under its key. -/
theorem fault?_readDocumentField (key : String) (value : Json) :
    fault? (readDocumentField key value) =
      (Part.document.member? key).bind fun p => firstFault? p value := by
  unfold readDocumentField Part.member?
  by_cases hscope : key = "scopeName"
  · simp only [if_pos hscope, fault?_map, fault?_readText, Option.bind_some]
  by_cases hpatterns : key = "patterns"
  · simp only [if_neg hscope, if_pos hpatterns, fault?_map, fault?_readNodes, Option.bind_some]
  by_cases hrepository : key = "repository"
  · simp only [if_neg hscope, if_neg hpatterns, if_pos hrepository, fault?_map,
      fault?_readRepository, Option.bind_some]
  · simp only [if_neg hscope, if_neg hpatterns, if_neg hrepository, Option.bind_none]
    rfl

theorem fault?_readDocumentFields (members : List (String × Json)) :
    fault? (readDocumentFields members) = firstFault? .document (.object members) := by
  rw [firstFault?_object members rfl, readDocumentFields_eq_readAll, fault?_readAll]
  refine findSome?_congr fun e _ => ?_
  rw [fault?_within, fault?_readDocumentField]

end Shape
end GrammarSync
