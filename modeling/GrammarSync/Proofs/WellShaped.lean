/-
# Well-shaped values

`Node.WellShaped` and `Document.WellShaped` say which values are nodes and
grammars, without a reader and without an order of checks. `Part.Shaped` says
the same of every part. A value is well-shaped as a part if it is of the kind
of the part and the parts inside it are well-shaped (`shaped_iff`), hence if
and only if all its checks are met (`met_iff_shaped`).

Key definitions: `Node.WellShaped`, `Document.WellShaped`, `Part.Shaped`.
Key theorems: `shaped_iff`, `met_iff_shaped`.
-/
import GrammarSync.Proofs.Checks
import Mathlib.Data.List.Basic

namespace GrammarSync

/-! ### Well-shaped values -/

/-- A well-shaped node: an object in which `name`, `match` and `comment`, where present, are texts,
and `patterns`, where present, is a list of well-shaped nodes. All else is free. -/
inductive Node.WellShaped : Json → Prop
  | object {members : List (String × Json)}
      (texts : ∀ key ∈ ["name", "match", "comment"], ∀ v, (key, v) ∈ members → ∃ s, v = .string s)
      (lists : ∀ v, ("patterns", v) ∈ members → ∃ items, v = .array items)
      (nested : ∀ items, ("patterns", .array items) ∈ members → ∀ v ∈ items, Node.WellShaped v) :
      Node.WellShaped (.object members)

/-- A well-shaped grammar: an object with a text `scopeName`, a list of well-shaped nodes `patterns`
and an object of well-shaped nodes `repository`. -/
inductive Document.WellShaped : Json → Prop
  | object {members : List (String × Json)} {scope : String} {nodes : List Json}
      {sections : List (String × Json)}
      (scopeName : ("scopeName", .string scope) ∈ members)
      (patterns : ("patterns", .array nodes) ∈ members ∧ ∀ v ∈ nodes, Node.WellShaped v)
      (repository : ("repository", .object sections) ∈ members ∧
        ∀ e ∈ sections, Node.WellShaped e.2) : Document.WellShaped (.object members)

namespace Shape

/-- What a value must be to be well-shaped as a part. A document may lack fields. -/
def Part.Shaped : Part → Json → Prop
  | .document, v => ∃ members, v = .object members ∧
      (∀ w, ("scopeName", w) ∈ members → ∃ s, w = .string s) ∧
      (∀ w, ("patterns", w) ∈ members →
        ∃ items, w = .array items ∧ ∀ n ∈ items, Node.WellShaped n) ∧
      (∀ w, ("repository", w) ∈ members →
        ∃ sections, w = .object sections ∧ ∀ e ∈ sections, Node.WellShaped e.2)
  | .repository, v => ∃ sections, v = .object sections ∧ ∀ e ∈ sections, Node.WellShaped e.2
  | .node, v => Node.WellShaped v
  | .sequence, v => ∃ items, v = .array items ∧ ∀ n ∈ items, Node.WellShaped n
  | .text, v => ∃ s, v = .string s

/-! ### Well-shaped part by part -/

theorem kind_eq_object {v : Json} : v.kind = .object ↔ ∃ members, v = .object members := by
  cases v <;> simp [Json.kind]

theorem kind_eq_array {v : Json} : v.kind = .array ↔ ∃ items, v = .array items := by
  cases v <;> simp [Json.kind]

theorem kind_eq_string {v : Json} : v.kind = .string ↔ ∃ s, v = .string s := by
  cases v <;> simp [Json.kind]

theorem member?_node {key : String} {p : Part} : Part.node.member? key = some p ↔
    (key ∈ ["name", "match", "comment"] ∧ p = .text) ∨ (key = "patterns" ∧ p = .sequence) := by
  unfold Part.member?
  by_cases hname : key = "name"
  · simp [hname, eq_comm]
  by_cases hregex : key = "match"
  · simp [hregex, eq_comm]
  by_cases hcomment : key = "comment"
  · simp [hcomment, eq_comm]
  by_cases hpatterns : key = "patterns"
  · simp [hpatterns, eq_comm]
  · simp [hname, hregex, hcomment, hpatterns]

theorem member?_document {key : String} {p : Part} : Part.document.member? key = some p ↔
    (key = "scopeName" ∧ p = .text) ∨ (key = "patterns" ∧ p = .sequence) ∨
      (key = "repository" ∧ p = .repository) := by
  unfold Part.member?
  by_cases hscope : key = "scopeName"
  · simp [hscope, eq_comm]
  by_cases hpatterns : key = "patterns"
  · simp [hpatterns, eq_comm]
  by_cases hrepository : key = "repository"
  · simp [hrepository, eq_comm]
  · simp [hscope, hpatterns, hrepository]

/-- The parts inside an object are well-shaped if the members with a meaning are. -/
theorem forall_inside_object {part : Part} {members : List (String × Json)} :
    (∀ e ∈ part.inside (.object members), e.2.1.Shaped e.2.2) ↔
      ∀ key w p, (key, w) ∈ members → part.member? key = some p → p.Shaped w := by
  constructor
  · intro h key w p hw hp
    exact h (key, p, w) (Part.mem_inside_object.mpr ⟨hw, hp⟩)
  · rintro h ⟨key, p, w⟩ he
    obtain ⟨hw, hp⟩ := Part.mem_inside_object.mp he
    exact h key w p hw hp

theorem forall_inside_sequence {items : List Json} :
    (∀ e ∈ Part.sequence.inside (.array items), e.2.1.Shaped e.2.2) ↔
      ∀ n ∈ items, Node.WellShaped n := by
  constructor
  · intro h n hn
    obtain ⟨i, hi⟩ := List.mem_iff_getElem?.mp hn
    exact h (toString i, .node, n) (Part.mem_inside_array.mpr ⟨i, hi, rfl, rfl⟩)
  · rintro h ⟨token, p, w⟩ he
    obtain ⟨i, hi, -, hp⟩ := Part.mem_inside_array.mp he
    obtain rfl : Part.node = p := Option.some.inj hp
    exact h w (List.mem_of_getElem? hi)

theorem wellShaped_node_iff {v : Json} : Node.WellShaped v ↔
    v.kind = .object ∧ ∀ e ∈ Part.node.inside v, e.2.1.Shaped e.2.2 := by
  constructor
  · rintro ⟨texts, lists, nested⟩
    refine ⟨rfl, forall_inside_object.mpr fun key w p hw hp => ?_⟩
    rcases member?_node.mp hp with ⟨hkey, rfl⟩ | ⟨rfl, rfl⟩
    · exact texts key hkey w hw
    · obtain ⟨items, rfl⟩ := lists w hw
      exact ⟨items, rfl, nested items hw⟩
  · rintro ⟨hkind, hinside⟩
    obtain ⟨members, rfl⟩ := kind_eq_object.mp hkind
    rw [forall_inside_object] at hinside
    refine .object ?_ ?_ ?_
    · intro key hkey v hv
      exact hinside key v .text hv (member?_node.mpr (.inl ⟨hkey, rfl⟩))
    · intro v hv
      obtain ⟨items, hitems, -⟩ :=
        hinside "patterns" v .sequence hv (member?_node.mpr (.inr ⟨rfl, rfl⟩))
      exact ⟨items, hitems⟩
    · intro items hitems
      obtain ⟨_, heq, hnodes⟩ :=
        hinside "patterns" _ .sequence hitems (member?_node.mpr (.inr ⟨rfl, rfl⟩))
      obtain rfl := Json.array.inj heq
      exact hnodes

theorem shaped_document_iff {members : List (String × Json)} :
    Part.document.Shaped (.object members) ↔
      ∀ e ∈ Part.document.inside (.object members), e.2.1.Shaped e.2.2 := by
  rw [forall_inside_object]
  constructor
  · rintro ⟨_, heq, hscope, hpatterns, hrepository⟩ key w p hw hp
    obtain rfl := Json.object.inj heq
    rcases member?_document.mp hp with ⟨rfl, rfl⟩ | ⟨rfl, rfl⟩ | ⟨rfl, rfl⟩
    · exact hscope w hw
    · exact hpatterns w hw
    · exact hrepository w hw
  · intro h
    refine ⟨members, rfl, fun w hw => ?_, fun w hw => ?_, fun w hw => ?_⟩
    · exact h "scopeName" w .text hw (member?_document.mpr (.inl ⟨rfl, rfl⟩))
    · exact h "patterns" w .sequence hw (member?_document.mpr (.inr (.inl ⟨rfl, rfl⟩)))
    · exact h "repository" w .repository hw (member?_document.mpr (.inr (.inr ⟨rfl, rfl⟩)))

/-- A value is well-shaped as a part if it is of its kind and the parts inside it are
well-shaped. -/
theorem shaped_iff {part : Part} {v : Json} : part.Shaped v ↔
    v.kind = part.kind ∧ ∀ e ∈ part.inside v, e.2.1.Shaped e.2.2 := by
  cases part with
  | document =>
    constructor
    · rintro ⟨members, rfl, h⟩
      exact ⟨rfl, shaped_document_iff.mp ⟨members, rfl, h⟩⟩
    · rintro ⟨hkind, hinside⟩
      obtain ⟨members, rfl⟩ := kind_eq_object.mp hkind
      exact shaped_document_iff.mpr hinside
  | repository =>
    constructor
    · rintro ⟨sections, rfl, h⟩
      refine ⟨rfl, forall_inside_object.mpr fun key w p hw hp => ?_⟩
      obtain rfl : Part.node = p := Option.some.inj hp
      exact h (key, w) hw
    · rintro ⟨hkind, hinside⟩
      obtain ⟨sections, rfl⟩ := kind_eq_object.mp hkind
      rw [forall_inside_object] at hinside
      exact ⟨sections, rfl, fun e he => hinside e.1 e.2 .node he rfl⟩
  | node => exact wellShaped_node_iff
  | sequence =>
    constructor
    · rintro ⟨items, rfl, h⟩
      exact ⟨rfl, forall_inside_sequence.mpr h⟩
    · rintro ⟨hkind, hinside⟩
      obtain ⟨items, rfl⟩ := kind_eq_array.mp hkind
      exact ⟨items, rfl, forall_inside_sequence.mp hinside⟩
  | text =>
    constructor
    · rintro ⟨s, rfl⟩
      exact ⟨rfl, fun e he => absurd he List.not_mem_nil⟩
    · rintro ⟨hkind, -⟩
      exact kind_eq_string.mp hkind

/-- A value is well-shaped as a part if and only if all its checks are met. -/
theorem met_iff_shaped (part : Part) (v : Json) :
    (∀ c ∈ checks part v, c.Met) ↔ part.Shaped v := by
  induction part, v using checks.induct with
  | case1 part v ih =>
    rw [checks_eq, List.forall_mem_cons, shaped_iff]
    refine and_congr_right fun _ => ?_
    constructor
    · intro h e he
      refine (ih ⟨e, he⟩).mp fun c hc => ?_
      exact h (c.under e.1) (List.mem_flatMap.mpr ⟨e, he, List.mem_map.mpr ⟨c, hc, rfl⟩⟩)
    · intro h c hc
      obtain ⟨e, he, hblock⟩ := List.mem_flatMap.mp hc
      obtain ⟨b, hb, rfl⟩ := List.mem_map.mp hblock
      exact (ih ⟨e, he⟩).mpr (h e he) b hb

end Shape
end GrammarSync
