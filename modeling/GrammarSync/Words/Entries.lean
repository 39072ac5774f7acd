/-
# Entries in insertion order

A list of entries with distinct keys is a table that remembers the order in
which its keys came. Putting a value under a key that is there keeps the key's
place; a new key comes last. Where an order of keys is kept apart from the
values, `Entries.listed` puts the two together.

Key definitions: `Entries.put`, `Entries.modify`, `Entries.erase`, `Entries.ofList`,
`Entries.listed`.
Key theorems: `Entries.mem_of_lookup`, `Entries.lookup_of_mem`,
`Entries.lookup_eq_none_iff`, `Entries.keys_listed`, `Entries.mem_listed`.
-/

namespace GrammarSync
namespace Entries

variable {α : Type}

/-- The keys, in order. -/
def keys (es : List (String × α)) : List String :=
  es.map Prod.fst

/-- Put a value under a key: in the key's place, or last if the key is new. -/
def put (k : String) (v : α) : List (String × α) → List (String × α)
  | [] => [(k, v)]
  | (x, u) :: rest => if x = k then (k, v) :: rest else (x, u) :: put k v rest

/-- Change the value under a key, if the key is there. -/
def modify (k : String) (f : α → α) : List (String × α) → List (String × α)
  | [] => []
  | (x, u) :: rest => if x = k then (x, f u) :: rest else (x, u) :: modify k f rest

/-- Remove a key; the others keep their order. -/
def erase (k : String) (es : List (String × α)) : List (String × α) :=
  es.filter (·.1 ≠ k)

/-- The entries put in one after the other: a repeated key keeps its first place and
gets its last value. -/
def ofList (es : List (String × α)) : List (String × α) :=
  es.foldl (fun acc e => put e.1 e.2 acc) []

/-- The entries of an order of keys; a key without a value has none. -/
def listed (value? : String → Option α) (order : List String) : List (String × α) :=
  order.filterMap fun key => (value? key).map (key, ·)

theorem mem_of_lookup {k : String} {v : α} {es : List (String × α)} (h : es.lookup k = some v) :
    (k, v) ∈ es := by
  obtain ⟨xs, ys, rfl, -⟩ := List.lookup_eq_some_iff.mp h
  exact List.mem_append_right _ List.mem_cons_self

/-- Distinct keys: every entry is found. -/
theorem lookup_of_mem {es : List (String × α)} (h : (keys es).Nodup) {key : String} {v : α}
    (hv : (key, v) ∈ es) : es.lookup key = some v := by
  induction es with
  | nil => exact absurd hv List.not_mem_nil
  | cons e rest ih =>
    rw [keys, List.map_cons, List.nodup_cons] at h
    rcases List.mem_cons.mp hv with rfl | hrest
    · rw [List.lookup_cons_self]
    · have hne : (key == e.1) = false := by
        rw [beq_eq_false_iff_ne]
        rintro rfl
        exact h.1 (List.mem_map.mpr ⟨_, hrest, rfl⟩)
      rw [List.lookup_cons, hne]
      exact ih h.2 hrest

theorem lookup_eq_none_iff {k : String} {es : List (String × α)} :
    es.lookup k = none ↔ k ∉ keys es := by
  rw [List.lookup_eq_none_iff, keys, List.mem_map]
  constructor
  · rintro h ⟨e, he, hk⟩
    simpa [hk] using h e he
  · intro h e he
    exact bne_iff_ne.mpr fun hk => h ⟨e, he, hk.symm⟩

section Listed

variable {value? : String → Option α} {order : List String}

theorem mem_listed {key : String} {v : α} :
    (key, v) ∈ listed value? order ↔ key ∈ order ∧ value? key = some v := by
  rw [listed, List.mem_filterMap]
  constructor
  · rintro ⟨k, hk, hv⟩
    obtain ⟨w, hw, hkey⟩ := Option.map_eq_some_iff.mp hv
    obtain ⟨rfl, rfl⟩ := Prod.mk.inj hkey
    exact ⟨hk, hw⟩
  · rintro ⟨hk, hv⟩
    exact ⟨key, hk, Option.map_eq_some_iff.mpr ⟨v, hv, rfl⟩⟩

theorem listed_cons {key : String} {v : α} {rest : List String} (h : value? key = some v) :
    listed value? (key :: rest) = (key, v) :: listed value? rest := by
  rw [listed, List.filterMap_cons, h]
  rfl

/-- Keys with the values given are listed with them. -/
theorem listed_map {β : Type} {key : β → String} {value : β → α} : ∀ {items : List β},
    (∀ b ∈ items, value? (key b) = some (value b)) →
      listed value? (items.map key) = items.map fun b => (key b, value b)
  | [], _ => rfl
  | b :: items, h => by
    have ih := listed_map fun c hc => h c (List.mem_cons_of_mem b hc)
    rw [List.map_cons, listed_cons (h b List.mem_cons_self), ih, List.map_cons]

/-- The keys are those of the order, if each has a value. -/
theorem keys_listed (h : ∀ key ∈ order, (value? key).isSome) :
    keys (listed value? order) = order := by
  induction order with
  | nil => rfl
  | cons key rest ih =>
    obtain ⟨v, hv⟩ := Option.isSome_iff_exists.mp (h key List.mem_cons_self)
    have hrest := ih fun k hk => h k (List.mem_cons_of_mem _ hk)
    rw [listed_cons hv, keys, List.map_cons, ← keys, hrest]

end Listed

end Entries
end GrammarSync
