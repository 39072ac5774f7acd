/-
# Tables keyed by words

A word map lists its entries by strictly increasing key. A key that is put in
twice keeps its last value.

Key definitions: `WordMap`, `WordMap.insert`, `WordMap.get?`, `WordMap.ofList`.
Key theorems: `WordMap.get?_eq_some_iff`, `WordMap.isSome_get?`.
-/
import GrammarSync.Words.Entries
import GrammarSync.Words.Set

namespace GrammarSync

open Words

/-- A finite map from words, kept as its entries by strictly increasing key. -/
structure WordMap (α : Type) where
  entries : List (String × α)
  increasing : (entries.map Prod.fst).Pairwise Before

namespace WordMap

variable {α : Type}

instance [DecidableEq α] : DecidableEq (WordMap α) := fun a b =>
  decidable_of_iff (a.entries = b.entries) (by cases a; cases b; simp)

/-- The map without entries. -/
def empty : WordMap α :=
  ⟨[], .nil⟩

instance : Inhabited (WordMap α) :=
  ⟨empty⟩

/-- The keys, increasing. -/
def keys (m : WordMap α) : List String :=
  m.entries.map Prod.fst

/-- The value of a key. -/
def get? (m : WordMap α) (k : String) : Option α :=
  m.entries.lookup k

theorem get?_eq_some_iff {m : WordMap α} {k : String} {v : α} :
    m.get? k = some v ↔ (k, v) ∈ m.entries :=
  ⟨Entries.mem_of_lookup, Entries.lookup_of_mem (m.increasing.imp Before.ne)⟩

theorem isSome_get? {m : WordMap α} {k : String} : (m.get? k).isSome ↔ k ∈ m.keys := by
  rw [← Option.ne_none_iff_isSome, get?, Ne, Entries.lookup_eq_none_iff, Decidable.not_not]
  rfl

/-- Put an entry at its key's place; it replaces an entry with the same key. -/
def place (k : String) (v : α) : List (String × α) → List (String × α)
  | [] => [(k, v)]
  | (x, u) :: rest =>
    if k = x then (k, v) :: rest
    else if Before k x then (k, v) :: (x, u) :: rest
    else (x, u) :: place k v rest

theorem keys_place (k : String) (v : α) :
    ∀ es : List (String × α), (place k v es).map Prod.fst = WordSet.place k (es.map Prod.fst)
  | [] => rfl
  | (x, u) :: rest => by
    simp only [place, WordSet.place, List.map_cons]
    split
    · rename_i h; simp [h]
    · split
      · simp
      · simp [keys_place k v rest]

/-- The map with an entry put in. -/
def insert (k : String) (v : α) (m : WordMap α) : WordMap α :=
  ⟨place k v m.entries, by rw [keys_place]; exact WordSet.increasing_place k m.increasing⟩

/-- The map of a list of entries; of two entries with one key the later counts. -/
def ofList (es : List (String × α)) : WordMap α :=
  es.foldl (fun m e => m.insert e.1 e.2) empty

end WordMap
end GrammarSync
