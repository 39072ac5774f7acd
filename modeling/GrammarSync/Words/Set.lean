/-
# Sets of words

A word set is its increasing list of words, so two sets with the same members
are equal (`WordSet.ext`) and every set prints in one way. A list of words
enters in any order and with repetitions (`WordSet.ofList`).

Key definitions: `WordSet`, `WordSet.insert`, `WordSet.ofList`.
Key theorems: `WordSet.mem_insert`, `WordSet.mem_ofList`, `WordSet.ext`.
-/
import GrammarSync.Words.Order

namespace GrammarSync

open Words

/-- A finite set of words, kept as its strictly increasing list. -/
structure WordSet where
  /-- The members, each once, in increasing order. -/
  toList : List String
  increasing : toList.Pairwise Before
deriving DecidableEq

namespace WordSet

instance : Membership String WordSet :=
  ⟨fun s w => w ∈ s.toList⟩

instance (w : String) (s : WordSet) : Decidable (w ∈ s) :=
  inferInstanceAs (Decidable (w ∈ s.toList))

theorem mem_def {w : String} {s : WordSet} : w ∈ s ↔ w ∈ s.toList :=
  Iff.rfl

/-- The set without members. -/
def empty : WordSet :=
  ⟨[], .nil⟩

instance : Inhabited WordSet :=
  ⟨empty⟩

/-- Put a word at its place in an increasing list; a word already there stays alone. -/
def place (w : String) : List String → List String
  | [] => [w]
  | x :: xs =>
    if w = x then x :: xs
    else if Before w x then w :: x :: xs
    else x :: place w xs

theorem mem_place {w v : String} : ∀ xs : List String, v ∈ place w xs ↔ v = w ∨ v ∈ xs
  | [] => by simp [place]
  | x :: xs => by
    have ih := mem_place (w := w) (v := v) xs
    unfold place
    split
    · rename_i h; simp [h]
    · split
      · simp
      · simp only [List.mem_cons, ih]
        exact or_left_comm

theorem increasing_place (w : String) :
    ∀ {xs : List String}, xs.Pairwise Before → (place w xs).Pairwise Before
  | [], _ => List.pairwise_singleton _ _
  | x :: xs, h => by
    have hx := (List.pairwise_cons.mp h).1
    have hxs := (List.pairwise_cons.mp h).2
    unfold place
    split
    · exact h
    · rename_i hne
      split
      · rename_i hb
        refine List.pairwise_cons.mpr ⟨fun v hv => ?_, h⟩
        rcases List.mem_cons.mp hv with rfl | hv
        · exact hb
        · exact hb.trans (hx v hv)
      · rename_i hb
        refine List.pairwise_cons.mpr ⟨fun v hv => ?_, increasing_place w hxs⟩
        rcases (mem_place xs).mp hv with rfl | hv
        · exact ((before_or_eq_or_before v x).resolve_left hb).resolve_left hne
        · exact hx v hv

/-- The set with one more word. -/
def insert (w : String) (s : WordSet) : WordSet :=
  ⟨place w s.toList, increasing_place w s.increasing⟩

@[simp] theorem mem_insert {w v : String} {s : WordSet} : v ∈ s.insert w ↔ v = w ∨ v ∈ s :=
  mem_place s.toList

/-- The set without a word. -/
def erase (w : String) (s : WordSet) : WordSet :=
  ⟨s.toList.filter (· ≠ w), s.increasing.filter _⟩

@[simp] theorem mem_erase {w v : String} {s : WordSet} : v ∈ s.erase w ↔ v ∈ s ∧ v ≠ w := by
  simp [erase, mem_def]

/-- The set with all words of a list. -/
def insertAll (s : WordSet) (ws : List String) : WordSet :=
  ws.foldl (fun s w => s.insert w) s

@[simp] theorem mem_insertAll {v : String} :
    ∀ (ws : List String) (s : WordSet), v ∈ s.insertAll ws ↔ v ∈ s ∨ v ∈ ws
  | [], s => by simp [insertAll]
  | w :: ws, s => by
    have ih := mem_insertAll (v := v) ws (s.insert w)
    simp only [insertAll, List.foldl_cons] at ih ⊢
    rw [ih, mem_insert, List.mem_cons]
    constructor
    · rintro ((h | h) | h)
      · exact .inr (.inl h)
      · exact .inl h
      · exact .inr (.inr h)
    · rintro (h | h | h)
      · exact .inl (.inr h)
      · exact .inl (.inl h)
      · exact .inr h

/-- The set of the words of a list. -/
def ofList (ws : List String) : WordSet :=
  empty.insertAll ws

@[simp] theorem mem_ofList {v : String} {ws : List String} : v ∈ ofList ws ↔ v ∈ ws := by
  simp [ofList, empty, mem_def (s := ⟨[], _⟩)]

/-- A set is determined by its members. -/
theorem ext {s t : WordSet} (h : ∀ w, w ∈ s ↔ w ∈ t) : s = t := by
  cases s with
  | mk xs hx =>
    cases t with
    | mk ys hy =>
      have : xs = ys := eq_of_pairwise_of_mem_iff (fun _ _ => Before.asymm) hx hy h
      subst this
      rfl

/-- Lists with the same words give the same set. -/
theorem ofList_congr {xs ys : List String} (h : ∀ w, w ∈ xs ↔ w ∈ ys) : ofList xs = ofList ys :=
  ext fun w => by rw [mem_ofList, mem_ofList, h w]

end WordSet
end GrammarSync
