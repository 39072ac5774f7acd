/-
# The order of words

Words are sorted by their bytes in UTF-8, the first difference deciding and a
proper beginning coming first. The order is strict and total
(`Before.irrefl`, `Before.trans`, `before_or_eq_or_before`), so a sorted list
of distinct words is determined by the words in it, as a list in any strict
order is by its members (`eq_of_pairwise_of_mem_iff`).

Key definitions: `bytes`, `Before`.
Key theorems: `bytes_injective`, `Before.asymm`, `Before.trans`,
`before_or_eq_or_before`, `eq_of_pairwise_of_mem_iff`.
-/

namespace GrammarSync
namespace Words

/-- The bytes of a word in UTF-8. -/
def bytes (w : String) : List UInt8 :=
  w.toUTF8.data.toList

/-- `a` is sorted before `b`: its bytes come first in lexicographic order. -/
def Before (a b : String) : Prop :=
  bytes a < bytes b

instance (a b : String) : Decidable (Before a b) :=
  inferInstanceAs (Decidable (bytes a < bytes b))

theorem bytes_injective {a b : String} (h : bytes a = bytes b) : a = b := by
  apply String.toByteArray_inj.mp
  unfold bytes at h
  exact ByteArray.ext (Array.toList_inj.mp h)

theorem Before.irrefl (a : String) : ¬ Before a a :=
  List.lt_irrefl (bytes a)

theorem Before.trans {a b c : String} (h : Before a b) (k : Before b c) : Before a c :=
  List.lt_trans h k

theorem Before.asymm {a b : String} (h : Before a b) : ¬ Before b a :=
  List.lt_asymm h

theorem Before.ne {a b : String} (h : Before a b) : a ≠ b :=
  fun e => Before.irrefl b (e ▸ h)

/-- Of two words one comes first, unless they are the same word. -/
theorem before_or_eq_or_before (a b : String) : Before a b ∨ a = b ∨ Before b a := by
  by_cases h : Before a b
  · exact .inl h
  · by_cases k : Before b a
    · exact .inr (.inr k)
    · exact .inr (.inl (bytes_injective (List.le_antisymm (List.not_lt.mp k) (List.not_lt.mp h))))

/-- Two lists in one asymmetric order with the same members are the same list. -/
theorem eq_of_pairwise_of_mem_iff {α : Type} {before : α → α → Prop}
    (hasymm : ∀ a b, before a b → ¬ before b a) {xs ys : List α} (hxs : xs.Pairwise before)
    (hys : ys.Pairwise before) (h : ∀ a, a ∈ xs ↔ a ∈ ys) : xs = ys := by
  have hne : ∀ {a b : α}, before a b → a ≠ b := by
    rintro a b hab rfl
    exact hasymm a a hab hab
  have hperm : xs.Perm ys :=
    (List.perm_ext_iff_of_nodup (hxs.imp hne) (hys.imp hne)).mpr h
  apply List.Perm.eq_of_pairwise _ hxs hys hperm
  intro a b _ _ hab hba
  exact absurd hba (hasymm a b hab)

end Words
end GrammarSync
