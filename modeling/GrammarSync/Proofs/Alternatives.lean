/-
# The words of an alternation can be read back

The regular expression of a word set lists the words in increasing order with
bars between them. If no word is empty or has a bar in it, cutting the list at
its bars gives the words again (`alternatives_intercalate`), so that the
expression stands for the set: equal sets have one expression, whatever the
order and the repetitions in which their words came, and no two sets share
one (`WordSet.alternation_eq_iff`). Patterns are therefore rewritten just when
the words of their scope have changed.

An empty list of words and the list of the empty word have the same
expression, as have `a|b` and the two words `a` and `b`.

Key definitions: `Words.Plain`, `alternatives`.
Key theorems: `Text.pieces_intercalate`, `alternatives_intercalate`,
`WordSet.alternation_eq_iff`, `alternation_is_canonical`.
-/
import GrammarSync.Proofs.Pointer
import GrammarSync.Sync.Refresh
import GrammarSync.Words.Alternation

namespace GrammarSync

open Words

/-- Cutting at a separator undoes joining with it. -/
theorem Text.pieces_intercalate {sep : Char} {xs : List (List Char)} (hne : xs ≠ [])
    (h : ∀ x ∈ xs, sep ∉ x) : pieces sep ([sep].intercalate xs) = xs := by
  induction xs with
  | nil => exact absurd rfl hne
  | cons x rest ih =>
    have hx : sep ∉ x := h x List.mem_cons_self
    cases rest with
    | nil => rw [List.intercalate_singleton, pieces_of_not_mem hx]
    | cons y rest =>
      have hrest : pieces sep ([sep].intercalate (y :: rest)) = y :: rest :=
        ih (List.cons_ne_nil y rest) fun z hz => h z (List.mem_cons_of_mem x hz)
      rw [List.intercalate_cons_cons, List.append_assoc, List.singleton_append, pieces_append hx,
        hrest]

/-- A word that can stand in an alternation: it is not empty and has no bar. -/
def Words.Plain (w : String) : Prop :=
  w ≠ "" ∧ '|' ∉ w.toList

instance (w : String) : Decidable (Plain w) :=
  inferInstanceAs (Decidable (_ ∧ _))

/-- The alternatives between the parentheses of an alternation: the pieces between its bars, and
none if nothing stands there. -/
def alternatives (body : String) : List String :=
  if body = "" then [] else (Text.pieces '|' body.toList).map String.ofList

/-- Plain words that are joined with bars are the alternatives again. -/
theorem alternatives_intercalate {ws : List String} (h : ∀ w ∈ ws, Plain w) :
    alternatives ("|".intercalate ws) = ws := by
  cases ws with
  | nil => rfl
  | cons w rest =>
    have hbody : "|".intercalate (w :: rest) ≠ "" := by
      intro hempty
      have hw : w ≠ "" := (h w List.mem_cons_self).1
      cases rest with
      | nil => exact hw (by simpa using hempty)
      | cons v rest =>
        rw [String.intercalate_cons_cons, String.append_eq_empty_iff,
          String.append_eq_empty_iff] at hempty
        exact hw hempty.1.1
    have hpieces : Text.pieces '|' ("|".intercalate (w :: rest)).toList =
        (w :: rest).map String.toList := by
      rw [String.toList_intercalate]
      apply Text.pieces_intercalate
      · exact List.cons_ne_nil _ _
      · intro x hx
        obtain ⟨v, hv, rfl⟩ := List.mem_map.mp hx
        exact (h v hv).2
    rw [alternatives, if_neg hbody, hpieces, Text.map_ofList_toList]

namespace WordSet

/-- What stands between the parentheses determines the expression, and the other way round. -/
theorem alternation_eq_iff_body {s : WordSet} {body : String} :
    s.alternation = "\\b(" ++ body ++ ")\\b" ↔ body = "|".intercalate s.toList := by
  rw [alternation, String.append_left_inj, String.append_right_inj]
  exact eq_comm

/-- Sets of plain words with one expression are one set. -/
theorem alternation_eq_iff {s t : WordSet} (hs : ∀ w ∈ s, Plain w) (ht : ∀ w ∈ t, Plain w) :
    s.alternation = t.alternation ↔ s = t := by
  constructor
  · intro h
    have hbody := alternation_eq_iff_body.mp h
    have hlists : s.toList = t.toList := by
      rw [← alternatives_intercalate hs, ← hbody, alternatives_intercalate ht]
    apply WordSet.ext
    intro w
    rw [mem_def, mem_def, hlists]
  · rintro rfl
    rfl

end WordSet
/-- **An alternation is a code of its words.** Lists with the same words have one alternation,
whatever their order and repetitions. What stands between the parentheses of an alternation of plain
words, cut at its bars, is the strictly increasing list of the words. So lists of plain words have
one alternation only if they have the same words. -/
theorem alternation_is_canonical :
    (∀ xs ys : List String, (∀ w, w ∈ xs ↔ w ∈ ys) → wordAlternation xs = wordAlternation ys) ∧
    (∀ ws : List String, (∀ w ∈ ws, Plain w) →
      ∃ body, wordAlternation ws = "\\b(" ++ body ++ ")\\b" ∧
        (alternatives body).Pairwise Before ∧ ∀ w, w ∈ alternatives body ↔ w ∈ ws) ∧
    ∀ xs ys : List String, (∀ w ∈ xs, Plain w) → (∀ w ∈ ys, Plain w) →
      wordAlternation xs = wordAlternation ys → ∀ w, w ∈ xs ↔ w ∈ ys := by
  have hplain : ∀ ws : List String, (∀ w ∈ ws, Plain w) → ∀ w ∈ WordSet.ofList ws, Plain w := by
    intro ws h w hw
    exact h w (WordSet.mem_ofList.mp hw)
  refine ⟨?_, ?_, ?_⟩
  · intro xs ys h
    rw [wordAlternation, WordSet.ofList_congr h, wordAlternation]
  · intro ws h
    refine ⟨_, WordSet.alternation_eq_iff_body.mpr rfl, ?_⟩
    rw [alternatives_intercalate (hplain ws h)]
    exact ⟨(WordSet.ofList ws).increasing, fun w => WordSet.mem_ofList⟩
  · intro xs ys hx hy h w
    have hsets : WordSet.ofList xs = WordSet.ofList ys :=
      (WordSet.alternation_eq_iff (hplain xs hx) (hplain ys hy)).mp h
    rw [← WordSet.mem_ofList, hsets, WordSet.mem_ofList]

/-- Without the condition on the words the code is ambiguous. -/
example : wordAlternation [""] = wordAlternation [] ∧
    wordAlternation ["a|b"] = wordAlternation ["b", "a"] := by
  decide

/-- Words in any order, one of them twice: the alternation is that of the words in increasing order,
and not that of one word less. -/
theorem scatteredWords_alternation :
    wordAlternation ["😀", "ok", "größe", "ok"] = wordAlternation ["größe", "ok", "😀"] ∧
    (∃ body, wordAlternation ["😀", "ok", "größe", "ok"] = "\\b(" ++ body ++ ")\\b" ∧
      alternatives body = ["größe", "ok", "😀"]) ∧
    wordAlternation ["😀", "ok", "größe", "ok"] ≠ wordAlternation ["ok", "größe"] := by
  obtain ⟨hsame, hcode, honly⟩ := alternation_is_canonical
  have hplain : ∀ w ∈ ["😀", "ok", "größe", "ok"], Plain w := by decide
  have hwords : ∀ w, w ∈ ["😀", "ok", "größe", "ok"] ↔ w ∈ ["größe", "ok", "😀"] := by
    intro w
    simp only [List.mem_cons, List.not_mem_nil]
    tauto
  refine ⟨hsame _ _ hwords, ?_, ?_⟩
  · obtain ⟨body, hbody, hincreasing, hmem⟩ := hcode _ hplain
    refine ⟨body, hbody, ?_⟩
    apply eq_of_pairwise_of_mem_iff (fun _ _ => Before.asymm) hincreasing (by decide)
    intro w
    rw [hmem, hwords]
  · intro h
    have hless : ∀ w ∈ ["ok", "größe"], Plain w := by decide
    have hface := (honly _ _ hplain hless h "😀").mp (by decide)
    exact absurd hface (by decide)

/-- A managed pattern that was written for plain words is rewritten just if the words of its scope
are not the same. -/
theorem refreshChange?_eq_none_iff {groups : List ScopeGroup} {g : ScopeGroup} {path : String}
    {n : Node} {ws : List String} (hmanaged : managing? groups n = some g)
    (hregex : n.regex = some (wordAlternation ws)) (hws : ∀ w ∈ ws, Plain w)
    (hg : ∀ w ∈ g.keywords, Plain w) :
    refreshChange? groups path n = none ↔ ∀ w, w ∈ ws ↔ w ∈ g.keywords := by
  have hplain : ∀ w ∈ WordSet.ofList ws, Plain w := fun w hw => hws w (WordSet.mem_ofList.mp hw)
  have hsame : refreshChange? groups path n = none ↔ WordSet.ofList ws = g.keywords := by
    have hchange : refreshChange? groups path n = if wordAlternation ws = g.regex then none
        else some (.updated g.scope path (wordAlternation ws) g.regex) := by
      simp only [refreshChange?, hmanaged, hregex]
    rw [← WordSet.alternation_eq_iff hplain hg, hchange]
    by_cases heq : wordAlternation ws = g.regex
    · exact iff_of_true (if_pos heq) heq
    · rw [if_neg heq]
      exact iff_of_false nofun heq
  rw [hsame]
  constructor
  · intro h w
    rw [← h, WordSet.mem_ofList]
  · intro h
    apply WordSet.ext
    intro w
    rw [WordSet.mem_ofList, h w]

end GrammarSync
