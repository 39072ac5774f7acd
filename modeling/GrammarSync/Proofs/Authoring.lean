/-
# How a taxonomy is written

Of a taxonomy a run sees sets of words only, and of them those that the table
asks for: the members of the categories that a rule names, in the part of the
taxonomy that the rule's role reads, the contextual names, and the reserved
words. Two taxonomies that agree on these sets (`Taxonomy.AgreesOn`) give the
same groups (`groups_congr`), so they give the same grammar, log and skipped
scopes, and the same coverage but for the order of the gaps, which is that of
the list of reserved words.

Key definitions: `Taxonomy.AgreesOn`.
Key theorems: `mem_words_congr`, `groups_congr`, `perm_gaps`,
`authoring_leaves_no_trace`.
-/
import GrammarSync.Proofs.Ownership
import GrammarSync.Proofs.Run
import Mathlib.Data.List.Basic

namespace GrammarSync

/-- Two taxonomies have the same words where a table looks. A category that is not declared counts
as empty. -/
structure Taxonomy.AgreesOn (t : ScopeTable) (a b : Taxonomy) : Prop where
  keywords : ∀ r ∈ t.rules, r.role = .keyword → ∀ category ∈ r.categories, ∀ word,
    word ∈ (a.keywordCategory? category).getD [] ↔ word ∈ (b.keywordCategory? category).getD []
  types : ∀ r ∈ t.rules, r.role = .typeName → ∀ category ∈ r.categories, ∀ word,
    word ∈ (a.typeCategory? category).getD [] ↔ word ∈ (b.typeCategory? category).getD []
  contextual : ∀ name, name ∈ a.contextualNames ↔ name ∈ b.contextualNames
  reserved : ∀ word, word ∈ a.allKeywords ↔ word ∈ b.allKeywords

variable {t : ScopeTable} {a b : Taxonomy}

/-! ### Groups -/

/-- A rule takes the same words from taxonomies that agree. -/
theorem mem_words_congr (h : Taxonomy.AgreesOn t a b) {r : Rule} (hr : r ∈ t.rules)
    (word : String) : word ∈ r.words a ↔ word ∈ r.words b := by
  unfold Rule.words
  rw [List.mem_append, List.mem_append]
  refine or_congr_left ?_
  cases hrole : r.role with
  | keyword =>
    simp only [List.mem_flatMap]
    exact exists_congr fun category =>
      and_congr_right fun hc => h.keywords r hr hrole category hc word
  | typeName =>
    simp only [List.mem_flatMap]
    exact exists_congr fun category =>
      and_congr_right fun hc => h.types r hr hrole category hc word
  | contextual =>
    simp only [List.mem_filter]
    exact and_congr_left fun _ => h.contextual word

theorem group_congr (h : Taxonomy.AgreesOn t a b) {r : Rule} (hr : r ∈ t.rules) :
    r.group a = r.group b :=
  Rule.group_eq_of_mem_words (mem_words_congr h hr)

/-- Taxonomies that agree give the same groups. -/
theorem groups_congr (h : Taxonomy.AgreesOn t a b) : t.groups a = t.groups b :=
  List.map_congr_left fun _ hr => group_congr h hr

/-! ### Coverage -/

/-- The orphans are read off the groups and the set of reserved words. -/
theorem orphans_congr (h : Taxonomy.AgreesOn t a b) (groups : List ScopeGroup) :
    (Coverage.verify a groups).orphans = (Coverage.verify b groups).orphans :=
  List.filter_congr fun word _ => decide_eq_decide.mpr (not_congr (h.reserved word))

/-- The gaps are the same up to their order. -/
theorem perm_gaps (h : Taxonomy.AgreesOn t a b) (groups : List ScopeGroup) :
    (Coverage.verify a groups).gaps.Perm (Coverage.verify b groups).gaps := by
  have ha : (Coverage.verify a groups).gaps.Nodup := nodup_firstOccurrences _
  have hb : (Coverage.verify b groups).gaps.Nodup := nodup_firstOccurrences _
  rw [List.perm_ext_iff_of_nodup ha hb]
  intro word
  rw [Coverage.mem_gaps, Coverage.mem_gaps, h.reserved word]

/-! ### Runs -/

/-- **How a taxonomy is written leaves no trace.** Two taxonomies that have the same members in every
category that a rule names in its own part, the same contextual names and the same reserved words
give the same grammar, the same log, the same skipped scopes, orphans and duplicates, and the same
gaps up to their order. -/
theorem authoring_leaves_no_trace (h : Taxonomy.AgreesOn t a b) (d : Document) :
    (synchronize t a d).1 = (synchronize t b d).1 ∧
    (synchronize t a d).2.changes = (synchronize t b d).2.changes ∧
    (synchronize t a d).2.skipped = (synchronize t b d).2.skipped ∧
    (synchronize t a d).2.coverage.orphans = (synchronize t b d).2.coverage.orphans ∧
    (synchronize t a d).2.coverage.duplicates = (synchronize t b d).2.coverage.duplicates ∧
    (synchronize t a d).2.coverage.gaps.Perm (synchronize t b d).2.coverage.gaps := by
  have hgroups := groups_congr h
  unfold synchronize
  rw [hgroups]
  exact ⟨rfl, rfl, rfl, orphans_congr h _, rfl, perm_gaps h _⟩

/-! ### Two spellings of one vocabulary -/

/-- A category of one name in two parts, and contextual names. -/
def spellingTable : ScopeTable where
  rules := [⟨"keyword.other", .keyword, ["other", "absent"], [], [], none⟩,
    ⟨"storage.other", .typeName, ["other"], [], [], none⟩,
    ⟨"variable.context", .contextual, [], [], ["self"], none⟩]
  routes := [⟨"keyword", "keywords", none⟩]

def plainVocabulary : Taxonomy where
  version := .text "1"
  keywords := ⟨[("other", ["if", "else"])], by decide⟩
  types := ⟨[("other", ["Box"])], by decide⟩
  contextual := ⟨[("ready", .note "in select")], by decide⟩
  allKeywords := ["wire", "if", "move"]

/-- Another version and description, words in another order and repeated, an empty category that the
other vocabulary does not declare, and a category that no rule names. -/
def ornateVocabulary : Taxonomy where
  version := .integer 2
  keywords := ⟨[("absent", []), ("other", ["else", "if", "else"]), ("unused", ["Box"])], by decide⟩
  types := ⟨[("other", ["Box", "Box"])], by decide⟩
  contextual := ⟨[("ready", .detailed none)], by decide⟩
  allKeywords := ["if", "move", "wire", "move"]

theorem vocabularies_agree : plainVocabulary.AgreesOn spellingTable ornateVocabulary where
  keywords := by
    intro r hr hrole category hc word
    simp only [spellingTable, List.mem_cons, List.not_mem_nil, or_false] at hr
    rcases hr with rfl | rfl | rfl
    · simp only [List.mem_cons, List.not_mem_nil, or_false] at hc
      rcases hc with rfl | rfl
      · show word ∈ ["if", "else"] ↔ word ∈ ["else", "if", "else"]
        simp
        tauto
      · exact Iff.rfl
    · cases hrole
    · cases hrole
  types := by
    intro r hr hrole category hc word
    simp only [spellingTable, List.mem_cons, List.not_mem_nil, or_false] at hr
    rcases hr with rfl | rfl | rfl
    · cases hrole
    · obtain rfl : category = "other" := List.mem_singleton.mp hc
      show word ∈ ["Box"] ↔ word ∈ ["Box", "Box"]
      simp
    · cases hrole
  contextual := fun _ => Iff.rfl
  reserved := by
    intro word
    show word ∈ ["wire", "if", "move"] ↔ word ∈ ["if", "move", "wire", "move"]
    simp
    tauto

/-- The gaps stand in different orders. -/
theorem vocabularies_leave_no_trace :
    plainVocabulary.AgreesOn spellingTable ornateVocabulary ∧
    (synchronize spellingTable plainVocabulary Sample.document).1 =
      (synchronize spellingTable ornateVocabulary Sample.document).1 ∧
    (synchronize spellingTable plainVocabulary Sample.document).2.changes =
      (synchronize spellingTable ornateVocabulary Sample.document).2.changes ∧
    (synchronize spellingTable plainVocabulary Sample.document).2.coverage.gaps =
      ["wire", "move"] ∧
    (synchronize spellingTable ornateVocabulary Sample.document).2.coverage.gaps =
      ["move", "wire"] ∧
    ["wire", "move"].Perm ["move", "wire"] := by
  obtain ⟨hgrammar, hchanges, -, -, -, hgaps⟩ :=
    authoring_leaves_no_trace vocabularies_agree Sample.document
  have hplain : (synchronize spellingTable plainVocabulary Sample.document).2.coverage.gaps =
      ["wire", "move"] := by decide +kernel
  have hornate : (synchronize spellingTable ornateVocabulary Sample.document).2.coverage.gaps =
      ["move", "wire"] := by decide +kernel
  refine ⟨vocabularies_agree, hgrammar, hchanges, hplain, hornate, ?_⟩
  rw [hplain, hornate] at hgaps
  exact hgaps

end GrammarSync
