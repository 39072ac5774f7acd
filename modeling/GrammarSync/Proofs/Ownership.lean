/-
# Which words the keyword scopes own

A coverage report compares two things: the reserved words of a taxonomy, in
their order, and the words that the keyword groups of a table own. What the
report has to say about them is stated apart from how it is computed
(`Coverage.Exact`): which words are gaps, orphans and duplicates, and in which
order they stand. This leaves no choice: there is one exact report
(`Coverage.Exact.eq`), and it is the one that is computed
(`Coverage.exact_verify`). An exact report is clean when the keyword groups
share out the reserved words, each to one group and nothing besides
(`Coverage.Exact.isClean_iff`). Only the keyword rules of the table and the
keyword categories of the taxonomy count (`keywordGroups_congr`).

Key definitions: `ScopeGroup.Owns`, `Coverage.Exact`,
`ScopeTable.keywordRules`.
Key theorems: `pairwise_firstOccurrences`, `Coverage.Exact.eq`,
`Coverage.exact_verify`, `Coverage.Exact.isClean_iff`,
`keywordGroups_congr`, `coverage_is_exact`.
-/
import GrammarSync.Proofs.Categories
import GrammarSync.Sync.Coverage
import Mathlib.Data.List.Basic

namespace GrammarSync

open Words

/-! ### The order of first occurrences -/

/-- Without its repetitions a list is in the order of its first occurrences. -/
theorem pairwise_firstOccurrences : ∀ ws : List String,
    (firstOccurrences ws).Pairwise fun a b => ws.idxOf a < ws.idxOf b
  | [] => List.Pairwise.nil
  | w :: ws => by
    have hother : ∀ v ∈ (firstOccurrences ws).filter (· ≠ w), w ≠ v := by
      intro v hv
      exact Ne.symm (of_decide_eq_true (List.mem_filter.mp hv).2)
    rw [firstOccurrences, List.pairwise_cons]
    constructor
    · intro v hv
      rw [List.idxOf_cons_self, List.idxOf_cons_ne _ (hother v hv)]
      exact Nat.succ_pos _
    · apply ((pairwise_firstOccurrences ws).filter _).imp_of_mem
      intro a b ha hb hab
      rw [List.idxOf_cons_ne _ (hother a ha), List.idxOf_cons_ne _ (hother b hb)]
      exact Nat.succ_lt_succ hab

theorem firstOccurrences_filter (p : String → Bool) : ∀ ws : List String,
    firstOccurrences (ws.filter p) = (firstOccurrences ws).filter p
  | [] => rfl
  | w :: ws => by
    have ih := firstOccurrences_filter p ws
    by_cases hw : p w = true
    · rw [List.filter_cons_of_pos hw, firstOccurrences, firstOccurrences,
        List.filter_cons_of_pos hw, ih, List.filter_filter, List.filter_filter]
      simp only [Bool.and_comm]
    · -- what passes the test is not the word that fails it
      have hne : ∀ v, (p v && decide (v ≠ w)) = p v := by
        intro v
        by_cases hv : v = w <;> simp [hv, hw]
      rw [List.filter_cons_of_neg hw, firstOccurrences, List.filter_cons_of_neg hw, ih,
        List.filter_filter]
      simp only [hne]

/-! ### Owners -/

/-- A keyword group owns its words. -/
def ScopeGroup.Owns (g : ScopeGroup) (word : String) : Prop :=
  g.role = .keyword ∧ word ∈ g.keywords

instance (g : ScopeGroup) (word : String) : Decidable (g.Owns word) :=
  inferInstanceAs (Decidable (_ ∧ _))

variable {groups : List ScopeGroup}

theorem mem_ownedWords {word : String} :
    word ∈ ownedWords groups ↔ ∃ g ∈ groups, g.Owns word := by
  unfold ownedWords ScopeGroup.withRole ScopeGroup.Owns
  simp only [WordSet.mem_ofList, List.mem_flatMap, List.mem_filter, decide_eq_true_eq, and_assoc]
  rfl

theorem owners_eq (groups : List ScopeGroup) (word : String) :
    owners groups word = (groups.filter (·.Owns word)).map (·.scope) := by
  have howns : ∀ g : ScopeGroup,
      (decide (word ∈ g.keywords) && decide (g.role = .keyword)) = decide (g.Owns word) := by
    intro g
    rw [Bool.eq_iff_iff]
    simp only [Bool.and_eq_true, decide_eq_true_eq]
    exact and_comm
  unfold owners ScopeGroup.withRole
  rw [List.filter_filter]
  simp only [howns]

theorem length_owners (groups : List ScopeGroup) (word : String) :
    (owners groups word).length = groups.countP (·.Owns word) := by
  rw [owners_eq, List.length_map, List.countP_eq_length_filter]

theorem countP_owns_pos {word : String} :
    0 < groups.countP (·.Owns word) ↔ ∃ g ∈ groups, g.Owns word := by
  simp only [List.countP_pos_iff, decide_eq_true_eq]

/-! ### Exact reports -/

namespace Coverage

/-- What a report on reserved words and groups has to say. -/
structure Exact (reserved : List String) (groups : List ScopeGroup) (c : Coverage) : Prop where
  /-- The gaps are the reserved words without an owner. -/
  mem_gaps : ∀ word, word ∈ c.gaps ↔ word ∈ reserved ∧ ∀ g ∈ groups, ¬ g.Owns word
  /-- They stand in the order in which they first occur, so each stands once. -/
  gaps_in_order : c.gaps.Pairwise fun a b => reserved.idxOf a < reserved.idxOf b
  /-- The orphans are the owned words that are not reserved. -/
  mem_orphans : ∀ word, word ∈ c.orphans ↔ word ∉ reserved ∧ ∃ g ∈ groups, g.Owns word
  orphans_increasing : c.orphans.Pairwise Before
  /-- The duplicates are the words of two or more groups, with the scopes of these groups. -/
  mem_duplicates : ∀ dup, dup ∈ c.duplicates ↔
    dup.scopes = (groups.filter (·.Owns dup.word)).map (·.scope) ∧
      2 ≤ groups.countP (·.Owns dup.word)
  /-- A word stands in one duplicate at most. -/
  duplicates_increasing : (c.duplicates.map (·.word)).Pairwise Before

theorem gaps_verify (taxonomy : Taxonomy) (groups : List ScopeGroup) :
    (verify taxonomy groups).gaps =
      (firstOccurrences taxonomy.allKeywords).filter (· ∉ ownedWords groups) :=
  firstOccurrences_filter _ _

theorem mem_gaps {taxonomy : Taxonomy} {word : String} :
    word ∈ (verify taxonomy groups).gaps ↔
      word ∈ taxonomy.allKeywords ∧ word ∉ ownedWords groups := by
  simp [verify]

theorem mem_orphans {taxonomy : Taxonomy} {word : String} :
    word ∈ (verify taxonomy groups).orphans ↔
      word ∉ taxonomy.allKeywords ∧ word ∈ ownedWords groups := by
  simp [verify, WordSet.mem_def, and_comm]

theorem mem_duplicates {taxonomy : Taxonomy} {dup : Duplicate} :
    dup ∈ (verify taxonomy groups).duplicates ↔
      dup.scopes = owners groups dup.word ∧ 2 ≤ groups.countP (·.Owns dup.word) := by
  simp only [verify, List.mem_filter, List.mem_map, decide_eq_true_eq]
  constructor
  · rintro ⟨⟨word, -, rfl⟩, hlength⟩
    rw [length_owners] at hlength
    exact ⟨rfl, hlength⟩
  · rintro ⟨hscopes, hcount⟩
    have howned : dup.word ∈ ownedWords groups := by
      apply mem_ownedWords.mpr
      exact countP_owns_pos.mp (by omega)
    refine ⟨⟨dup.word, howned, ?_⟩, ?_⟩
    · rw [← hscopes]
    · rw [hscopes, length_owners]
      omega

/-- The report that is computed is exact. -/
theorem exact_verify (taxonomy : Taxonomy) (groups : List ScopeGroup) :
    Exact taxonomy.allKeywords groups (verify taxonomy groups) where
  mem_gaps word := by
    rw [mem_gaps, mem_ownedWords]
    simp
  gaps_in_order := by
    rw [gaps_verify]
    exact (pairwise_firstOccurrences _).filter _
  mem_orphans word := by rw [mem_orphans, mem_ownedWords]
  orphans_increasing := (ownedWords groups).increasing.filter _
  mem_duplicates dup := by rw [mem_duplicates, owners_eq]
  duplicates_increasing := by
    have hwords : ((ownedWords groups).toList.map fun w =>
        (⟨w, owners groups w⟩ : Duplicate)).Pairwise fun a b => Before a.word b.word :=
      List.pairwise_map.mpr (ownedWords groups).increasing
    apply List.pairwise_map.mpr
    exact hwords.filter _

namespace Exact

variable {reserved : List String} {b c : Coverage}

/-- There is one exact report only. -/
theorem eq (hb : Exact reserved groups b) (hc : Exact reserved groups c) : b = c := by
  have hgaps : b.gaps = c.gaps := by
    apply eq_of_pairwise_of_mem_iff (fun _ _ => Nat.lt_asymm) hb.gaps_in_order hc.gaps_in_order
    intro word
    rw [hb.mem_gaps, hc.mem_gaps]
  have horphans : b.orphans = c.orphans := by
    apply eq_of_pairwise_of_mem_iff (fun _ _ => Before.asymm) hb.orphans_increasing
      hc.orphans_increasing
    intro word
    rw [hb.mem_orphans, hc.mem_orphans]
  have hduplicates : b.duplicates = c.duplicates := by
    have hbwords := List.pairwise_map.mp hb.duplicates_increasing
    have hcwords := List.pairwise_map.mp hc.duplicates_increasing
    apply eq_of_pairwise_of_mem_iff (fun _ _ => Before.asymm) hbwords hcwords
    intro dup
    rw [hb.mem_duplicates, hc.mem_duplicates]
  cases b
  cases c
  simp only [Coverage.mk.injEq]
  exact ⟨hgaps, horphans, hduplicates⟩

theorem gaps_eq_nil_iff (h : Exact reserved groups c) :
    c.gaps = [] ↔ ∀ word ∈ reserved, 0 < groups.countP (·.Owns word) := by
  simp only [List.eq_nil_iff_forall_not_mem, h.mem_gaps, countP_owns_pos]
  simp

theorem orphans_eq_nil_iff (h : Exact reserved groups c) :
    c.orphans = [] ↔ ∀ g ∈ groups, ∀ word, g.Owns word → word ∈ reserved := by
  simp only [List.eq_nil_iff_forall_not_mem, h.mem_orphans]
  constructor
  · intro hnone g hg word howns
    by_contra hword
    exact hnone word ⟨hword, g, hg, howns⟩
  · rintro hall word ⟨hword, g, hg, howns⟩
    exact hword (hall g hg word howns)

theorem duplicates_eq_nil_iff (h : Exact reserved groups c) :
    c.duplicates = [] ↔ ∀ word, groups.countP (·.Owns word) ≤ 1 := by
  simp only [List.eq_nil_iff_forall_not_mem, h.mem_duplicates]
  constructor
  · intro hnone word
    by_contra hcount
    have hword := hnone ⟨word, (groups.filter (·.Owns word)).map (·.scope)⟩
    exact hword ⟨rfl, Nat.lt_of_not_le hcount⟩
  · rintro hall dup ⟨-, hcount⟩
    have := hall dup.word
    omega

/-- Nothing is wrong if the keyword groups share out the reserved words. -/
theorem isClean_iff (h : Exact reserved groups c) : c.isClean ↔
    (∀ word ∈ reserved, groups.countP (·.Owns word) = 1) ∧
      ∀ g ∈ groups, ∀ word, g.Owns word → word ∈ reserved := by
  have hclean : c.isClean ↔ (c.gaps = [] ∧ c.orphans = []) ∧ c.duplicates = [] := by
    simp [isClean]
  rw [hclean, h.gaps_eq_nil_iff, h.orphans_eq_nil_iff, h.duplicates_eq_nil_iff]
  constructor
  · rintro ⟨⟨howned, hreserved⟩, honce⟩
    refine ⟨fun word hword => ?_, hreserved⟩
    have hpos := howned word hword
    have hle := honce word
    omega
  · rintro ⟨hone, hreserved⟩
    refine ⟨⟨fun word hword => ?_, hreserved⟩, fun word => ?_⟩
    · have := hone word hword
      omega
    · -- a word with an owner is reserved, and another has no owner
      rcases Nat.eq_zero_or_pos (groups.countP (·.Owns word)) with hzero | hpos
      · omega
      · obtain ⟨g, hg, howns⟩ := countP_owns_pos.mp hpos
        have := hone word (hreserved g hg word howns)
        omega

end Exact
end Coverage

/-! ### Rules and categories that do not count -/

/-- The keyword rules of a table, in order. -/
def ScopeTable.keywordRules (t : ScopeTable) : List Rule :=
  t.rules.filter (·.role = .keyword)

/-- The keyword groups are those of the keyword rules. -/
theorem withRole_groups (t : ScopeTable) (taxonomy : Taxonomy) :
    ScopeGroup.withRole (t.groups taxonomy) .keyword =
      t.keywordRules.map (·.group taxonomy) := by
  rw [ScopeGroup.withRole, ScopeTable.groups, List.filter_map]
  rfl

theorem keywordGroups_congr {t u : ScopeTable} {a b : Taxonomy}
    (hrules : t.keywordRules = u.keywordRules) (hkeywords : a.keywords = b.keywords) :
    ScopeGroup.withRole (t.groups a) .keyword = ScopeGroup.withRole (u.groups b) .keyword := by
  rw [withRole_groups, withRole_groups, hrules]
  apply List.map_congr_left
  intro r hr
  have hrole : r.role = .keyword := by simpa using (List.mem_filter.mp hr).2
  apply Rule.group_congr
  rw [hrole]
  exact ⟨congrArg WordMap.entries hkeywords, nofun⟩

/-- The report sees the reserved words and the keyword groups only. -/
theorem Coverage.verify_congr {a b : Taxonomy} {groups others : List ScopeGroup}
    (hreserved : a.allKeywords = b.allKeywords)
    (hgroups : ScopeGroup.withRole groups .keyword = ScopeGroup.withRole others .keyword) :
    verify a groups = verify b others := by
  have howned : ownedWords groups = ownedWords others := by
    rw [ownedWords, ownedWords, hgroups]
  have howners : owners groups = owners others := by
    funext word
    rw [owners, owners, hgroups]
  unfold verify
  rw [hreserved, howned, howners]

/-- **Coverage is exact.** Of all reports the computed one, and no other, lists the gaps, orphans and
duplicates of a table's groups in their orders. It is clean just if every reserved word has one owner
and every owned word is reserved. Rules of other roles and the parts of the taxonomy that these read
make no difference to it. -/
theorem coverage_is_exact (t : ScopeTable) (taxonomy : Taxonomy) :
    (∀ c : Coverage, c.Exact taxonomy.allKeywords (t.groups taxonomy) ↔
      c = Coverage.verify taxonomy (t.groups taxonomy)) ∧
    ((Coverage.verify taxonomy (t.groups taxonomy)).isClean ↔
      (∀ word ∈ taxonomy.allKeywords, (t.groups taxonomy).countP (·.Owns word) = 1) ∧
        ∀ g ∈ t.groups taxonomy, ∀ word, g.Owns word → word ∈ taxonomy.allKeywords) ∧
    ∀ (u : ScopeTable) (other : Taxonomy), u.keywordRules = t.keywordRules →
      other.keywords = taxonomy.keywords → other.allKeywords = taxonomy.allKeywords →
      Coverage.verify other (u.groups other) = Coverage.verify taxonomy (t.groups taxonomy) := by
  have hexact := Coverage.exact_verify taxonomy (t.groups taxonomy)
  refine ⟨fun c => ?_, hexact.isClean_iff, ?_⟩
  · constructor
    · intro hc
      exact hc.eq hexact
    · rintro rfl
      exact hexact
  · intro u other hrules hkeywords hreserved
    exact Coverage.verify_congr hreserved (keywordGroups_congr hrules hkeywords)

/-- Three keyword rules, two of which share a word, around a type rule. -/
def overlapTable : ScopeTable where
  rules := [⟨"keyword.control", .keyword, ["control"], ["await"], [], none⟩,
    ⟨"storage.type", .typeName, ["integer"], ["loop"], [], none⟩,
    ⟨"keyword.declaration", .keyword, ["declarations", "control"], [], [], none⟩,
    ⟨"keyword.wire", .keyword, [], ["wire", "let"], [], none⟩]
  routes := []

/-- Two reserved words without an owner, one of them twice. -/
def overlapVocabulary : Taxonomy where
  version := .integer 1
  keywords := ⟨[("control", ["if"]), ("declarations", ["let"])], by decide⟩
  types := ⟨[("integer", ["i32"])], List.pairwise_singleton _ _⟩
  contextual := ⟨[], .nil⟩
  allKeywords := ["while", "if", "loop", "let", "while"]

/-- The gaps stand in taxonomy order, the orphans and the duplicates in increasing order; neither the
type rule nor its category counts. -/
theorem overlapTable_covered :
    Coverage.Exact overlapVocabulary.allKeywords (overlapTable.groups overlapVocabulary)
      ⟨["while", "loop"], ["await", "wire"],
        [⟨"if", ["keyword.control", "keyword.declaration"]⟩,
          ⟨"let", ["keyword.declaration", "keyword.wire"]⟩]⟩ ∧
    Coverage.verify { overlapVocabulary with types := ⟨[], .nil⟩ }
        (ScopeTable.groups ⟨overlapTable.keywordRules, []⟩
          { overlapVocabulary with types := ⟨[], .nil⟩ }) =
      Coverage.verify overlapVocabulary (overlapTable.groups overlapVocabulary) := by
  obtain ⟨hexact, -, hsame⟩ := coverage_is_exact overlapTable overlapVocabulary
  constructor
  · rw [hexact]
    decide +kernel
  · apply hsame
    · rfl
    · rfl
    · rfl

end GrammarSync
