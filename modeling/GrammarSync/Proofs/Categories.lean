/-
# Categories, declared and read

A rule takes words from the part of a taxonomy that its role reads: keyword
rules from the reserved words, type rules from the names of types, contextual
rules from the contextual names (`mem_words_iff`). It sees nothing of the other
parts (`group_congr`), and a category that is not declared in its own part
gives it no words. Strict loading refuses such a taxonomy: it finds the first
category in rule order that is missing (`head?_missingCategories`), so from a
taxonomy that loads no category comes out empty for want of being declared
(`Rule.fed_group`).

Key definitions: `Taxonomy.part`, `Taxonomy.Declares`, `Rule.Takes`,
`Rule.Grouped`, `Rule.Fed`, `ScopeTable.FirstUndeclared`.
Key theorems: `mem_words_iff`, `Rule.grouped_group`, `Rule.group_congr`,
`head?_missingCategories`, `strict_loading_is_lossless`.
-/
import GrammarSync.Command.Load
import GrammarSync.Scope.Group
import Mathlib.Data.List.Forall2

namespace GrammarSync

open Words

/-! ### The part of a taxonomy that a role reads -/

namespace Taxonomy

/-- The categories that the rules of a role read, with their words. Contextual rules read none. -/
def part (taxonomy : Taxonomy) : Role → List (String × List String)
  | .keyword => taxonomy.keywords.entries
  | .typeName => taxonomy.types.entries
  | .contextual => []

/-- Whether a category is there for the rules of a role. Contextual rules ask for none. -/
def Declares (taxonomy : Taxonomy) (role : Role) (category : String) : Prop :=
  role = .contextual ∨ category ∈ Entries.keys (taxonomy.part role)

/-- Whether two taxonomies are the same in all that the rules of a role read. -/
def SamePart (role : Role) (a b : Taxonomy) : Prop :=
  a.part role = b.part role ∧ (role = .contextual → a.contextualNames = b.contextualNames)

theorem declares_iff {taxonomy : Taxonomy} {role : Role} {category : String} :
    ScopeTable.declares taxonomy role category = true ↔ taxonomy.Declares role category := by
  unfold ScopeTable.declares Declares
  cases role with
  | keyword =>
    rw [or_iff_right (by decide)]
    exact WordMap.isSome_get?
  | typeName =>
    rw [or_iff_right (by decide)]
    exact WordMap.isSome_get?
  | contextual => simp

/-- A declared category has its words. -/
theorem Declares.exists_words {taxonomy : Taxonomy} {role : Role} {category : String}
    (h : taxonomy.Declares role category) (hrole : role ≠ .contextual) :
    ∃ words, (category, words) ∈ taxonomy.part role := by
  rcases h with h | h
  · exact absurd h hrole
  · obtain ⟨e, he, rfl⟩ := List.mem_map.mp h
    exact ⟨e.2, he⟩

end Taxonomy

/-! ### The words of a rule -/

namespace Rule

/-- Whether a rule takes a word: from a category of its own part of the taxonomy, from the
contextual names that it does not exclude, or from its own additions. -/
def Takes (taxonomy : Taxonomy) (r : Rule) (word : String) : Prop :=
  (∃ category ∈ r.categories, ∃ words, (category, words) ∈ taxonomy.part r.role ∧ word ∈ words) ∨
    (r.role = .contextual ∧ word ∈ taxonomy.contextualNames ∧ word ∉ r.excluded) ∨
    word ∈ r.extras

/-- What a rule makes of a group: its scope and role, and its words in increasing order. -/
structure Grouped (taxonomy : Taxonomy) (r : Rule) (g : ScopeGroup) : Prop where
  scope : g.scope = r.scope
  role : g.role = r.role
  comment : g.comment = r.patternComment
  increasing : g.keywords.toList.Pairwise Before
  mem : ∀ word, word ∈ g.keywords ↔ r.Takes taxonomy word

/-- Every category that a rule reads is there, and the group has all its words. -/
def Fed (taxonomy : Taxonomy) (r : Rule) (g : ScopeGroup) : Prop :=
  r.role ≠ .contextual → ∀ category ∈ r.categories,
    ∃ words, (category, words) ∈ taxonomy.part r.role ∧ ∀ word ∈ words, word ∈ g.keywords

/-- The words found under a category are those of its entry. -/
theorem mem_getD_iff {categories : WordMap (List String)} {category word : String} :
    word ∈ (categories.get? category).getD [] ↔
      ∃ words, (category, words) ∈ categories.entries ∧ word ∈ words := by
  simp only [← WordMap.get?_eq_some_iff]
  cases categories.get? category with
  | none => simp
  | some words => simp

theorem mem_words_iff {taxonomy : Taxonomy} {r : Rule} {word : String} :
    word ∈ r.words taxonomy ↔ r.Takes taxonomy word := by
  unfold words Takes Taxonomy.keywordCategory? Taxonomy.typeCategory?
  cases hrole : r.role with
  | keyword => simp [mem_getD_iff, Taxonomy.part]
  | typeName => simp [mem_getD_iff, Taxonomy.part]
  | contextual => simp [Taxonomy.part]

theorem mem_group_iff {taxonomy : Taxonomy} {r : Rule} {word : String} :
    word ∈ (r.group taxonomy).keywords ↔ r.Takes taxonomy word := by
  rw [group, WordSet.mem_ofList, mem_words_iff]

theorem grouped_group (taxonomy : Taxonomy) (r : Rule) :
    r.Grouped taxonomy (r.group taxonomy) where
  scope := rfl
  role := rfl
  comment := rfl
  increasing := (r.group taxonomy).keywords.increasing
  mem _ := mem_group_iff

/-- From declared categories nothing is lost. -/
theorem fed_group {taxonomy : Taxonomy} {r : Rule}
    (h : ∀ category ∈ r.categories, taxonomy.Declares r.role category) :
    r.Fed taxonomy (r.group taxonomy) := by
  intro hrole category hc
  obtain ⟨words, hwords⟩ := (h category hc).exists_words hrole
  refine ⟨words, hwords, fun word hword => ?_⟩
  rw [mem_group_iff]
  exact .inl ⟨category, hc, words, hwords, hword⟩

/-- Taxonomies from which a rule takes the same words give it the same group. -/
theorem group_eq_of_mem_words {a b : Taxonomy} {r : Rule}
    (h : ∀ word, word ∈ r.words a ↔ word ∈ r.words b) : r.group a = r.group b := by
  rw [group, group, WordSet.ofList_congr h]

/-- A rule sees nothing of a taxonomy but the part that its role reads. -/
theorem group_congr {a b : Taxonomy} {r : Rule} (h : Taxonomy.SamePart r.role a b) :
    r.group a = r.group b := by
  apply group_eq_of_mem_words
  intro word
  rw [mem_words_iff, mem_words_iff, Takes, Takes, h.1]
  have hnames : r.role = .contextual ∧ word ∈ a.contextualNames ∧ word ∉ r.excluded ↔
      r.role = .contextual ∧ word ∈ b.contextualNames ∧ word ∉ r.excluded := by
    apply and_congr_right
    intro hrole
    rw [h.2 hrole]
  rw [hnames]

end Rule

/-- What holds of every rule and its group holds along the rules and the groups of a table. -/
theorem forall₂_groups {t : ScopeTable} {taxonomy : Taxonomy} {R : Rule → ScopeGroup → Prop}
    (h : ∀ r ∈ t.rules, R r (r.group taxonomy)) : List.Forall₂ R t.rules (t.groups taxonomy) := by
  rw [ScopeTable.groups, List.forall₂_map_right_iff, List.forall₂_same]
  exact h

/-! ### The first category that is missing -/

namespace ScopeTable

variable {t : ScopeTable} {taxonomy : Taxonomy}

/-- A category that is not declared for its rule, while all those before it are: of the rules before,
and of the same rule. -/
def FirstUndeclared (t : ScopeTable) (taxonomy : Taxonomy) (m : MissingCategory) : Prop :=
  ∃ before r after earlier later, t.rules = before ++ r :: after ∧
    r.categories = earlier ++ m.category :: later ∧ m.scope = r.scope ∧ m.role = r.role ∧
    (∀ q ∈ before, ∀ category ∈ q.categories, taxonomy.Declares q.role category) ∧
    (∀ category ∈ earlier, taxonomy.Declares r.role category) ∧
    ¬ taxonomy.Declares r.role m.category

/-- The first category of a rule that is missing. -/
def missing? (taxonomy : Taxonomy) (r : Rule) : Option MissingCategory :=
  (r.categories.find? fun c => !declares taxonomy r.role c).map fun c => ⟨r.scope, r.role, c⟩

theorem missing?_eq_none {r : Rule} : missing? taxonomy r = none ↔
    ∀ category ∈ r.categories, taxonomy.Declares r.role category := by
  simp [missing?, Taxonomy.declares_iff]

theorem missing?_eq_some {r : Rule} {m : MissingCategory} : missing? taxonomy r = some m ↔
    ∃ earlier later, r.categories = earlier ++ m.category :: later ∧ m.scope = r.scope ∧
      m.role = r.role ∧ (∀ category ∈ earlier, taxonomy.Declares r.role category) ∧
      ¬ taxonomy.Declares r.role m.category := by
  simp only [missing?, Option.map_eq_some_iff, List.find?_eq_some_iff_append, Bool.not_not,
    Bool.not_eq_true', ← Bool.not_eq_true, Taxonomy.declares_iff]
  constructor
  · rintro ⟨category, ⟨hmissing, earlier, later, hcategories, hearlier⟩, rfl⟩
    exact ⟨earlier, later, hcategories, rfl, rfl, hearlier, hmissing⟩
  · rintro ⟨earlier, later, hcategories, hscope, hrole, hearlier, hmissing⟩
    refine ⟨m.category, ⟨hmissing, earlier, later, hcategories, hearlier⟩, ?_⟩
    rw [← hscope, ← hrole]

theorem head?_missingCategories_eq (t : ScopeTable) (taxonomy : Taxonomy) :
    (t.missingCategories taxonomy).head? = t.rules.findSome? (missing? taxonomy) := by
  rw [missingCategories, List.head?_flatMap]
  congr 1
  funext r
  rw [List.head?_map, List.head?_filter]
  rfl

theorem missingCategories_eq_nil_iff : t.missingCategories taxonomy = [] ↔
    ∀ r ∈ t.rules, ∀ category ∈ r.categories, taxonomy.Declares r.role category := by
  rw [← List.head?_eq_none_iff, head?_missingCategories_eq, List.findSome?_eq_none_iff]
  simp only [missing?_eq_none]

/-- The category that is reported is the first one that is missing. -/
theorem head?_missingCategories {m : MissingCategory} :
    (t.missingCategories taxonomy).head? = some m ↔ t.FirstUndeclared taxonomy m := by
  rw [head?_missingCategories_eq, List.findSome?_eq_some_iff]
  simp only [missing?_eq_none, missing?_eq_some]
  constructor
  · rintro ⟨before, r, after, hrules, ⟨earlier, later, hcategories, hscope, hrole, hearlier,
      hmissing⟩, hbefore⟩
    exact ⟨before, r, after, earlier, later, hrules, hcategories, hscope, hrole, hbefore, hearlier,
      hmissing⟩
  · rintro ⟨before, r, after, earlier, later, hrules, hcategories, hscope, hrole, hbefore, hearlier,
      hmissing⟩
    exact ⟨before, r, after, hrules, ⟨earlier, later, hcategories, hscope, hrole, hearlier,
      hmissing⟩, hbefore⟩

end ScopeTable

/-! ### Strict loading -/

variable {text path : String} {t : ScopeTable} {taxonomy : Taxonomy}

/-- A text that reads as a taxonomy loads unless a category is missing. -/
theorem parseTaxonomy_of_read (h : Taxonomy.readTaxonomy text = .ok taxonomy) :
    parseTaxonomy text path t = match (t.missingCategories taxonomy).head? with
      | none => .ok taxonomy
      | some m => .error (.missingCategory path m) := by
  simp only [parseTaxonomy, h]
  cases t.missingCategories taxonomy with
  | nil => rfl
  | cons m others => rfl

theorem parseTaxonomy_eq_ok_iff (h : Taxonomy.readTaxonomy text = .ok taxonomy)
    {loaded : Taxonomy} : parseTaxonomy text path t = .ok loaded ↔ loaded = taxonomy ∧
      ∀ r ∈ t.rules, ∀ category ∈ r.categories, taxonomy.Declares r.role category := by
  rw [parseTaxonomy_of_read h, ← ScopeTable.missingCategories_eq_nil_iff,
    ← List.head?_eq_none_iff]
  cases (t.missingCategories taxonomy).head? with
  | none => simp [eq_comm]
  | some m => simp

theorem parseTaxonomy_eq_error_iff (h : Taxonomy.readTaxonomy text = .ok taxonomy)
    {fault : RunFault} : parseTaxonomy text path t = .error fault ↔
      ∃ m, t.FirstUndeclared taxonomy m ∧ fault = .missingCategory path m := by
  simp only [parseTaxonomy_of_read h, ← ScopeTable.head?_missingCategories]
  cases (t.missingCategories taxonomy).head? with
  | none => simp
  | some m => simp [eq_comm]

/-- **Strict loading is lossless.** A text that reads as a taxonomy loads as that taxonomy just if
every category of a rule is declared in the part that the rule's role reads; otherwise the fault is
the first category that is not. A table has one group for each rule, in rule order, with the words
that the rule takes. After a successful load every category that is read has come into its group, and
with any taxonomy a rule sees only the part that its role reads. -/
theorem strict_loading_is_lossless (t : ScopeTable) :
    (∀ text path taxonomy, Taxonomy.readTaxonomy text = .ok taxonomy →
      (∀ loaded, parseTaxonomy text path t = .ok loaded ↔ loaded = taxonomy ∧
        ∀ r ∈ t.rules, ∀ category ∈ r.categories, taxonomy.Declares r.role category) ∧
      (∀ fault, parseTaxonomy text path t = .error fault ↔
        ∃ m, t.FirstUndeclared taxonomy m ∧ fault = .missingCategory path m) ∧
      (∀ loaded, parseTaxonomy text path t = .ok loaded →
        List.Forall₂ (Rule.Fed loaded) t.rules (t.groups loaded))) ∧
    (∀ taxonomy, List.Forall₂ (Rule.Grouped taxonomy) t.rules (t.groups taxonomy)) ∧
    ∀ r ∈ t.rules, ∀ a b, Taxonomy.SamePart r.role a b → r.group a = r.group b := by
  refine ⟨?_, ?_, ?_⟩
  · intro text path taxonomy hread
    refine ⟨fun loaded => parseTaxonomy_eq_ok_iff hread,
      fun fault => parseTaxonomy_eq_error_iff hread, ?_⟩
    intro loaded hload
    obtain ⟨rfl, hdeclared⟩ := (parseTaxonomy_eq_ok_iff hread).mp hload
    exact forall₂_groups fun r hr => Rule.fed_group (hdeclared r hr)
  · intro taxonomy
    exact forall₂_groups fun r _ => r.grouped_group taxonomy
  · intro r _ a b hpart
    exact Rule.group_congr hpart

/-- A keyword rule and a type rule that name one category, and a contextual rule that names another. -/
def sharedTable : ScopeTable where
  rules := [⟨"keyword.other", .keyword, ["other"], ["isolated"], [], none⟩,
    ⟨"variable.contextual", .contextual, ["nowhere"], [], ["self"], none⟩,
    ⟨"storage.other", .typeName, ["integer", "other"], [], [], none⟩]
  routes := []

/-- A taxonomy's text with the given type categories besides the integers. -/
def sharedWords (types : String) : String :=
  "\x7b\"version\":1,\"keywords\":\x7b\"other\":[\"pub\"]\x7d,\"types\":\x7b\"integer\":[\"i32\"]" ++
    types ++ "\x7d,\"contextual_identifiers\":\x7b\"self\":\"\",\"ready\":\"\"\x7d," ++
    "\"all_keywords\":[\"pub\"]\x7d"

/-- What a text reads as, from the categories that are read. -/
theorem exists_readTaxonomy (text : String) (keywords types : List (String × List String))
    (h : (Taxonomy.readTaxonomy text).toOption.map (fun a => (a.keywords.entries, a.types.entries)) =
      some (keywords, types)) : ∃ taxonomy, Taxonomy.readTaxonomy text = .ok taxonomy ∧
        taxonomy.part .keyword = keywords ∧ taxonomy.part .typeName = types := by
  cases hread : Taxonomy.readTaxonomy text with
  | error e =>
    rw [hread] at h
    cases h
  | ok taxonomy =>
    rw [hread] at h
    cases h
    exact ⟨taxonomy, rfl, rfl, rfl⟩

/-- With the shared category among the types the text loads, and without it the type rule's is
missing, though the keyword rule has the same. -/
theorem sharedTable_loads : ∃ full lacking,
    Taxonomy.readTaxonomy (sharedWords ",\"other\":[\"Vec\"]") = .ok full ∧
    Taxonomy.readTaxonomy (sharedWords "") = .ok lacking ∧
    parseTaxonomy (sharedWords ",\"other\":[\"Vec\"]") "words.json" sharedTable = .ok full ∧
    List.Forall₂ (Rule.Fed full) sharedTable.rules (sharedTable.groups full) ∧
    parseTaxonomy (sharedWords "") "words.json" sharedTable =
      .error (.missingCategory "words.json" ⟨"storage.other", .typeName, "other"⟩) ∧
    ∀ r ∈ sharedTable.rules, r.role = .keyword → r.group full = r.group lacking := by
  obtain ⟨full, hfull, hkeywords, htypes⟩ := exists_readTaxonomy
    (sharedWords ",\"other\":[\"Vec\"]") [("other", ["pub"])]
    [("integer", ["i32"]), ("other", ["Vec"])] (by decide +kernel)
  obtain ⟨lacking, hlacking, hkeywords', htypes'⟩ := exists_readTaxonomy
    (sharedWords "") [("other", ["pub"])] [("integer", ["i32"])] (by decide +kernel)
  obtain ⟨hloading, -, hsame⟩ := strict_loading_is_lossless sharedTable
  have hdeclared : ∀ r ∈ sharedTable.rules, ∀ category ∈ r.categories,
      full.Declares r.role category := by
    simp [sharedTable, Taxonomy.Declares, hkeywords, htypes, Entries.keys]
  have hundeclared : sharedTable.FirstUndeclared lacking
      ⟨"storage.other", .typeName, "other"⟩ := by
    refine ⟨sharedTable.rules.take 2, _, [], ["integer"], [], rfl, rfl, rfl, rfl, ?_, ?_, ?_⟩
    · simp [sharedTable, Taxonomy.Declares, hkeywords', Entries.keys]
    · simp [Taxonomy.Declares, htypes', Entries.keys]
    · simp [Taxonomy.Declares, htypes', Entries.keys]
  obtain ⟨hok, -, hfed⟩ := hloading _ "words.json" full hfull
  obtain ⟨-, herror, -⟩ := hloading _ "words.json" lacking hlacking
  have hload := (hok full).mpr ⟨rfl, hdeclared⟩
  refine ⟨full, lacking, hfull, hlacking, hload, hfed full hload,
    (herror _).mpr ⟨_, hundeclared, rfl⟩, ?_⟩
  intro r hr hrole
  apply hsame r hr
  rw [hrole]
  refine ⟨hkeywords.trans hkeywords'.symm, fun hother => ?_⟩
  cases hother

end GrammarSync
