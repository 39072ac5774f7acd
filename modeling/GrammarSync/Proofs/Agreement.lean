/-
# The report and the grammar

A run says twice which words belong to a keyword scope: the coverage report
says it of the groups, and the grammar says it in the expressions of its
nodes. With one rule for each scope the two agree (`coverage_agrees_with_grammar`):
the words that the report takes for a scope's own are the words in the
expression of every node of the scope (`shows_synchronize`), and a scope has
such a node unless it is skipped or has no route (`served_synchronize`). With
two rules for one scope they need not agree: the grammar shows the words of
the first only.

Key definitions: `ScopeTable.OneRuleEach`, `Document.Shows`,
`ScopeTable.Agreement`.
Key theorems: `shows_synchronize`, `served_synchronize`,
`coverage_agrees_with_grammar`.
-/
import GrammarSync.Proofs.Completeness
import GrammarSync.Proofs.Ownership
import GrammarSync.Scope.Hew
import Mathlib.Data.List.Nodup

namespace GrammarSync

/-- A document shows a set of words for a scope: each node of the walk that is managed for the scope
has the alternation of the set. -/
def Document.Shows (d : Document) (scope : String) (words : WordSet) : Prop :=
  ∀ w ∈ d.walk, w.2.managedFor scope → w.2.regex = some words.alternation

namespace ScopeTable

/-- No two rules have one scope. -/
def OneRuleEach (t : ScopeTable) : Prop :=
  (t.rules.map (·.scope)).Nodup

instance (t : ScopeTable) : Decidable t.OneRuleEach :=
  inferInstanceAs (Decidable (List.Nodup _))

/-- A grammar `e` and the outcome of the run that left it say the same of the keyword scopes. -/
structure Agreement (t : ScopeTable) (taxonomy : Taxonomy) (e : Document) (o : Outcome) : Prop where
  /-- A reserved word is no gap just if the set of a keyword rule has it. -/
  covered : ∀ word ∈ taxonomy.allKeywords, word ∉ o.coverage.gaps ↔
    ∃ r ∈ t.rules, r.role = .keyword ∧ word ∈ (r.group taxonomy).keywords
  /-- The grammar shows this set wherever it has the rule's scope. -/
  shows : ∀ r ∈ t.rules, r.role = .keyword → e.Shows r.scope (r.group taxonomy).keywords
  /-- It has the scope, unless the scope is skipped or has no route. -/
  served : ∀ r ∈ t.rules, r.role = .keyword → e.manages r.scope = true ∨
    (∃ s ∈ o.skipped, s.scope = r.scope) ∨ t.route? r.scope = none
  /-- What it shows is reserved or reported as an orphan. -/
  accounted : ∀ r ∈ t.rules, r.role = .keyword → ∀ word ∈ (r.group taxonomy).keywords,
    word ∈ taxonomy.allKeywords ∨ word ∈ o.coverage.orphans

variable {t : ScopeTable}

theorem rule?_of_mem (h : t.OneRuleEach) {r : Rule} (hr : r ∈ t.rules) :
    t.rule? r.scope = some r := by
  obtain ⟨q, hq⟩ := Option.isSome_iff_exists.mp (t.isSome_rule? hr)
  have hsame : q = r :=
    List.inj_on_of_nodup_map h (t.mem_of_rule? hq) hr (t.rule?_scope hq)
  rw [hq, hsame]

theorem exists_owns_iff {taxonomy : Taxonomy} {word : String} :
    (∃ g ∈ t.groups taxonomy, g.Owns word) ↔
      ∃ r ∈ t.rules, r.role = .keyword ∧ word ∈ (r.group taxonomy).keywords := by
  simp only [groups, List.mem_map, exists_exists_and_eq_and]
  rfl

end ScopeTable

variable (t : ScopeTable) (taxonomy : Taxonomy) (d : Document)

/-- After a run the grammar shows the group of each rule. -/
theorem shows_synchronize (h : t.OneRuleEach) {r : Rule} (hr : r ∈ t.rules) :
    (synchronize t taxonomy d).1.Shows r.scope (r.group taxonomy).keywords := by
  intro w hw hman
  exact regex_of_mem_walk_synchronize t taxonomy hw hman (ScopeTable.rule?_of_mem h hr)

/-- After a run a scope of the table has a node, is skipped, or has no route. -/
theorem served_synchronize {r : Rule} (hr : r ∈ t.rules) :
    (synchronize t taxonomy d).1.manages r.scope = true ∨
      (∃ s ∈ (synchronize t taxonomy d).2.skipped, s.scope = r.scope) ∨
      t.route? r.scope = none := by
  rcases accounted_synchronize t taxonomy d hr with ⟨hman, -⟩ | ⟨-, hleft, -⟩ | ⟨-, -, hunrouted⟩
  · exact .inl hman
  · obtain ⟨route, -, hskipped, -⟩ := hleft
    exact .inr (.inl ⟨_, hskipped, rfl⟩)
  · exact .inr (.inr hunrouted.2.1)

/-- **The report and the grammar agree.** With one rule for each scope, a reserved word is no gap just
if some keyword rule has it. The grammar shows the words of every keyword rule in each node of its
scope, of which there is one unless the scope is skipped or has no route, and it shows no words but
reserved ones and orphans. -/
theorem coverage_agrees_with_grammar (h : t.OneRuleEach) :
    t.Agreement taxonomy (synchronize t taxonomy d).1 (synchronize t taxonomy d).2 := by
  have hexact := Coverage.exact_verify taxonomy (t.groups taxonomy)
  rw [← coverage_synchronize t taxonomy d] at hexact
  exact {
    covered := fun word hword => by
      rw [hexact.mem_gaps, and_iff_right hword, ← ScopeTable.exists_owns_iff]
      simp
    shows := fun r hr _ => shows_synchronize t taxonomy d h hr
    served := fun r hr _ => served_synchronize t taxonomy d hr
    accounted := fun r hr hrole word hword => by
      rw [hexact.mem_orphans]
      by_cases hreserved : word ∈ taxonomy.allKeywords
      · exact .inl hreserved
      · exact .inr ⟨hreserved, ScopeTable.exists_owns_iff.mpr ⟨r, hr, hrole, hword⟩⟩ }

/-- A keyword category and a reserved word that is in none. -/
def hewVocabulary : Taxonomy where
  version := .integer 1
  keywords := ⟨[("control_flow", ["while", "if"])], List.pairwise_singleton _ _⟩
  types := ⟨[], .nil⟩
  contextual := ⟨[], .nil⟩
  allKeywords := ["if", "loop", "await", "while"]

/-- Two nodes of one scope, one of them nested and stale, and no section for types. -/
def hewGrammar : Document where
  scopeName := "source.hew"
  patterns := [⟨none, none, none, some [.generated "" "keyword.control.hew" "old"], [], ["patterns"]⟩]
  repository := [("keywords",
    ⟨none, none, none, some [.generated "" "keyword.control.hew" "older"], [], ["patterns"]⟩)]
  rest := []
  order := ["scopeName", "patterns", "repository"]

/-- The report has a gap, which no scope of the grammar shows, and the control words of both nodes are
reserved or orphans. -/
theorem hewGrammar_agrees : ScopeTable.hew.OneRuleEach ∧ ∃ e o,
    synchronize ScopeTable.hew hewVocabulary hewGrammar = (e, o) ∧
      ScopeTable.hew.Agreement hewVocabulary e o ∧ o.coverage.gaps = ["loop"] ∧
      (e.walk.filter (·.2.managedFor "keyword.control.hew")).map (·.2.regex) =
        [some "\\b(after|await|cooperate|from|if|join|scope|select|while)\\b",
          some "\\b(after|await|cooperate|from|if|join|scope|select|while)\\b"] ∧
      "cooperate" ∈ o.coverage.orphans := by
  have hone : ScopeTable.hew.OneRuleEach := by decide +kernel
  have hagree := coverage_agrees_with_grammar ScopeTable.hew hewVocabulary hewGrammar hone
  refine ⟨hone, _, _, rfl, hagree, ?_, ?_, ?_⟩
  all_goals decide +kernel

/-- A scope with two rules. -/
def doubledTable : ScopeTable where
  rules := [⟨"keyword.if", .keyword, [], ["else"], [], none⟩,
    ⟨"keyword.if", .keyword, ["control"], [], [], none⟩]
  routes := [⟨"keyword.", "keywords", none⟩]

open Sample in
/-- With two rules for a scope a reserved word may be neither a gap nor in the grammar. -/
example : (synchronize doubledTable vocabulary document).2.coverage.gaps = [] ∧
    ((synchronize doubledTable vocabulary document).1.walk.filter
      (·.2.managedFor "keyword.if")).map (·.2.regex) = [some "\\b(else)\\b"] := by
  decide +kernel

end GrammarSync
