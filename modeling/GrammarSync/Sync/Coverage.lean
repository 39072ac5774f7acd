/-
# Coverage of the reserved words

Every reserved word should belong to exactly one keyword scope, and keyword
scopes should have no other words. A gap is a reserved word without a scope,
an orphan a word of a scope that is not reserved, and a duplicate a word of
several scopes. Groups of other roles do not count.

Key definitions: `owners`, `ownedWords`, `Coverage`, `Coverage.verify`.
Key theorems: `mem_firstOccurrences`, `nodup_firstOccurrences`.
-/
import GrammarSync.Scope.Group

namespace GrammarSync

/-- The scopes of the keyword groups that have a word, in table order. -/
def owners (groups : List ScopeGroup) (word : String) : List String :=
  ((ScopeGroup.withRole groups .keyword).filter (word ∈ ·.keywords)).map (·.scope)

/-- The words of the keyword groups. -/
def ownedWords (groups : List ScopeGroup) : WordSet :=
  WordSet.ofList ((ScopeGroup.withRole groups .keyword).flatMap (·.keywords.toList))

/-- The words of a list without their repetitions. -/
def firstOccurrences : List String → List String
  | [] => []
  | w :: ws => w :: (firstOccurrences ws).filter (· ≠ w)

@[simp] theorem mem_firstOccurrences {w : String} : ∀ {ws : List String},
    w ∈ firstOccurrences ws ↔ w ∈ ws
  | [] => by simp [firstOccurrences]
  | v :: ws => by
    have ih := @mem_firstOccurrences w ws
    by_cases h : w = v <;> simp [firstOccurrences, ih, h]

theorem nodup_firstOccurrences : ∀ ws : List String, (firstOccurrences ws).Nodup
  | [] => List.nodup_nil
  | w :: ws => by
    have hrest : ((firstOccurrences ws).filter (· ≠ w)).Nodup :=
      (nodup_firstOccurrences ws).sublist List.filter_sublist
    rw [firstOccurrences, List.nodup_cons]
    exact ⟨by simp, hrest⟩

/-- A word of several keyword scopes. -/
structure Duplicate where
  word : String
  /-- The scopes, in table order. -/
  scopes : List String
deriving DecidableEq, Repr

/-- What is wrong with the assignment of reserved words to scopes. -/
structure Coverage where
  /-- Reserved words without a scope, in the order of the taxonomy. -/
  gaps : List String
  /-- Words of scopes that are not reserved, increasing. -/
  orphans : List String
  /-- Words of several scopes, increasing. -/
  duplicates : List Duplicate
deriving DecidableEq, Repr

namespace Coverage

/-- Nothing is wrong. -/
def isClean (c : Coverage) : Bool :=
  c.gaps.isEmpty && c.orphans.isEmpty && c.duplicates.isEmpty

/-- The coverage of a taxonomy's reserved words by groups. -/
def verify (taxonomy : Taxonomy) (groups : List ScopeGroup) : Coverage where
  gaps := firstOccurrences (taxonomy.allKeywords.filter (· ∉ ownedWords groups))
  orphans := (ownedWords groups).toList.filter (· ∉ taxonomy.allKeywords)
  duplicates := ((ownedWords groups).toList.map fun w => ⟨w, owners groups w⟩).filter
    fun d => 1 < d.scopes.length

/-- A block of the report, if it lists something. -/
def block (title : String) (items : List String) : String :=
  if items.isEmpty then ""
  else "⚠  " ++ title ++ ":\n   " ++ ", ".intercalate items ++ "\n\n"

/-- A duplicate with its scopes. -/
def describe (d : Duplicate) : String :=
  d.word ++ " (" ++ ", ".intercalate d.scopes ++ ")"

/-- The report: a block for every finding, nothing if there is none. -/
def render (c : Coverage) : String :=
  block "Keywords in all_keywords not assigned to any grammar scope" c.gaps ++
    block "Keywords in grammar scopes but not in all_keywords" c.orphans ++
    block "Keywords assigned to more than one grammar scope" (c.duplicates.map describe)

end Coverage
end GrammarSync
