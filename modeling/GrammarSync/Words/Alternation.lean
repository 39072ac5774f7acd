/-
# The regular expression of a word set

A set of words is matched by the alternation of its members in increasing
order, between word boundaries. The words stand in it as they are spelled.
-/
import GrammarSync.Words.Set

namespace GrammarSync

/-- `\b(w₁|w₂|…)\b`, the members in increasing order; `\b()\b` for no words. -/
def WordSet.alternation (s : WordSet) : String :=
  "\\b(" ++ "|".intercalate s.toList ++ ")\\b"

/-- The alternation of the words of a list, whatever their order and repetitions. -/
def wordAlternation (ws : List String) : String :=
  (WordSet.ofList ws).alternation

end GrammarSync
