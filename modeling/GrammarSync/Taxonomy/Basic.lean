/-
# The taxonomy

A taxonomy lists the words of a language: reserved words by category, names of
types by category, names that have a meaning only in places, and all reserved
words once more in one list. A category's words keep their order and may
repeat.

Key definitions: `Taxonomy`, `Taxonomy.Version`, `Taxonomy.ContextualEntry`,
`Taxonomy.equiv`.
-/
import GrammarSync.Number.Layout
import GrammarSync.Number.Numeral
import GrammarSync.Words.Map

namespace GrammarSync
namespace Taxonomy

/-- The version mark of a taxonomy. -/
inductive Version where
  | text (s : String)
  | integer (n : Nat)
  | float (x : Binary64)
deriving DecidableEq, Repr

namespace Version

/-- Doubles in a version: digits and a point, never an exponent, no fraction for whole numbers. -/
def layout : Layout :=
  ⟨fun _ => true, false, .up⟩

/-- The version as it is shown. -/
def display : Version → String
  | .text s => s
  | .integer n => toString n
  | .float x => layout.write x

/-- Equality of versions: of one form, and of one value. -/
def equiv : Version → Version → Bool
  | .text s, .text t => s == t
  | .integer m, .integer n => m == n
  | .float x, .float y => x.equiv y
  | _, _ => false

end Version

/-- What a taxonomy says of a contextual name: an object with perhaps a description, or a note. -/
inductive ContextualEntry where
  | detailed (description : Option String)
  | note (text : String)
deriving DecidableEq, Repr

/-- The description an entry carries. -/
def ContextualEntry.description? : ContextualEntry → Option String
  | .detailed description => description
  | .note text => some text

end Taxonomy

/-- The words of a language. -/
structure Taxonomy where
  version : Taxonomy.Version
  /-- Reserved words by category. -/
  keywords : WordMap (List String)
  /-- Names of types by category. -/
  types : WordMap (List String)
  /-- Names that have a meaning only in places. -/
  contextual : WordMap Taxonomy.ContextualEntry
  /-- All reserved words. -/
  allKeywords : List String

namespace Taxonomy

/-- The words of a category of reserved words, if the taxonomy declares it. -/
def keywordCategory? (t : Taxonomy) (name : String) : Option (List String) :=
  t.keywords.get? name

/-- The words of a category of type names, if the taxonomy declares it. -/
def typeCategory? (t : Taxonomy) (name : String) : Option (List String) :=
  t.types.get? name

/-- The contextual names, increasing. -/
def contextualNames (t : Taxonomy) : List String :=
  t.contextual.keys

/-- Equality of taxonomies, the versions by value. -/
def equiv (s t : Taxonomy) : Bool :=
  s.version.equiv t.version && s.keywords = t.keywords && s.types = t.types &&
    s.contextual = t.contextual && s.allKeywords = t.allKeywords

end Taxonomy
end GrammarSync
