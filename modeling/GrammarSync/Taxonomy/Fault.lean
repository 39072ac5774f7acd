/-
# Faults of a taxonomy text

Besides the faults of JSON, a taxonomy text may have a value of a wrong type,
lack a field or repeat one, or give a version or a contextual name in a form
that is not known.

Key definitions: `Taxonomy.Field`, `Taxonomy.Found`, `Taxonomy.Cause`,
`Taxonomy.Cause.message`.
-/
import GrammarSync.Json.Fault
import GrammarSync.Json.Printer
import GrammarSync.Text.Quoted

namespace GrammarSync
namespace Taxonomy

/-- The fields of a taxonomy, in their order. -/
inductive Field where
  | version
  | keywords
  | types
  | contextual
  | allKeywords
deriving DecidableEq, Repr

namespace Field

/-- The key of a field. -/
def key : Field → String
  | .version => "version"
  | .keywords => "keywords"
  | .types => "types"
  | .contextual => "contextual_identifiers"
  | .allKeywords => "all_keywords"

/-- All fields, in their order. -/
def all : List Field :=
  [.version, .keywords, .types, .contextual, .allKeywords]

/-- The field of a key. -/
def ofKey? (k : String) : Option Field :=
  all.find? (·.key = k)

end Field

/-- What stands where something else should. -/
inductive Found where
  | null
  | boolean (b : Bool)
  | number (n : Number)
  | text (s : String)
  | sequence
  | map
deriving DecidableEq, Repr

/-- A value in the words of a message. -/
def Found.describe : Found → String
  | .null => "null"
  | .boolean b => "boolean `" ++ String.ofList (Json.printBool b) ++ "`"
  | .number (.int i) => "integer `" ++ String.ofList (Json.printInt i) ++ "`"
  | .number (.float x) => "floating point `" ++ Json.layout.write x ++ "`"
  | .text s => "string " ++ Text.quoted s
  | .sequence => "sequence"
  | .map => "map"

/-- What should stand at a place. -/
inductive Wanted where
  | record
  | map
  | sequence
  | text
deriving DecidableEq, Repr

/-- The wanted type in the words of a message. -/
def Wanted.describe : Wanted → String
  | .record => "struct Taxonomy"
  | .map => "a map"
  | .sequence => "a sequence"
  | .text => "a string"

/-- What is wrong with a taxonomy text. -/
inductive Cause where
  | malformed (cause : Json.Cause)
  | wrongType (found : Found) (wanted : Wanted)
  | missingField (field : Field)
  | duplicateField (field : Field)
  /-- The record is a list and ends after `count` items. -/
  | tooShort (count : Nat)
  | unknownVersion
  | unknownEntry
deriving DecidableEq, Repr

/-- The message of a cause. -/
def Cause.message : Cause → String
  | .malformed cause => cause.message
  | .wrongType found wanted =>
    "invalid type: " ++ found.describe ++ ", expected " ++ wanted.describe
  | .missingField field => "missing field `" ++ field.key ++ "`"
  | .duplicateField field => "duplicate field `" ++ field.key ++ "`"
  | .tooShort count =>
    "invalid length " ++ toString count ++ ", expected struct Taxonomy with 5 elements"
  | .unknownVersion => "data did not match any variant of untagged enum TaxonomyVersion"
  | .unknownEntry => "data did not match any variant of untagged enum ContextualEntry"

end Taxonomy
end GrammarSync
