/-
# Reading taxonomy texts

A taxonomy is read straight from its text, so that a value of a wrong type is
reported where it stands. The record is an object, whose unknown keys are
passed over, or a list of exactly the five fields in their order.

A version and the value of a contextual name may have several forms: they are
read as JSON values first. That such a value fits no form, that a field is
missing or repeated, and that a list is too short is reported behind the
container in which it shows, or in front of what follows there if the
container goes on.

Key definitions: `Version.ofJson?`, `ContextualEntry.ofJson?`, `readTexts`,
`readCategories`, `readContextual`, `readTaxonomy`.
-/
import GrammarSync.Json.Skip
import GrammarSync.Taxonomy.Basic
import GrammarSync.Taxonomy.Fault

namespace GrammarSync
namespace Taxonomy

open Json

/-- What reading a part of a taxonomy gives, or the fault it stopped at. -/
abbrev Read := Except (Fault Cause)

/-- A step of reading JSON, as a step of reading a taxonomy. -/
def lift {α : Type} : Checked α → Read α
  | .ok a => .ok a
  | .error e => .error (e.map .malformed)

/-- The fault of a value that is not of the type wanted. A scalar is read first, and its own
faults count; a container is not entered. -/
def misfit (wanted : Wanted) : List Char → Fault Cause
  | [] => .atEnd (.malformed .endInValue)
  | c :: rest =>
    let scalar (found : Found) (r : Checked (List Char)) : Fault Cause :=
      match r with
      | .ok rest => .here (.wrongType found wanted) rest
      | .error e => e.map .malformed
    let numeral (r : Checked (Number × List Char)) : Fault Cause :=
      match r with
      | .ok (n, rest) => .here (.wrongType (.number n) wanted) rest
      | .error e => e.map .malformed
    if c = 'n' then scalar .null (readWord ['u', 'l', 'l'] rest)
    else if c = 't' then scalar (.boolean true) (readWord ['r', 'u', 'e'] rest)
    else if c = 'f' then scalar (.boolean false) (readWord ['a', 'l', 's', 'e'] rest)
    else if c = '-' then numeral (readNumber true rest)
    else if isDigit c then numeral (readNumber false (c :: rest))
    else if c = '"' then
      match readString rest with
      | .ok (s, rest) => .here (.wrongType (.text s) wanted) rest
      | .error e => e.map .malformed
    else if c = '[' then .here (.wrongType .sequence wanted) (c :: rest)
    else if c = '\x7b' then .here (.wrongType .map wanted) (c :: rest)
    else .next (.malformed .valueExpected) (c :: rest)

/-- The text behind the character that opens a value of the type wanted. -/
def enter (wanted : Wanted) (opening : Char) (cs : List Char) : Read (List Char) :=
  match skipBlanks cs with
  | [] => .error (.atEnd (.malformed .endInValue))
  | c :: rest => if c = opening then .ok rest else .error (misfit wanted (c :: rest))

/-- A text. -/
def readText (cs : List Char) : Read (String × List Char) := do
  let rest ← enter .text '"' cs
  lift (readString rest)

/-- The texts up to the end of a list. -/
def readTextItems : Nat → Bool → List Char → Read (List String × List Char)
  | 0, _, cs => .error (.here (.malformed .endInList) cs)
  | steps + 1, first, cs => do
    match ← lift (nextItem first cs) with
    | .stop rest => .ok ([], rest)
    | .more rest =>
      let (w, rest) ← readText rest
      let (ws, rest) ← readTextItems steps false rest
      .ok (w :: ws, rest)

/-- A list of texts. -/
def readTexts (cs : List Char) : Read (List String × List Char) := do
  let rest ← enter .sequence '[' cs
  readTextItems (stepsFor rest) true rest

/-- The categories up to the end of an object. -/
def readCategoryMembers : Nat → Bool → List Char →
    Read (List (String × List String) × List Char)
  | 0, _, cs => .error (.here (.malformed .endInObject) cs)
  | steps + 1, first, cs => do
    match ← lift (nextKey first cs) with
    | .stop rest => .ok ([], rest)
    | .more rest =>
      let (name, rest) ← lift (readString rest)
      let rest ← lift (readColon rest)
      let (ws, rest) ← readTexts rest
      let (others, rest) ← readCategoryMembers steps false rest
      .ok ((name, ws) :: others, rest)

/-- Categories of words. -/
def readCategories (cs : List Char) : Read (WordMap (List String) × List Char) := do
  let rest ← enter .map '\x7b' cs
  let (categories, rest) ← readCategoryMembers (stepsFor rest) true rest
  .ok (WordMap.ofList categories, rest)

/-- Behind an object that ends here, or in front of what it goes on with. -/
def behindObject (cs : List Char) : List Char :=
  match skipBlanks cs with
  | [] => []
  | c :: rest => if c = '\x7d' then rest else c :: rest

/-- Behind a list that ends here, or in front of the item it goes on with. -/
def behindList (cs : List Char) : List Char :=
  match skipBlanks cs with
  | [] => []
  | c :: rest =>
    if c = ']' then rest else if c = ',' then skipBlanks rest else c :: rest

/-- The entry of a contextual name: an object with at most one description, which is a text or
null, or a text. -/
def ContextualEntry.ofJson? : Json → Option ContextualEntry
  | .object members =>
    match members.filter (·.1 = "description") with
    | [] => some (.detailed none)
    | [(_, .null)] => some (.detailed none)
    | [(_, .string s)] => some (.detailed (some s))
    | _ => none
  | .string s => some (.note s)
  | _ => none

/-- The contextual names up to the end of an object. -/
def readEntries : Nat → Bool → List Char →
    Read (List (String × ContextualEntry) × List Char)
  | 0, _, cs => .error (.here (.malformed .endInObject) cs)
  | steps + 1, first, cs => do
    match ← lift (nextKey first cs) with
    | .stop rest => .ok ([], rest)
    | .more rest =>
      let (name, rest) ← lift (readString rest)
      let rest ← lift (readColon rest)
      let (value, rest) ← lift (readValue (stepsFor rest) (depthLimit - 2) rest)
      match ContextualEntry.ofJson? value with
      | none => .error (.here .unknownEntry (behindObject rest))
      | some entry =>
        let (others, rest) ← readEntries steps false rest
        .ok ((name, entry) :: others, rest)

/-- The contextual names. -/
def readContextual (cs : List Char) : Read (WordMap ContextualEntry × List Char) := do
  let rest ← enter .map '\x7b' cs
  let (entries, rest) ← readEntries (stepsFor rest) true rest
  .ok (WordMap.ofList entries, rest)

/-- A version is a text, an integer that is not negative, or another number as a double. -/
def Version.ofJson? : Json → Option Version
  | .string s => some (.text s)
  | .number (.int i) =>
    if 0 ≤ i then some (.integer i.natAbs)
    else (Binary64.ofNat? i.natAbs).map fun x => .float (x.withSign true)
  | .number (.float x) => some (.float x)
  | _ => none

/-- The fields read so far. -/
structure Draft where
  version : Option Version
  keywords : Option (WordMap (List String))
  types : Option (WordMap (List String))
  contextual : Option (WordMap ContextualEntry)
  allKeywords : Option (List String)

/-- No field is read. -/
def Draft.empty : Draft :=
  ⟨none, none, none, none, none⟩

/-- Whether a field is read. -/
def Draft.has (d : Draft) : Field → Bool
  | .version => d.version.isSome
  | .keywords => d.keywords.isSome
  | .types => d.types.isSome
  | .contextual => d.contextual.isSome
  | .allKeywords => d.allKeywords.isSome

/-- A field's value, or the field that is not read. -/
def need {α : Type} (f : Field) : Option α → Except Field α
  | some a => .ok a
  | none => .error f

/-- The taxonomy, if every field is read, or the first field that is not. -/
def Draft.complete (d : Draft) : Except Field Taxonomy := do
  let version ← need .version d.version
  let keywords ← need .keywords d.keywords
  let types ← need .types d.types
  let contextual ← need .contextual d.contextual
  let allKeywords ← need .allKeywords d.allKeywords
  .ok ⟨version, keywords, types, contextual, allKeywords⟩

/-- Read the value of a field; `behind` says where the record is left if its version fits no
form. -/
def readField (behind : List Char → List Char) (d : Draft) (f : Field) (cs : List Char) :
    Read (Draft × List Char) :=
  match f with
  | .version => do
    let (value, rest) ← lift (readValue (stepsFor cs) (depthLimit - 1) cs)
    match Version.ofJson? value with
    | some v => .ok ({ d with version := some v }, rest)
    | none => .error (.here .unknownVersion (behind rest))
  | .keywords => do
    let (categories, rest) ← readCategories cs
    .ok ({ d with keywords := some categories }, rest)
  | .types => do
    let (categories, rest) ← readCategories cs
    .ok ({ d with types := some categories }, rest)
  | .contextual => do
    let (entries, rest) ← readContextual cs
    .ok ({ d with contextual := some entries }, rest)
  | .allKeywords => do
    let (words, rest) ← readTexts cs
    .ok ({ d with allKeywords := some words }, rest)

/-- The members up to the end of a record that is an object. -/
def readMembers : Nat → Bool → Draft → List Char → Read (Taxonomy × List Char)
  | 0, _, _, cs => .error (.here (.malformed .endInObject) cs)
  | steps + 1, first, d, cs => do
    match ← lift (nextKey first cs) with
    | .stop rest =>
      match d.complete with
      | .ok t => .ok (t, rest)
      | .error f => .error (.here (.missingField f) rest)
    | .more rest =>
      let (key, rest) ← lift (readString rest)
      match Field.ofKey? key with
      | none =>
        let rest ← lift (readColon rest)
        let rest ← lift (skipValue rest)
        readMembers steps false d rest
      | some f =>
        if d.has f then .error (.here (.duplicateField f) (behindObject rest))
        else
          let rest ← lift (readColon rest)
          let (d, rest) ← readField behindObject d f rest
          readMembers steps false d rest

/-- The fields, in order, of a record that is a list. -/
def readItems (first : Bool) (count : Nat) (d : Draft) :
    List Field → List Char → Read (Draft × List Char)
  | [], cs => .ok (d, cs)
  | f :: fields, cs => do
    match ← lift (nextItem first cs) with
    | .stop rest => .error (.here (.tooShort count) rest)
    | .more rest =>
      let (d, rest) ← readField behindList d f rest
      readItems false (count + 1) d fields rest

/-- The text behind a record that is a list, whose fields are all read. -/
def closeList (cs : List Char) : Checked (List Char) :=
  match skipBlanks cs with
  | [] => .error (.atEnd .endInList)
  | c :: rest =>
    if c = ']' then .ok rest
    else if c = ',' then
      match skipBlanks rest with
      | [] => .error (.atEnd .trailingCharacters)
      | d :: rest =>
        .error (.next (if d = ']' then .trailingComma else .trailingCharacters) (d :: rest))
    else .error (.next .trailingCharacters (c :: rest))

/-- A record. -/
def readRecord (cs : List Char) : Read (Taxonomy × List Char) :=
  match skipBlanks cs with
  | [] => .error (.atEnd (.malformed .endInValue))
  | c :: rest =>
    if c = '\x7b' then readMembers (stepsFor rest) true Draft.empty rest
    else if c = '[' then do
      let (d, rest) ← readItems true 0 Draft.empty Field.all rest
      let rest ← lift (closeList rest)
      match d.complete with
      | .ok t => .ok (t, rest)
      | .error f => .error (.here (.missingField f) rest)
    else .error (misfit .record (c :: rest))

/-- The taxonomy of a whole text. -/
def readTaxonomy (text : String) : Read Taxonomy := do
  let (t, rest) ← readRecord text.toList
  lift (readEnd rest)
  .ok t

end Taxonomy
end GrammarSync
