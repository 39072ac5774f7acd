/-
# JSON values

Values keep the order of their object members. Two values are equivalent
(`Json.equiv`) if they differ only in the order of members and in the sign of
zero. Where a text repeats a key, `Json.merged` keeps the first place and the
last value, so that keys become distinct (`Json.DistinctKeys`).

Key definitions: `Json`, `Json.Kind`, `Json.equiv`, `Json.merged`,
`Json.DistinctKeys`.
-/
import GrammarSync.Number.Numeral
import GrammarSync.Words.Entries

namespace GrammarSync

/-- A JSON value. -/
inductive Json where
  | null
  | bool (b : Bool)
  | number (n : Number)
  | string (s : String)
  | array (items : List Json)
  | object (members : List (String × Json))

namespace Json

instance : Inhabited Json :=
  ⟨.null⟩

/-- The six kinds of values. -/
inductive Kind where
  | null
  | boolean
  | number
  | string
  | array
  | object
deriving DecidableEq, Repr

/-- The kind of a value. -/
def kind : Json → Kind
  | .null => .null
  | .bool _ => .boolean
  | .number _ => .number
  | .string _ => .string
  | .array _ => .array
  | .object _ => .object

/-- A kind with its article. -/
def Kind.describe : Kind → String
  | .null => "null"
  | .boolean => "a boolean"
  | .number => "a number"
  | .string => "a string"
  | .array => "an array"
  | .object => "an object"

/-- The text of a string value. -/
def text? : Json → Option String
  | .string s => some s
  | _ => none

mutual
/-- Equality up to the order of object members and the sign of zero. -/
def equiv : Json → Json → Bool
  | .null, .null => true
  | .bool a, .bool b => a == b
  | .number m, .number n => m.equiv n
  | .string s, .string t => s == t
  | .array xs, .array ys => equivItems xs ys
  | .object ms, .object ns => ms.length == ns.length && equivMembers ms ns
  | _, _ => false

/-- Equivalence item by item. -/
def equivItems : List Json → List Json → Bool
  | [], [] => true
  | x :: xs, y :: ys => equiv x y && equivItems xs ys
  | _, _ => false

/-- Whether every member of the first list has an equivalent in the second. -/
def equivMembers : List (String × Json) → List (String × Json) → Bool
  | [], _ => true
  | (k, v) :: ms, ns =>
    (match ns.lookup k with
      | some w => equiv v w
      | none => false) && equivMembers ms ns
end

mutual
/-- The value with repeated keys merged at every depth. -/
def merged : Json → Json
  | .null => .null
  | .bool b => .bool b
  | .number n => .number n
  | .string s => .string s
  | .array items => .array (mergedItems items)
  | .object members => .object (Entries.ofList (mergedMembers members))

/-- The items, merged. -/
def mergedItems : List Json → List Json
  | [] => []
  | v :: rest => merged v :: mergedItems rest

/-- The members, their values merged. -/
def mergedMembers : List (String × Json) → List (String × Json)
  | [] => []
  | (k, v) :: rest => (k, merged v) :: mergedMembers rest
end

mutual
/-- No object in the value repeats a key. -/
def DistinctKeys : Json → Prop
  | .null => True
  | .bool _ => True
  | .number _ => True
  | .string _ => True
  | .array items => DistinctItems items
  | .object members => (Entries.keys members).Nodup ∧ DistinctMembers members

/-- No item repeats a key. -/
def DistinctItems : List Json → Prop
  | [] => True
  | v :: rest => DistinctKeys v ∧ DistinctItems rest

/-- No member's value repeats a key. -/
def DistinctMembers : List (String × Json) → Prop
  | [] => True
  | (_, v) :: rest => DistinctKeys v ∧ DistinctMembers rest
end

end Json
end GrammarSync
