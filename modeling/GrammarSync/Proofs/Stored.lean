/-
# Values that come from a text

A text gives a value only if its containers are nested within the limit and
its integers have 64 bits; merging makes the keys of its objects distinct
(`stored_readDocument`). Merging changes nothing in a value with distinct keys
(`merged_eq_self`).

Key definitions: `Json.Stored`, `Json.numbers`, `Json.NoFloats`,
`Json.ValueRead`.
Key theorems: `readValue_ok`, `stored_readValue`, `stored_readDocument`,
`merged_eq_self`, `Stored.whole`.
-/
import GrammarSync.Json.Reader
import GrammarSync.Proofs.Lexemes
import GrammarSync.Proofs.Reachable
import Mathlib.Data.List.Basic
import Mathlib.Data.List.Nodup

namespace GrammarSync

/-! ### Merged entries -/

namespace Entries

variable {α : Type}

theorem put_of_not_mem {k : String} {v : α} {es : List (String × α)} (h : k ∉ keys es) :
    put k v es = es ++ [(k, v)] := by
  induction es with
  | nil => rfl
  | cons e rest ih =>
    obtain ⟨x, u⟩ := e
    rw [keys, List.map_cons, List.mem_cons, not_or] at h
    rw [put, if_neg (Ne.symm h.1), ih h.2, List.cons_append]

/-- Putting entries in one after the other keeps keys distinct and brings in these entries only. -/
theorem foldl_put_spec (es : List (String × α)) : ∀ acc : List (String × α), (keys acc).Nodup →
    (keys (es.foldl (fun acc e => put e.1 e.2 acc) acc)).Nodup ∧
      ∀ e ∈ es.foldl (fun acc e => put e.1 e.2 acc) acc, e ∈ acc ∨ e ∈ es := by
  induction es with
  | nil => exact fun acc h => ⟨h, fun e he => .inl he⟩
  | cons d rest ih =>
    intro acc h
    obtain ⟨hnodup, hmem⟩ := ih (put d.1 d.2 acc) (nodup_put h)
    refine ⟨hnodup, fun e he => ?_⟩
    rcases hmem e he with hput | hrest
    · rcases mem_put hput with rfl | hold
      · exact .inr List.mem_cons_self
      · exact .inl hold
    · exact .inr (List.mem_cons_of_mem _ hrest)

theorem nodup_ofList (es : List (String × α)) : (keys (ofList es)).Nodup :=
  (foldl_put_spec es [] List.nodup_nil).1

theorem mem_of_mem_ofList {es : List (String × α)} {e : String × α} (h : e ∈ ofList es) : e ∈ es :=
  ((foldl_put_spec es [] List.nodup_nil).2 e h).resolve_left List.not_mem_nil

/-- Entries with distinct keys are not merged. -/
theorem ofList_eq_self {es : List (String × α)} (h : (keys es).Nodup) : ofList es = es := by
  have hfold : ∀ (es acc : List (String × α)), (keys (acc ++ es)).Nodup →
      es.foldl (fun acc e => put e.1 e.2 acc) acc = acc ++ es := by
    intro es
    induction es with
    | nil => exact fun acc _ => (List.append_nil acc).symm
    | cons e rest ih =>
      intro acc hacc
      have hnew : e.1 ∉ keys acc := by
        rw [keys, List.map_append, List.map_cons] at hacc
        exact fun hmem => (List.nodup_append.mp hacc).2.2 e.1 hmem e.1 List.mem_cons_self rfl
      rw [List.foldl_cons, put_of_not_mem hnew, ih, List.append_assoc, List.singleton_append]
      rwa [List.append_assoc, List.singleton_append]
  exact hfold es [] h

end Entries

namespace Json

/-! ### Merged values -/

theorem mergedItems_eq_map : ∀ items : List Json, mergedItems items = items.map merged
  | [] => rfl
  | v :: rest => by rw [mergedItems, mergedItems_eq_map rest, List.map_cons]

theorem mergedMembers_eq_map : ∀ members : List (String × Json),
    mergedMembers members = members.map fun e => (e.1, e.2.merged)
  | [] => rfl
  | (_, _) :: rest => by rw [mergedMembers, mergedMembers_eq_map rest, List.map_cons]

/-- Merging changes nothing where keys are distinct. -/
theorem merged_eq_self (v : Json) (hv : v.DistinctKeys) : v.merged = v := by
  induction v using Json.induction with
  | array items ih =>
    have hitems : items.map merged = items.map id :=
      List.map_congr_left fun w hw => ih w hw (Shape.distinctItems_iff.mp hv w hw)
    rw [merged, mergedItems_eq_map, hitems, List.map_id]
  | object members ih =>
    have hmembers : (members.map fun e => (e.1, e.2.merged)) = members.map id :=
      List.map_congr_left fun e he =>
        Prod.ext rfl (ih e he (Shape.distinctMembers_iff.mp hv.2 e he))
    rw [merged, mergedMembers_eq_map, hmembers, List.map_id, Entries.ofList_eq_self hv.1]
  | _ => rw [merged]

/-! ### Stored values -/

/-- A value whose numbers are as required, whose objects have distinct keys, and whose containers
are nested at most `depth` deep. -/
inductive Stored (ok : Number → Prop) : Nat → Json → Prop
  | null {depth : Nat} : Stored ok depth .null
  | bool {depth : Nat} (b : Bool) : Stored ok depth (.bool b)
  | number {depth : Nat} {n : Number} (h : ok n) : Stored ok depth (.number n)
  | string {depth : Nat} (s : String) : Stored ok depth (.string s)
  | array {depth : Nat} {items : List Json} (h : ∀ v ∈ items, Stored ok depth v) :
      Stored ok (depth + 1) (.array items)
  | object {depth : Nat} {members : List (String × Json)} (keys : (Entries.keys members).Nodup)
      (h : ∀ e ∈ members, Stored ok depth e.2) : Stored ok (depth + 1) (.object members)

variable {ok : Number → Prop} {depth : Nat}

theorem Stored.distinctKeys {v : Json} (h : v.Stored ok depth) : v.DistinctKeys := by
  induction h with
  | array _ ih => exact Shape.distinctItems_iff.mpr ih
  | object keys _ ih => exact ⟨keys, Shape.distinctMembers_iff.mpr ih⟩
  | _ => exact trivial

mutual
/-- The numbers in a value, in order. -/
def numbers : Json → List Number
  | .null => []
  | .bool _ => []
  | .number n => [n]
  | .string _ => []
  | .array items => numbersItems items
  | .object members => numbersMembers members

/-- The numbers in a list of values. -/
def numbersItems : List Json → List Number
  | [] => []
  | v :: rest => numbers v ++ numbersItems rest

/-- The numbers in the values of members. -/
def numbersMembers : List (String × Json) → List Number
  | [] => []
  | (_, v) :: rest => numbers v ++ numbersMembers rest
end

/-- No number in the value is a double. -/
def NoFloats (v : Json) : Prop :=
  ∀ x, Number.float x ∉ v.numbers

theorem numbersItems_eq_flatMap : ∀ items : List Json,
    numbersItems items = items.flatMap numbers
  | [] => rfl
  | v :: rest => by rw [numbersItems, numbersItems_eq_flatMap rest, List.flatMap_cons]

theorem numbersMembers_eq_flatMap : ∀ members : List (String × Json),
    numbersMembers members = members.flatMap fun e => e.2.numbers
  | [] => rfl
  | (_, _) :: rest => by rw [numbersMembers, numbersMembers_eq_flatMap rest, List.flatMap_cons]

/-- What holds of the numbers in a value may be required of them. -/
theorem Stored.imp {ok' : Number → Prop} {v : Json} (h : v.Stored ok depth)
    (himp : ∀ n ∈ v.numbers, ok n → ok' n) : v.Stored ok' depth := by
  induction h with
  | null => exact .null
  | bool b => exact .bool b
  | number hn => exact .number (himp _ (by simp [numbers]) hn)
  | string s => exact .string s
  | array _ ih =>
    refine .array fun v hv => ih v hv fun n hn => himp n ?_
    rw [numbers, numbersItems_eq_flatMap]
    exact List.mem_flatMap.mpr ⟨v, hv, hn⟩
  | object keys _ ih =>
    refine .object keys fun e he => ih e he fun n hn => himp n ?_
    rw [numbers, numbersMembers_eq_flatMap]
    exact List.mem_flatMap.mpr ⟨e, he, hn⟩

/-- Without doubles the numbers of a text are integers of 64 bits. -/
theorem Stored.whole {v : Json} (h : v.Stored Number.Readable depth) (hv : v.NoFloats) :
    v.Stored Number.Whole depth := by
  refine h.imp fun n hn hread => ?_
  cases n with
  | int i => exact ⟨i, rfl, hread⟩
  | float x => exact absurd hn (hv x)

/-! ### What reading gives -/

theorem of_bind_eq_ok {ε α β : Type} {x : Except ε α} {f : α → Except ε β} {b : β}
    (h : (x >>= f) = .ok b) : ∃ a, x = .ok a ∧ f a = .ok b := by
  cases x with
  | error e => cases h
  | ok a => exact ⟨a, rfl, h⟩

/-- The numeral a number is read from. -/
theorem readNumber_ok {negative : Bool} {cs rest : List Char} {x : Number}
    (h : readNumber negative cs = .ok (x, rest)) :
    ∃ n, readNumeral negative cs = .ok (n, rest) ∧ n.value = .ok x := by
  obtain ⟨⟨n, left⟩, hnumeral, h⟩ := of_bind_eq_ok h
  dsimp only at h
  cases hv : n.value with
  | ok y =>
    rw [hv] at h
    obtain ⟨rfl, rfl⟩ := Prod.mk.inj (Except.ok.inj h)
    exact ⟨n, hnumeral, hv⟩
  | error e =>
    rw [hv] at h
    cases e <;> cases h

/-- What a text starts with when a value is read from it. -/
inductive ValueRead (steps depth : Nat) (rest : List Char) : List Char → Json → Prop
  | null {tail : List Char} (word : readWord ['u', 'l', 'l'] tail = .ok rest) :
      ValueRead steps depth rest ('n' :: tail) .null
  | trueWord {tail : List Char} (word : readWord ['r', 'u', 'e'] tail = .ok rest) :
      ValueRead steps depth rest ('t' :: tail) (.bool true)
  | falseWord {tail : List Char} (word : readWord ['a', 'l', 's', 'e'] tail = .ok rest) :
      ValueRead steps depth rest ('f' :: tail) (.bool false)
  | string {tail : List Char} {s : String} (string : readString tail = .ok (s, rest)) :
      ValueRead steps depth rest ('"' :: tail) (.string s)
  | negative {tail : List Char} {x : Number} (number : readNumber true tail = .ok (x, rest)) :
      ValueRead steps depth rest ('-' :: tail) (.number x)
  | number {c : Char} {tail : List Char} {x : Number} (digit : isDigit c)
      (number : readNumber false (c :: tail) = .ok (x, rest)) :
      ValueRead steps depth rest (c :: tail) (.number x)
  | array {k : Nat} {tail : List Char} {items : List Json} (within : depth = k + 1)
      (read : readItems steps k true tail = .ok (items, rest)) :
      ValueRead steps depth rest ('[' :: tail) (.array items)
  | object {k : Nat} {tail : List Char} {members : List (String × Json)} (within : depth = k + 1)
      (read : readMembers steps k true tail = .ok (members, rest)) :
      ValueRead steps depth rest ('\x7b' :: tail) (.object members)

/-- The first character tells what is read. -/
theorem readValue_ok {steps depth : Nat} {cs rest : List Char} {v : Json}
    (h : readValue (steps + 1) depth cs = .ok (v, rest)) :
    ValueRead steps depth rest (skipBlanks cs) v := by
  rw [readValue] at h
  cases hcs : skipBlanks cs with
  | nil => rw [hcs] at h; cases h
  | cons c tail =>
    rw [hcs] at h
    dsimp only at h
    by_cases hn : c = 'n'
    · rw [if_pos hn] at h
      obtain ⟨left, hword, hpair⟩ := of_bind_eq_ok h
      obtain ⟨rfl, rfl⟩ := Prod.mk.inj (Except.ok.inj hpair)
      exact hn ▸ .null hword
    by_cases ht : c = 't'
    · rw [if_neg hn, if_pos ht] at h
      obtain ⟨left, hword, hpair⟩ := of_bind_eq_ok h
      obtain ⟨rfl, rfl⟩ := Prod.mk.inj (Except.ok.inj hpair)
      exact ht ▸ .trueWord hword
    by_cases hf : c = 'f'
    · rw [if_neg hn, if_neg ht, if_pos hf] at h
      obtain ⟨left, hword, hpair⟩ := of_bind_eq_ok h
      obtain ⟨rfl, rfl⟩ := Prod.mk.inj (Except.ok.inj hpair)
      exact hf ▸ .falseWord hword
    by_cases hquote : c = '"'
    · rw [if_neg hn, if_neg ht, if_neg hf, if_pos hquote] at h
      obtain ⟨⟨s, left⟩, hstring, hpair⟩ := of_bind_eq_ok h
      obtain ⟨rfl, rfl⟩ := Prod.mk.inj (Except.ok.inj hpair)
      exact hquote ▸ .string hstring
    by_cases hminus : c = '-'
    · rw [if_neg hn, if_neg ht, if_neg hf, if_neg hquote, if_pos hminus] at h
      obtain ⟨⟨x, left⟩, hnumber, hpair⟩ := of_bind_eq_ok h
      obtain ⟨rfl, rfl⟩ := Prod.mk.inj (Except.ok.inj hpair)
      exact hminus ▸ .negative hnumber
    by_cases hdigit : isDigit c
    · rw [if_neg hn, if_neg ht, if_neg hf, if_neg hquote, if_neg hminus, if_pos hdigit] at h
      obtain ⟨⟨x, left⟩, hnumber, hpair⟩ := of_bind_eq_ok h
      obtain ⟨rfl, rfl⟩ := Prod.mk.inj (Except.ok.inj hpair)
      exact .number hdigit hnumber
    by_cases hlist : c = '['
    · rw [if_neg hn, if_neg ht, if_neg hf, if_neg hquote, if_neg hminus, if_neg hdigit,
        if_pos hlist] at h
      cases depth with
      | zero => cases h
      | succ k =>
        obtain ⟨⟨items, left⟩, hitems, hpair⟩ := of_bind_eq_ok h
        obtain ⟨rfl, rfl⟩ := Prod.mk.inj (Except.ok.inj hpair)
        exact hlist ▸ .array rfl hitems
    by_cases hobject : c = '\x7b'
    · rw [if_neg hn, if_neg ht, if_neg hf, if_neg hquote, if_neg hminus, if_neg hdigit,
        if_neg hlist, if_pos hobject] at h
      cases depth with
      | zero => cases h
      | succ k =>
        obtain ⟨⟨members, left⟩, hmembers, hpair⟩ := of_bind_eq_ok h
        obtain ⟨rfl, rfl⟩ := Prod.mk.inj (Except.ok.inj hpair)
        exact hobject ▸ .object rfl hmembers
    · rw [if_neg hn, if_neg ht, if_neg hf, if_neg hquote, if_neg hminus, if_neg hdigit,
        if_neg hlist, if_neg hobject] at h
      cases h

/-- The items of a list are read one after the other. -/
theorem readItems_ok {steps depth : Nat} {first : Bool} {cs rest : List Char} {items : List Json}
    (h : readItems (steps + 1) depth first cs = .ok (items, rest)) :
    (nextItem first cs = .ok (.stop rest) ∧ items = []) ∨ ∃ inner v left others,
      nextItem first cs = .ok (.more inner) ∧ items = v :: others ∧
      readValue steps depth inner = .ok (v, left) ∧
      readItems steps depth false left = .ok (others, rest) := by
  rw [readItems] at h
  obtain ⟨step, hstep, h⟩ := of_bind_eq_ok h
  cases step with
  | stop left =>
    obtain ⟨rfl, rfl⟩ := Prod.mk.inj (Except.ok.inj h)
    exact .inl ⟨hstep, rfl⟩
  | more inner =>
    obtain ⟨⟨v, left⟩, hv, h⟩ := of_bind_eq_ok h
    obtain ⟨⟨others, last⟩, hothers, h⟩ := of_bind_eq_ok h
    obtain ⟨rfl, rfl⟩ := Prod.mk.inj (Except.ok.inj h)
    exact .inr ⟨inner, v, left, others, hstep, rfl, hv, hothers⟩

/-- The members of an object are read one after the other. -/
theorem readMembers_ok {steps depth : Nat} {first : Bool} {cs rest : List Char}
    {members : List (String × Json)}
    (h : readMembers (steps + 1) depth first cs = .ok (members, rest)) :
    (nextKey first cs = .ok (.stop rest) ∧ members = []) ∨ ∃ member key colon value v left others,
      nextKey first cs = .ok (.more member) ∧ readString member = .ok (key, colon) ∧
      readColon colon = .ok value ∧ members = (key, v) :: others ∧
      readValue steps depth value = .ok (v, left) ∧
      readMembers steps depth false left = .ok (others, rest) := by
  rw [readMembers] at h
  obtain ⟨step, hstep, h⟩ := of_bind_eq_ok h
  cases step with
  | stop left =>
    obtain ⟨rfl, rfl⟩ := Prod.mk.inj (Except.ok.inj h)
    exact .inl ⟨hstep, rfl⟩
  | more member =>
    obtain ⟨⟨key, colon⟩, hkey, h⟩ := of_bind_eq_ok h
    obtain ⟨value, hcolon, h⟩ := of_bind_eq_ok h
    obtain ⟨⟨v, left⟩, hv, h⟩ := of_bind_eq_ok h
    obtain ⟨⟨others, last⟩, hothers, h⟩ := of_bind_eq_ok h
    obtain ⟨rfl, rfl⟩ := Prod.mk.inj (Except.ok.inj h)
    exact .inr ⟨member, key, colon, value, v, left, others, hstep, hkey, hcolon, rfl, hv, hothers⟩

theorem readable_readNumber {negative : Bool} {cs rest : List Char} {n : Number}
    (h : readNumber negative cs = .ok (n, rest)) : n.Readable := by
  obtain ⟨numeral, -, hvalue⟩ := readNumber_ok h
  exact readable_value hvalue

/-- A value that is read is stored, once its repeated keys are merged. -/
theorem stored_readValue (steps : Nat) :
    (∀ depth cs v rest, readValue steps depth cs = .ok (v, rest) →
      v.merged.Stored Number.Readable depth) ∧
    (∀ depth first cs items rest, readItems steps depth first cs = .ok (items, rest) →
      ∀ v ∈ items, v.merged.Stored Number.Readable depth) ∧
    (∀ depth first cs members rest, readMembers steps depth first cs = .ok (members, rest) →
      ∀ e ∈ members, e.2.merged.Stored Number.Readable depth) := by
  induction steps with
  | zero =>
    refine ⟨fun depth cs v rest h => ?_, fun depth first cs items rest h => ?_,
      fun depth first cs members rest h => ?_⟩
    · rw [readValue] at h; cases h
    · rw [readItems] at h; cases h
    · rw [readMembers] at h; cases h
  | succ steps ih =>
    obtain ⟨hvalue, hitems, hmembers⟩ := ih
    refine ⟨fun depth cs v rest h => ?_, fun depth first cs items rest h => ?_,
      fun depth first cs members rest h => ?_⟩
    · have hread := readValue_ok h
      generalize skipBlanks cs = text at hread
      cases hread with
      | null => exact .null
      | trueWord => exact .bool true
      | falseWord => exact .bool false
      | string => exact .string _
      | negative hnumber => exact .number (readable_readNumber hnumber)
      | number _ hnumber => exact .number (readable_readNumber hnumber)
      | array hdepth hread =>
        subst hdepth
        rw [merged, mergedItems_eq_map]
        refine .array fun w hw => ?_
        obtain ⟨u, hu, rfl⟩ := List.mem_map.mp hw
        exact hitems _ true _ _ rest hread u hu
      | object hdepth hread =>
        subst hdepth
        rw [merged, mergedMembers_eq_map]
        refine .object (Entries.nodup_ofList _) fun e he => ?_
        obtain ⟨d, hd, rfl⟩ := List.mem_map.mp (Entries.mem_of_mem_ofList he)
        exact hmembers _ true _ _ rest hread d hd
    · rcases readItems_ok h with ⟨-, rfl⟩ | ⟨inner, v, left, others, -, rfl, hv, hothers⟩
      · exact fun v hv => absurd hv List.not_mem_nil
      · rw [List.forall_mem_cons]
        exact ⟨hvalue depth inner v left hv, hitems depth false left others rest hothers⟩
    · rcases readMembers_ok h with ⟨-, rfl⟩ |
        ⟨member, key, colon, value, v, left, others, -, -, -, rfl, hv, hothers⟩
      · exact fun e he => absurd he List.not_mem_nil
      · rw [List.forall_mem_cons]
        exact ⟨hvalue depth value v left hv, hmembers depth false left others rest hothers⟩

/-- The value of a text is stored. -/
theorem stored_readDocument {text : String} {v : Json} (h : readDocument text = .ok v) :
    v.Stored Number.Readable depthLimit := by
  obtain ⟨⟨w, rest⟩, hread, h⟩ := of_bind_eq_ok h
  obtain ⟨_, -, h⟩ := of_bind_eq_ok h
  rw [← Except.ok.inj h]
  exact (stored_readValue _).1 depthLimit text.toList w rest hread

end Json
end GrammarSync
