/-
# Printed values are read back

Reading a printed value gives the value and leaves what follows it, in one
line or with one element a line, whatever the blanks in front of it
(`readsBack`). The induction is on the value: each container is read element
by element, and behind every element stands a comma, a line break or the end
of the container, none of which lengthens a number. The reader needs at most
twice as many steps as the printed value has characters.

Key definitions: `ReadsBack`.
Key theorems: `readItems_print`, `readMembers_print`, `readsBack`,
`readDocument_pretty`.
-/
import GrammarSync.Proofs.Stored
import Mathlib.Data.List.Basic

namespace GrammarSync
namespace Json

/-! ### Between the elements of a container -/

theorem nextItem_stop (first pretty : Bool) (depth : Nat) (rest : List Char) :
    nextItem first (lineBreak pretty depth ++ ']' :: rest) = .ok (.stop rest) := by
  rw [nextItem, skipBlanks_lineBreak, skipBlanks_of_not (by decide)]
  rfl

theorem nextItem_first (pretty : Bool) (depth : Nat) {c : Char} (rest : List Char)
    (hblank : isBlank c = false) (hend : c ≠ ']') :
    nextItem true (lineBreak pretty depth ++ c :: rest) = .ok (.more (c :: rest)) := by
  rw [nextItem, skipBlanks_lineBreak, skipBlanks_of_not hblank]
  dsimp only
  rw [if_neg hend, if_pos rfl]

theorem nextItem_next (pretty : Bool) (depth : Nat) {c : Char} (rest : List Char)
    (hblank : isBlank c = false) (hend : c ≠ ']') :
    nextItem false (',' :: (lineBreak pretty depth ++ c :: rest)) = .ok (.more (c :: rest)) := by
  rw [nextItem, skipBlanks_of_not (by decide)]
  dsimp only
  rw [if_neg (by decide), if_neg (by decide), if_pos rfl, skipBlanks_lineBreak,
    skipBlanks_of_not hblank]
  dsimp only
  rw [if_neg hend]

theorem nextKey_stop (first pretty : Bool) (depth : Nat) (rest : List Char) :
    nextKey first (lineBreak pretty depth ++ '\x7d' :: rest) = .ok (.stop rest) := by
  rw [nextKey, skipBlanks_lineBreak, skipBlanks_of_not (by decide)]
  rfl

theorem nextKey_first (pretty : Bool) (depth : Nat) (rest : List Char) :
    nextKey true (lineBreak pretty depth ++ '"' :: rest) = .ok (.more rest) := by
  rw [nextKey, skipBlanks_lineBreak, skipBlanks_of_not (by decide)]
  rfl

theorem nextKey_next (pretty : Bool) (depth : Nat) (rest : List Char) :
    nextKey false (',' :: (lineBreak pretty depth ++ '"' :: rest)) = .ok (.more rest) := by
  rw [nextKey, skipBlanks_of_not (by decide)]
  dsimp only
  rw [if_neg (by decide), if_neg (by decide), if_pos rfl, skipBlanks_lineBreak,
    skipBlanks_of_not (by decide)]
  rfl

/-- Behind a printed colon stands the value, perhaps with a blank in front. -/
theorem readColon_print (pretty : Bool) (rest : List Char) :
    ∃ left, readColon (colon pretty ++ rest) = .ok left ∧ skipBlanks left = skipBlanks rest := by
  cases pretty with
  | false => exact ⟨rest, rfl, rfl⟩
  | true => exact ⟨' ' :: rest, rfl, rfl⟩

theorem endsNumeral_cons {c : Char} (h : c ∈ [',', '\n', ']', '\x7d']) (rest : List Char) :
    EndsNumeral (c :: rest) := by
  rintro d others heq
  obtain ⟨rfl, -⟩ := List.cons.inj heq
  simp only [List.mem_cons, List.not_mem_nil, or_false] at h
  rcases h with rfl | rfl | rfl | rfl <;> decide

/-- A line break or the end of a container behind it ends a numeral. -/
theorem endsNumeral_lineBreak (pretty : Bool) (depth : Nat) {c : Char}
    (h : c ∈ [',', '\n', ']', '\x7d']) (rest : List Char) :
    EndsNumeral (lineBreak pretty depth ++ c :: rest) := by
  cases pretty with
  | false => exact endsNumeral_cons h rest
  | true => exact endsNumeral_cons (by simp) _

/-! ### Printed values -/

theorem ne_of_isDigit {c d : Char} (hc : isDigit c = true) (hd : isDigit d = false) : c ≠ d := by
  rintro rfl
  rw [hc] at hd
  cases hd

theorem isBlank_of_isDigit {c : Char} (hc : isDigit c = true) : isBlank c = false := by
  have hspace : c ≠ ' ' := ne_of_isDigit hc rfl
  have hline : c ≠ '\n' := ne_of_isDigit hc rfl
  have htab : c ≠ '\t' := ne_of_isDigit hc rfl
  have hreturn : c ≠ '\r' := ne_of_isDigit hc rfl
  simp [isBlank, hspace, hline, htab, hreturn]

/-- A printed value starts with a character that is neither blank nor the end of a list. -/
theorem print_eq_cons {v : Json} {depth : Nat} (h : v.Stored Number.Whole depth) (pretty : Bool)
    (inner : Nat) : ∃ c rest, print pretty inner v = c :: rest ∧ isBlank c = false ∧ c ≠ ']' := by
  cases h with
  | null => exact ⟨'n', ['u', 'l', 'l'], rfl, rfl, by decide⟩
  | bool b =>
    cases b with
    | false => exact ⟨'f', ['a', 'l', 's', 'e'], rfl, rfl, by decide⟩
    | true => exact ⟨'t', ['r', 'u', 'e'], rfl, rfl, by decide⟩
  | @number _ n hn =>
    obtain ⟨i, rfl, -⟩ := id hn
    have hends : EndsNumeral [] := fun _ _ h => nomatch h
    obtain ⟨negative, digits, hprint, ⟨c, others, rfl, hc⟩, -⟩ := readNumber_printInt hn hends
    have hnumber : print pretty inner (.number (.int i)) = printInt i := rfl
    rw [hnumber, hprint]
    cases negative with
    | true => exact ⟨'-', _, rfl, rfl, by decide⟩
    | false => exact ⟨c, _, rfl, isBlank_of_isDigit hc, ne_of_isDigit hc rfl⟩
  | string s => exact ⟨'"', _, rfl, rfl, by decide⟩
  | @array _ items _ =>
    cases items with
    | nil => exact ⟨'[', _, rfl, rfl, by decide⟩
    | cons v items => exact ⟨'[', _, rfl, rfl, by decide⟩
  | @object _ members _ _ =>
    cases members with
    | nil => exact ⟨'\x7b', _, rfl, rfl, by decide⟩
    | cons e members => exact ⟨'\x7b', _, rfl, rfl, by decide⟩

theorem skipBlanks_print {v : Json} {depth : Nat} (h : v.Stored Number.Whole depth) {pretty : Bool}
    {inner : Nat} {rest : List Char} :
    skipBlanks (print pretty inner v ++ rest) = print pretty inner v ++ rest := by
  obtain ⟨c, others, hprint, hblank, -⟩ := print_eq_cons h pretty inner
  rw [hprint, List.cons_append, skipBlanks_of_not hblank]

/-- A value is read back wherever it is printed, with the text behind it left over. -/
def ReadsBack (v : Json) : Prop :=
  ∀ (pretty : Bool) (inner steps depth : Nat) (cs rest : List Char),
    v.Stored Number.Whole depth → skipBlanks cs = print pretty inner v ++ rest →
      2 * (print pretty inner v).length ≤ steps → EndsNumeral rest →
        readValue steps depth cs = .ok (v, rest)

theorem readItems_of_more {steps depth : Nat} {first : Bool} {cs inner left rest : List Char}
    {v : Json} {items : List Json} (hstep : nextItem first cs = .ok (.more inner))
    (hv : readValue steps depth inner = .ok (v, left))
    (hitems : readItems steps depth false left = .ok (items, rest)) :
    readItems (steps + 1) depth first cs = .ok (v :: items, rest) := by
  rw [readItems, hstep]
  simp only [bind, Except.bind, hv, hitems]

theorem readMembers_of_more {steps depth : Nat} {first : Bool}
    {cs inner behindKey behindColon left rest : List Char} {key : String} {v : Json}
    {members : List (String × Json)} (hstep : nextKey first cs = .ok (.more inner))
    (hkey : readString inner = .ok (key, behindKey))
    (hcolon : readColon behindKey = .ok behindColon)
    (hv : readValue steps depth behindColon = .ok (v, left))
    (hmembers : readMembers steps depth false left = .ok (members, rest)) :
    readMembers (steps + 1) depth first cs = .ok ((key, v) :: members, rest) := by
  rw [readMembers, hstep]
  simp only [bind, Except.bind, hkey, hcolon, hv, hmembers]

/-- What stands behind an item ends a numeral. -/
theorem endsNumeral_items (pretty : Bool) (inner outer : Nat) (items : List Json)
    (rest : List Char) : EndsNumeral
      (printItems pretty inner items ++ (lineBreak pretty outer ++ ']' :: rest)) := by
  cases items with
  | nil => exact endsNumeral_lineBreak pretty outer (by simp) rest
  | cons v items => exact endsNumeral_cons (by simp) _

theorem endsNumeral_members (pretty : Bool) (inner outer : Nat) (members : List (String × Json))
    (rest : List Char) : EndsNumeral
      (printMembers pretty inner members ++ (lineBreak pretty outer ++ '\x7d' :: rest)) := by
  cases members with
  | nil => exact endsNumeral_lineBreak pretty outer (by simp) rest
  | cons e members => exact endsNumeral_cons (by simp) _

/-- The items behind the first are read back up to the end of their list. -/
theorem readItems_print {items : List Json} (hback : ∀ v ∈ items, ReadsBack v) (pretty : Bool)
    (inner outer depth : Nat) (rest : List Char) :
    ∀ steps, (∀ v ∈ items, v.Stored Number.Whole depth) →
      2 * (printItems pretty inner items).length + 2 ≤ steps →
        readItems steps depth false
          (printItems pretty inner items ++ (lineBreak pretty outer ++ ']' :: rest)) =
            .ok (items, rest) := by
  induction items with
  | nil =>
    intro steps _ hsteps
    obtain ⟨steps, rfl⟩ := Nat.exists_eq_add_of_le' (show 1 ≤ steps by omega)
    rw [printItems, List.nil_append, readItems, nextItem_stop]
    rfl
  | cons v items ih =>
    intro steps hstored hsteps
    rw [List.forall_mem_cons] at hback hstored
    obtain ⟨steps, rfl⟩ := Nat.exists_eq_add_of_le' (show 1 ≤ steps by omega)
    simp only [printItems, List.cons_append, List.append_assoc, List.length_cons,
      List.length_append] at hsteps ⊢
    have htail := endsNumeral_items pretty inner outer items rest
    have hv := hback.1 pretty inner steps depth _ _ hstored.1 (skipBlanks_print hstored.1)
      (by omega) htail
    refine readItems_of_more ?_ hv (ih hback.2 steps hstored.2 (by omega))
    obtain ⟨c, others, hprint, hblank, hend⟩ := print_eq_cons hstored.1 pretty inner
    rw [hprint, List.cons_append]
    exact nextItem_next pretty inner _ hblank hend

/-- The members behind the first are read back up to the end of their object. -/
theorem readMembers_print {members : List (String × Json)} (hback : ∀ e ∈ members, ReadsBack e.2)
    (pretty : Bool) (inner outer depth : Nat) (rest : List Char) :
    ∀ steps, (∀ e ∈ members, e.2.Stored Number.Whole depth) →
      2 * (printMembers pretty inner members).length + 2 ≤ steps →
        readMembers steps depth false
          (printMembers pretty inner members ++ (lineBreak pretty outer ++ '\x7d' :: rest)) =
            .ok (members, rest) := by
  induction members with
  | nil =>
    intro steps _ hsteps
    obtain ⟨steps, rfl⟩ := Nat.exists_eq_add_of_le' (show 1 ≤ steps by omega)
    rw [printMembers, List.nil_append, readMembers, nextKey_stop]
    rfl
  | cons e members ih =>
    intro steps hstored hsteps
    obtain ⟨key, v⟩ := e
    rw [List.forall_mem_cons] at hback hstored
    dsimp only at hback hstored
    obtain ⟨steps, rfl⟩ := Nat.exists_eq_add_of_le' (show 1 ≤ steps by omega)
    simp only [printMembers, printString, List.cons_append, List.append_assoc, List.length_cons,
      List.length_append, List.nil_append] at hsteps ⊢
    have htail := endsNumeral_members pretty inner outer members rest
    obtain ⟨behindColon, hcolon, hskip⟩ := readColon_print pretty (print pretty inner v ++
      (printMembers pretty inner members ++ (lineBreak pretty outer ++ '\x7d' :: rest)))
    rw [skipBlanks_print hstored.1] at hskip
    have hv := hback.1 pretty inner steps depth behindColon _ hstored.1 hskip (by omega) htail
    refine readMembers_of_more (nextKey_next pretty inner _) (readString_print key _) hcolon hv ?_
    exact ih hback.2 steps hstored.2 (by omega)

/-- A printed list is read back from behind its opening bracket. -/
theorem readItems_array {items : List Json} (hback : ∀ v ∈ items, ReadsBack v) (pretty : Bool)
    (inner : Nat) (rest : List Char) {depth : Nat}
    (hstored : ∀ v ∈ items, v.Stored Number.Whole depth) :
    ∃ text, print pretty inner (.array items) ++ rest = '[' :: text ∧ ∀ steps,
      2 * (print pretty inner (.array items)).length ≤ steps + 1 →
        readItems steps depth true text = .ok (items, rest) := by
  cases items with
  | nil =>
    refine ⟨']' :: rest, rfl, fun steps hsteps => ?_⟩
    have hlength : (print pretty inner (.array [])).length = 2 := rfl
    obtain ⟨steps, rfl⟩ := Nat.exists_eq_add_of_le' (show 1 ≤ steps by omega)
    have hstop : nextItem true (']' :: rest) = .ok (.stop rest) := nextItem_stop true false 0 rest
    rw [readItems, hstop]
    rfl
  | cons v items =>
    rw [List.forall_mem_cons] at hback hstored
    refine ⟨lineBreak pretty (inner + 1) ++ (print pretty (inner + 1) v ++
      (printItems pretty (inner + 1) items ++ (lineBreak pretty inner ++ ']' :: rest))), ?_,
      fun steps hsteps => ?_⟩
    · simp only [print, List.cons_append, List.append_assoc, List.nil_append]
    · simp only [print, List.cons_append, List.append_assoc, List.length_cons, List.length_append,
        List.length_nil] at hsteps
      obtain ⟨steps, rfl⟩ := Nat.exists_eq_add_of_le' (show 1 ≤ steps by omega)
      have htail := endsNumeral_items pretty (inner + 1) inner items rest
      have hv := hback.1 pretty (inner + 1) steps depth _ _ hstored.1 (skipBlanks_print hstored.1)
        (by omega) htail
      have hitems := readItems_print hback.2 pretty (inner + 1) inner depth rest steps hstored.2
        (by omega)
      refine readItems_of_more ?_ hv hitems
      obtain ⟨c, others, hprint, hblank, hend⟩ := print_eq_cons hstored.1 pretty (inner + 1)
      rw [hprint, List.cons_append]
      exact nextItem_first pretty (inner + 1) _ hblank hend

/-- A printed object is read back from behind its opening brace. -/
theorem readMembers_object {members : List (String × Json)}
    (hback : ∀ e ∈ members, ReadsBack e.2) (pretty : Bool) (inner : Nat) (rest : List Char)
    {depth : Nat} (hstored : ∀ e ∈ members, e.2.Stored Number.Whole depth) :
    ∃ text, print pretty inner (.object members) ++ rest = '\x7b' :: text ∧ ∀ steps,
      2 * (print pretty inner (.object members)).length ≤ steps + 1 →
        readMembers steps depth true text = .ok (members, rest) := by
  cases members with
  | nil =>
    refine ⟨'\x7d' :: rest, rfl, fun steps hsteps => ?_⟩
    have hlength : (print pretty inner (.object [])).length = 2 := rfl
    obtain ⟨steps, rfl⟩ := Nat.exists_eq_add_of_le' (show 1 ≤ steps by omega)
    have hstop : nextKey true ('\x7d' :: rest) = .ok (.stop rest) := nextKey_stop true false 0 rest
    rw [readMembers, hstop]
    rfl
  | cons e members =>
    obtain ⟨key, v⟩ := e
    rw [List.forall_mem_cons] at hback hstored
    dsimp only at hback hstored
    refine ⟨lineBreak pretty (inner + 1) ++ '"' :: (key.toList.flatMap printChar ++ '"' ::
      (colon pretty ++ (print pretty (inner + 1) v ++ (printMembers pretty (inner + 1) members ++
        (lineBreak pretty inner ++ '\x7d' :: rest))))), ?_, fun steps hsteps => ?_⟩
    · simp only [print, printString, List.cons_append, List.append_assoc, List.nil_append]
    · simp only [print, printString, List.cons_append, List.append_assoc, List.length_cons,
        List.length_append, List.length_nil] at hsteps
      obtain ⟨steps, rfl⟩ := Nat.exists_eq_add_of_le' (show 1 ≤ steps by omega)
      have htail := endsNumeral_members pretty (inner + 1) inner members rest
      obtain ⟨behindColon, hcolon, hskip⟩ := readColon_print pretty (print pretty (inner + 1) v ++
        (printMembers pretty (inner + 1) members ++ (lineBreak pretty inner ++ '\x7d' :: rest)))
      rw [skipBlanks_print hstored.1] at hskip
      have hv := hback.1 pretty (inner + 1) steps depth behindColon _ hstored.1 hskip (by omega)
        htail
      have hmembers := readMembers_print hback.2 pretty (inner + 1) inner depth rest steps
        hstored.2 (by omega)
      exact readMembers_of_more (nextKey_first pretty (inner + 1) _) (readString_print key _) hcolon
        hv hmembers

theorem length_print_array (pretty : Bool) (inner : Nat) (items : List Json) :
    2 ≤ (print pretty inner (.array items)).length := by
  cases items with
  | nil => exact Nat.le_refl 2
  | cons v items =>
    simp only [print, List.cons_append, List.length_cons, List.length_append]
    omega

theorem length_print_object (pretty : Bool) (inner : Nat) (members : List (String × Json)) :
    2 ≤ (print pretty inner (.object members)).length := by
  cases members with
  | nil => exact Nat.le_refl 2
  | cons e members =>
    simp only [print, List.cons_append, List.length_cons, List.length_append]
    omega

theorem readsBack_number (n : Number) : ReadsBack (.number n) := by
  intro pretty inner steps depth cs rest hstored hcs hsteps hrest
  cases hstored with
  | number hn =>
    obtain ⟨i, rfl, -⟩ := id hn
    obtain ⟨negative, digits, hprint, ⟨c, others, rfl, hc⟩, hread⟩ := readNumber_printInt hn hrest
    have hnumber : print pretty inner (.number (.int i)) = printInt i := rfl
    rw [hnumber, hprint] at hcs hsteps
    simp only [List.length_append, List.length_cons] at hsteps
    obtain ⟨steps, rfl⟩ := Nat.exists_eq_add_of_le' (show 1 ≤ steps by omega)
    cases negative with
    | true =>
      have hminus : skipBlanks cs = '-' :: (c :: others ++ rest) := hcs
      rw [readValue, hminus]
      show (readNumber true (c :: others ++ rest) >>= _) = _
      rw [hread]
      rfl
    | false =>
      have hdigit : skipBlanks cs = c :: (others ++ rest) := hcs
      rw [readValue, hdigit]
      dsimp only
      rw [if_neg (ne_of_isDigit hc rfl), if_neg (ne_of_isDigit hc rfl),
        if_neg (ne_of_isDigit hc rfl), if_neg (ne_of_isDigit hc rfl),
        if_neg (ne_of_isDigit hc rfl), if_pos hc, ← List.cons_append, hread]
      rfl

/-- Every stored value is read back wherever it is printed. -/
theorem readsBack (v : Json) : ReadsBack v := by
  induction v using Json.induction with
  | null =>
    intro pretty inner steps depth cs rest hstored hcs hsteps hrest
    have hprint : print pretty inner .null = ['n', 'u', 'l', 'l'] := rfl
    rw [hprint] at hcs hsteps
    obtain ⟨steps, rfl⟩ := Nat.exists_eq_add_of_le' (show 1 ≤ steps by simp at hsteps; omega)
    rw [readValue, hcs]
    rfl
  | bool b =>
    intro pretty inner steps depth cs rest hstored hcs hsteps hrest
    cases b with
    | false =>
      have hprint : print pretty inner (.bool false) = ['f', 'a', 'l', 's', 'e'] := rfl
      rw [hprint] at hcs hsteps
      obtain ⟨steps, rfl⟩ := Nat.exists_eq_add_of_le' (show 1 ≤ steps by simp at hsteps; omega)
      rw [readValue, hcs]
      rfl
    | true =>
      have hprint : print pretty inner (.bool true) = ['t', 'r', 'u', 'e'] := rfl
      rw [hprint] at hcs hsteps
      obtain ⟨steps, rfl⟩ := Nat.exists_eq_add_of_le' (show 1 ≤ steps by simp at hsteps; omega)
      rw [readValue, hcs]
      rfl
  | number n => exact readsBack_number n
  | string s =>
    intro pretty inner steps depth cs rest hstored hcs hsteps hrest
    have hprint : print pretty inner (.string s) = '"' :: s.toList.flatMap printChar ++ ['"'] := rfl
    rw [hprint] at hcs hsteps
    simp only [List.cons_append, List.append_assoc, List.length_cons, List.length_append,
      List.nil_append] at hcs hsteps
    obtain ⟨steps, rfl⟩ := Nat.exists_eq_add_of_le' (show 1 ≤ steps by omega)
    rw [readValue, hcs]
    show (readString (s.toList.flatMap printChar ++ '"' :: rest) >>= _) = _
    rw [readString_print]
    rfl
  | array items ih =>
    intro pretty inner steps depth cs rest hstored hcs hsteps hrest
    cases hstored with
    | @array depth _ hitems =>
      obtain ⟨text, htext, hread⟩ := readItems_array ih pretty inner rest hitems
      rw [htext] at hcs
      have hpos := length_print_array pretty inner items
      obtain ⟨steps, rfl⟩ := Nat.exists_eq_add_of_le' (show 1 ≤ steps by omega)
      rw [readValue, hcs]
      show (readItems steps depth true text >>= _) = _
      rw [hread steps hsteps]
      rfl
  | object members ih =>
    intro pretty inner steps depth cs rest hstored hcs hsteps hrest
    cases hstored with
    | @object depth _ hkeys hmembers =>
      obtain ⟨text, htext, hread⟩ := readMembers_object ih pretty inner rest hmembers
      rw [htext] at hcs
      have hpos := length_print_object pretty inner members
      obtain ⟨steps, rfl⟩ := Nat.exists_eq_add_of_le' (show 1 ≤ steps by omega)
      rw [readValue, hcs]
      show (readMembers steps depth true text >>= _) = _
      rw [hread steps hsteps]
      rfl

/-- A stored value is read back from its text, in which a line break stands behind it. -/
theorem readDocument_pretty {v : Json} (h : v.Stored Number.Whole depthLimit) :
    readDocument (v.pretty ++ "\n") = .ok v := by
  have htext : (v.pretty ++ "\n").toList = print true 0 v ++ ['\n'] := by
    rw [String.toList_append, pretty, String.toList_ofList]
    rfl
  have hread : readValue (stepsFor (print true 0 v ++ ['\n'])) depthLimit
      (print true 0 v ++ ['\n']) = .ok (v, ['\n']) := by
    refine readsBack v true 0 _ depthLimit _ ['\n'] h (skipBlanks_print h) ?_
      (endsNumeral_cons (by simp) [])
    rw [stepsFor, List.length_append]
    omega
  rw [readDocument, htext]
  show (readValue (stepsFor (print true 0 v ++ ['\n'])) depthLimit
    (print true 0 v ++ ['\n']) >>= _) = _
  rw [hread]
  show Except.ok v.merged = _
  rw [merged_eq_self v h.distinctKeys]

end Json
end GrammarSync
