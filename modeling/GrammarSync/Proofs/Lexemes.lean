/-
# Tokens of JSON, printed and read back

A printed string is read back whatever characters it has: one character at a
time, each with its own escape (`readChars_printChar`, `readString_print`). A
printed integer is read back if it has 64 bits and what follows does not
lengthen it (`readNumber_printInt`, `EndsNumeral`).

Key definitions: `EndsNumeral`, `Number.Whole`.
Key theorems: `readChars_printChar`, `readString_print`, `skipBlanks_lineBreak`,
`readNumber_printInt`.
-/
import GrammarSync.Json.Lexical
import GrammarSync.Json.Printer
import GrammarSync.Proofs.Digits
import Mathlib.Data.List.Basic

namespace GrammarSync
namespace Json

/-! ### Strings -/

/-- The hexadecimal digits of a control character give its number again. -/
theorem readHex_control {n : Nat} (h : n < 0x20) (tail : List Char) :
    readHex ('0' :: '0' :: hexDigit (n / 16) :: hexDigit (n % 16) :: tail) = .ok n := by
  have hall : ∀ n < 0x20, Text.byteCount ['0', '0', hexDigit (n / 16), hexDigit (n % 16)] = 4 ∧
      hexNumber? ['0', '0', hexDigit (n / 16), hexDigit (n % 16)] = some n := by
    decide
  obtain ⟨hcount, hnumber⟩ := hall n h
  have htake : ('0' :: '0' :: hexDigit (n / 16) :: hexDigit (n % 16) :: tail).take 4 =
      ['0', '0', hexDigit (n / 16), hexDigit (n % 16)] := rfl
  rw [readHex, htake, hcount, hnumber, if_neg (by decide)]

theorem readEscape_control {n : Nat} (h : n < 0x20) (tail : List Char) :
    readEscape ('u' :: '0' :: '0' :: hexDigit (n / 16) :: hexDigit (n % 16) :: tail) =
      .ok (Char.ofNat n, 5) := by
  have hhex := readHex_control h tail
  have hlow : isLowSurrogate n = false := by
    simp only [isLowSurrogate, Bool.and_eq_false_imp, decide_eq_true_eq, decide_eq_false_iff_not]
    omega
  have hhigh : isHighSurrogate n = false := by
    simp only [isHighSurrogate, Bool.and_eq_false_imp, decide_eq_true_eq, decide_eq_false_iff_not]
    omega
  rw [readEscape, hhex]
  simp [bind, Except.bind, hlow, hhigh]

theorem readChars_skip (body tail : List Char) :
    readChars body.length (body ++ tail) = readChars 0 tail := by
  induction body with
  | nil => rfl
  | cons c body ih => rw [List.length_cons, List.cons_append, readChars, ih]

/-- An escape gives its character, and reading goes on behind it. -/
theorem readChars_escape {c : Char} (body tail : List Char)
    (h : readEscape (body ++ tail) = .ok (c, body.length)) :
    readChars 0 ('\\' :: body ++ tail) = (readChars 0 tail).map fun p => (c :: p.1, p.2) := by
  rw [List.cons_append, readChars, if_neg (by decide), if_pos rfl, h]
  dsimp only
  rw [readChars_skip]
  cases readChars 0 tail <;> rfl

/-- A printed character is read back, and reading goes on behind it. -/
theorem readChars_printChar (c : Char) (tail : List Char) : readChars 0 (printChar c ++ tail) =
    (readChars 0 tail).map fun p => (c :: p.1, p.2) := by
  unfold printChar
  split
  · exact readChars_escape ['"'] tail rfl
  · exact readChars_escape ['\\'] tail rfl
  · exact readChars_escape ['b'] tail rfl
  · exact readChars_escape ['f'] tail rfl
  · exact readChars_escape ['n'] tail rfl
  · exact readChars_escape ['r'] tail rfl
  · exact readChars_escape ['t'] tail rfl
  · rename_i hquote hbackslash _ _ _ _ _
    by_cases hcontrol : c.toNat < 0x20
    · rw [if_pos hcontrol]
      have hescape := readEscape_control hcontrol tail
      rw [Char.ofNat_toNat] at hescape
      exact readChars_escape _ tail hescape
    · rw [if_neg hcontrol, List.singleton_append, readChars, if_neg hquote, if_neg hbackslash,
        if_neg hcontrol]
      cases readChars 0 tail <;> rfl

/-- A printed string is read back from behind its opening quotation mark. -/
theorem readString_print (s : String) (rest : List Char) :
    readString (s.toList.flatMap printChar ++ '"' :: rest) = .ok (s, rest) := by
  have hchars : ∀ cs : List Char,
      readChars 0 (cs.flatMap printChar ++ '"' :: rest) = .ok (cs, rest) := by
    intro cs
    induction cs with
    | nil => rw [List.flatMap_nil, List.nil_append, readChars, if_pos rfl]
    | cons c cs ih =>
      rw [List.flatMap_cons, List.append_assoc, readChars_printChar, ih]
      rfl
  rw [readString, hchars]
  show Except.ok (String.ofList s.toList, rest) = _
  rw [String.ofList_toList]

/-! ### Blanks -/

theorem skipBlanks_of_not {c : Char} (h : isBlank c = false) (rest : List Char) :
    skipBlanks (c :: rest) = c :: rest := by
  rw [skipBlanks, List.dropWhile_cons_of_neg (by rw [h]; exact Bool.false_ne_true)]

/-- What stands in front of an element is blank. -/
theorem skipBlanks_lineBreak (pretty : Bool) (depth : Nat) (rest : List Char) :
    skipBlanks (lineBreak pretty depth ++ rest) = skipBlanks rest := by
  cases pretty with
  | false => rfl
  | true =>
    have hblanks : ∀ n, skipBlanks (List.replicate n ' ' ++ rest) = skipBlanks rest := by
      intro n
      induction n with
      | zero => rfl
      | succ n ih =>
        rw [List.replicate_succ, List.cons_append, skipBlanks, List.dropWhile_cons_of_pos (by decide)]
        exact ih
    rw [lineBreak, if_pos rfl, List.cons_append, skipBlanks, List.dropWhile_cons_of_pos (by decide)]
    exact hblanks _

/-! ### Integers -/

/-- The text does not lengthen a numeral in front of it. -/
def EndsNumeral (cs : List Char) : Prop :=
  ∀ c rest, cs = c :: rest → isDigit c = false ∧ c ≠ '.' ∧ c ≠ 'e' ∧ c ≠ 'E'

theorem readFraction_of_ends {rest : List Char} (h : EndsNumeral rest) :
    readFraction rest = .ok (none, rest) := by
  cases rest with
  | nil => rfl
  | cons c rest =>
    obtain ⟨-, hpoint, -, -⟩ := h c rest rfl
    rw [readFraction]
    intro others heq
    exact absurd (List.cons.inj heq).1 hpoint

theorem readExponent_of_ends {rest : List Char} (h : EndsNumeral rest) :
    readExponent rest = .ok (none, rest) := by
  cases rest with
  | nil => rfl
  | cons c rest =>
    obtain ⟨-, -, he, hE⟩ := h c rest rfl
    rw [readExponent, if_neg (by simp [he, hE])]

theorem takeWhile_of_ends {rest : List Char} (h : EndsNumeral rest) :
    rest.takeWhile isDigit = [] ∧ rest.dropWhile isDigit = rest := by
  cases rest with
  | nil => exact ⟨rfl, rfl⟩
  | cons c rest =>
    obtain ⟨hdigit, -⟩ := h c rest rfl
    have hneg : ¬ isDigit c = true := by simp [hdigit]
    exact ⟨List.takeWhile_cons_of_neg hneg, List.dropWhile_cons_of_neg hneg⟩

theorem isDigit_of_mem_toDigits {n : Nat} {c : Char} (h : c ∈ Nat.toDigits 10 n) :
    isDigit c = true := by
  have hdigit : c.isDigit = true := Nat.isDigit_of_mem_toDigits (by decide) (by decide) h
  simp only [Char.isDigit, Bool.and_eq_true, decide_eq_true_eq] at hdigit
  simp only [isDigit, Bool.and_eq_true, decide_eq_true_eq]
  exact hdigit

/-- The digits of a number are read back as the digits in front of a point. -/
theorem readWhole_toDigits (n : Nat) {rest : List Char} (h : EndsNumeral rest) :
    readWhole (Nat.toDigits 10 n ++ rest) = .ok (Nat.toDigits 10 n, rest) := by
  by_cases hn : n = 0
  · subst hn
    rw [Nat.toDigits_zero, List.singleton_append]
    cases rest with
    | nil => rfl
    | cons d rest =>
      obtain ⟨hdigit, -⟩ := h d rest rfl
      simp only [readWhole, hdigit, if_pos, Bool.false_eq_true, if_false]
  · obtain ⟨c, digits, heq, hc⟩ := toDigits_eq_cons hn
    have hall : ∀ d ∈ c :: digits, isDigit d = true := fun d hd =>
      isDigit_of_mem_toDigits (heq ▸ hd)
    rw [List.forall_mem_cons] at hall
    obtain ⟨htake, hdrop⟩ := takeWhile_of_ends h
    rw [heq, List.cons_append, readWhole.eq_def]
    dsimp only
    rw [if_neg hc, if_pos hall.1, List.takeWhile_append_of_pos hall.2,
      List.dropWhile_append_of_pos hall.2, htake, hdrop, List.append_nil]

/-- The digits of a number are read back as a numeral. -/
theorem readNumeral_toDigits (negative : Bool) (n : Nat) {rest : List Char} (h : EndsNumeral rest) :
    readNumeral negative (Nat.toDigits 10 n ++ rest) =
      .ok (⟨negative, Nat.toDigits 10 n, none, none⟩, rest) := by
  rw [readNumeral, readWhole_toDigits n h]
  show (readFraction rest >>= _) = _
  rw [readFraction_of_ends h]
  show (readExponent rest >>= _) = _
  rw [readExponent_of_ends h]
  rfl

end Json

/-- An integer of 64 bits. -/
def Number.Whole (n : Number) : Prop :=
  ∃ i, n = .int i ∧ -2 ^ 63 ≤ i ∧ i < 2 ^ 64

namespace Json

theorem readNumber_toDigits {negative : Bool} {n : Nat} {x : Number} {rest : List Char}
    (hrest : EndsNumeral rest)
    (hvalue : Numeral.value ⟨negative, Nat.toDigits 10 n, none, none⟩ = .ok x) :
    readNumber negative (Nat.toDigits 10 n ++ rest) = .ok (x, rest) := by
  rw [readNumber, readNumeral_toDigits negative n hrest]
  simp [bind, Except.bind, hvalue]

/-- A printed integer is its digits, or its digits behind a minus sign, and is read back from
them. -/
theorem readNumber_printInt {i : Int} (h : (Number.int i).Whole) {rest : List Char}
    (hrest : EndsNumeral rest) : ∃ negative, ∃ digits : List Char,
      printInt i = (if negative then ['-'] else []) ++ digits ∧
      (∃ c others, digits = c :: others ∧ isDigit c = true) ∧
      readNumber negative (digits ++ rest) = .ok (.int i, rest) := by
  obtain ⟨_, heq, hlow, hhigh⟩ := h
  obtain rfl := Number.int.inj heq
  have hdigits : ∃ c others, Nat.toDigits 10 i.natAbs = c :: others ∧ isDigit c = true := by
    obtain ⟨c, others, hcons⟩ := List.exists_cons_of_ne_nil (Nat.toDigits_ne_nil (b := 10) (n := i.natAbs))
    exact ⟨c, others, hcons, isDigit_of_mem_toDigits (hcons ▸ List.mem_cons_self)⟩
  by_cases hneg : i < 0
  · refine ⟨true, Nat.toDigits 10 i.natAbs, by rw [printInt, if_pos hneg]; rfl, hdigits, ?_⟩
    have hvalue := Numeral.value_neg_toDigits (n := i.natAbs) (by omega) (by
      show i.natAbs ≤ 2 ^ 63
      omega)
    rw [show -(i.natAbs : Int) = i by omega] at hvalue
    exact readNumber_toDigits hrest hvalue
  · refine ⟨false, Nat.toDigits 10 i.natAbs, by rw [printInt, if_neg hneg]; rfl, hdigits, ?_⟩
    have hvalue := Numeral.value_toDigits (n := i.natAbs) (by
      show i.natAbs < 2 ^ 64
      omega)
    rw [show (i.natAbs : Int) = i by omega] at hvalue
    exact readNumber_toDigits hrest hvalue

end Json
end GrammarSync
