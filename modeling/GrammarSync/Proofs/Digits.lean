/-
# Digits and the integers they spell

An integer is written without a needless zero in front (`toDigits_eq_cons`),
and the value of its digits is the integer again (`foldl_toDigits`). Numerals
without a fraction and an exponent have the integers of 64 bits as values, in
both directions: such an integer is the value of its digits (`value_toDigits`,
`value_neg_toDigits`), and no numeral has another integer as its value
(`readable_value`).

Key definitions: `Number.Readable`.
Key theorems: `toDigits_eq_cons`, `foldl_toDigits`, `readWhole_of_lt`,
`readFraction_of_lt`, `value_toDigits`, `value_neg_toDigits`, `readable_value`.
-/
import GrammarSync.Number.Numeral
import Mathlib.Algebra.Group.Int.Defs
import Mathlib.Data.List.Basic

namespace GrammarSync

/-! ### Digits of a number -/

/-- The first digit of a positive number is no zero. -/
theorem toDigits_eq_cons {n : Nat} (hn : n ≠ 0) :
    ∃ c rest, Nat.toDigits 10 n = c :: rest ∧ c ≠ '0' := by
  induction n using Nat.strongRecOn with
  | ind n ih =>
    by_cases hlt : n < 10
    · refine ⟨n.digitChar, [], Nat.toDigits_of_lt_base hlt, ?_⟩
      rwa [Ne, Nat.digitChar_eq_zero]
    · obtain ⟨c, rest, hdigits, hc⟩ := ih (n / 10) (by omega) (by omega)
      refine ⟨c, rest ++ [(n % 10).digitChar], ?_, hc⟩
      rw [Nat.toDigits_of_base_le (by decide) (Nat.le_of_not_lt hlt), hdigits, List.cons_append]

/-- The digits of a number spell it. -/
theorem foldl_toDigits (n : Nat) :
    (Nat.toDigits 10 n).foldl (fun v c => v * 10 + (c.toNat - '0'.toNat)) 0 = n := by
  have hvalue := Nat.ofDigitChars_ten_toDigits (n := n)
  rw [Nat.ofDigitChars_eq_foldl] at hvalue
  simpa only [Nat.mul_comm 10] using hvalue

namespace Numeral

/-! ### The value of digits -/

/-- The number that digits spell behind a number. -/
def spelled (s : Nat) (digits : List Char) : Nat :=
  digits.foldl (fun v c => v * 10 + digitValue c) s

theorem spelled_toDigits (n : Nat) : spelled 0 (Nat.toDigits 10 n) = n :=
  foldl_toDigits n

theorem le_spelled (s : Nat) (digits : List Char) : s ≤ spelled s digits := by
  induction digits generalizing s with
  | nil => exact Nat.le_refl s
  | cons c rest ih =>
    calc s ≤ s * 10 + digitValue c := by omega
      _ ≤ spelled s (c :: rest) := ih _

/-- Digits that spell a number of 64 bits are all used. -/
theorem readWhole_of_lt {s : Nat} {digits : List Char} (h : spelled s digits < significandBound) :
    readWhole s 0 digits = (spelled s digits, 0) := by
  induction digits generalizing s with
  | nil => rfl
  | cons c rest ih =>
    have hnext : s * 10 + digitValue c < significandBound :=
      Nat.lt_of_le_of_lt (le_spelled _ rest) h
    rw [readWhole, if_pos ⟨rfl, hnext⟩]
    exact ih h

/-- Behind the point too, digits are used as long as the significand has 64 bits. -/
theorem readFraction_of_lt {s used : Nat} {digits : List Char}
    (h : spelled s digits < significandBound) :
    readFraction s used digits = (spelled s digits, used + digits.length) := by
  induction digits generalizing s used with
  | nil => rfl
  | cons c rest ih =>
    have hnext : s * 10 + digitValue c < significandBound :=
      Nat.lt_of_le_of_lt (le_spelled _ rest) h
    rw [readFraction, if_pos hnext, ih h, List.length_cons, Nat.add_assoc, Nat.add_comm 1]
    rfl

/-- The significand has 64 bits. -/
theorem readWhole_lt {s k : Nat} (hs : s < significandBound) (digits : List Char) :
    (readWhole s k digits).1 < significandBound := by
  induction digits generalizing s k with
  | nil => exact hs
  | cons c rest ih =>
    rw [readWhole]
    by_cases h : k = 0 ∧ s * 10 + digitValue c < significandBound
    · rw [if_pos h]
      exact ih h.2
    · rw [if_neg h]
      exact ih hs

/-- An integer of 64 bits is the value of its digits. -/
theorem value_toDigits {n : Nat} (h : n < significandBound) :
    value ⟨false, Nat.toDigits 10 n, none, none⟩ = .ok (.int n) := by
  have hwhole : readWhole 0 0 (Nat.toDigits 10 n) = (n, 0) := by
    rw [readWhole_of_lt (by rwa [spelled_toDigits]), spelled_toDigits]
  simp [value, hwhole]

/-- A negative integer of 64 bits is the value of its digits behind a minus sign. -/
theorem value_neg_toDigits {n : Nat} (hn : n ≠ 0) (h : n ≤ Nat.pow 2 63) :
    value ⟨true, Nat.toDigits 10 n, none, none⟩ = .ok (.int (-n)) := by
  have hbound : n < significandBound := Nat.lt_of_le_of_lt h (by decide)
  have hwhole : readWhole 0 0 (Nat.toDigits 10 n) = (n, 0) := by
    rw [readWhole_of_lt (by rwa [spelled_toDigits]), spelled_toDigits]
  have hpos : 0 < n := Nat.pos_of_ne_zero hn
  simp only [value, hwhole]
  rw [if_pos (by simp), if_neg (by simp), if_pos ⟨hpos, h⟩]

end Numeral

/-! ### The values of numerals -/

/-- A number that a text can have: a double, or an integer of 64 bits. -/
def Number.Readable : Number → Prop
  | .int i => -2 ^ 63 ≤ i ∧ i < 2 ^ 64
  | .float _ => True

/-- A signed value is a double with that sign. -/
theorem Numeral.signed_eq_ok {negative : Bool} {scaled : Option Binary64} {y : Number}
    (h : signed negative scaled = .ok y) :
    ∃ x, scaled = some x ∧ y = .float (x.withSign negative) := by
  cases scaled with
  | none => cases h
  | some x => exact ⟨x, rfl, (Except.ok.inj h).symm⟩

theorem Numeral.signed_ne_int {negative : Bool} {scaled : Option Binary64} {i : Int} :
    signed negative scaled ≠ .ok (.int i) := by
  intro h
  obtain ⟨x, -, hx⟩ := signed_eq_ok h
  cases hx

theorem readable_value {n : Numeral} {x : Number} (h : n.value = .ok x) : x.Readable := by
  cases x with
  | float x => exact trivial
  | int i =>
    have hlt : (Numeral.readWhole 0 0 n.whole).1 < Numeral.significandBound :=
      Numeral.readWhole_lt (by decide) n.whole
    unfold Numeral.value at h
    generalize Numeral.readWhole 0 0 n.whole = r at h hlt
    obtain ⟨m, dropped⟩ := r
    have hbound : Numeral.significandBound = 2 ^ 64 := rfl
    have hsmall : Nat.pow 2 63 = 2 ^ 63 := rfl
    simp only [hbound, hsmall] at h hlt
    by_cases hwhole : n.fraction.isNone ∧ n.exponent.isNone ∧ dropped = 0
    · rw [if_pos hwhole] at h
      split at h
      · obtain rfl := Number.int.inj (Except.ok.inj h)
        constructor <;> omega
      · split at h
        · obtain rfl := Number.int.inj (Except.ok.inj h)
          constructor <;> omega
        · exact absurd h Numeral.signed_ne_int
    · rw [if_neg hwhole] at h
      cases he : n.exponent with
      | none =>
        rw [he] at h
        exact absurd h Numeral.signed_ne_int
      | some e =>
        rw [he] at h
        dsimp only at h
        split at h
        · exact absurd h Numeral.signed_ne_int
        · split at h
          · exact nomatch h
          · exact nomatch h

end GrammarSync
