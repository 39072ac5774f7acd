/-
# Numerals as they are spelled

A numeral stands in a text as a sign, digits, perhaps a point with digits
behind it and perhaps an exponent (`Numeral.SpelledAs`); reading a numeral
takes exactly the characters that spell it (`readNumeral_spelled`). Its whole
part has no needless zero in front, so that a whole numeral is spelled as the
integer it stands for is written (`toDigits_of_canonical`).

A double written positionally has a sign, digits and at most one point
(`write_positional`, `mem_plain`). The digits of a whole number, and digits
around a point that do not end in a zero, are written as they were
(`plain_ofUnits_whole`, `plain_ofUnits_fraction`); a fraction that does end in
a zero is written only for a decimal without digits
(`positional_of_getLast?`).

Key definitions: `Exponent.SpelledAs`, `Canonical`, `Numeral.SpelledAs`,
`Decimal.plain`.
Key theorems: `readNumeral_spelled`, `toDigits_of_canonical`,
`plain_ofUnits_whole`, `plain_ofUnits_fraction`, `positional_of_getLast?`,
`write_positional`.
-/
import GrammarSync.Number.Layout
import GrammarSync.Proofs.Lexemes
import GrammarSync.Proofs.Stored
import Mathlib.Data.List.DropRight
import Mathlib.Data.List.TakeWhile

namespace GrammarSync

open Json

/-! ### The characters of a numeral -/

/-- An exponent is spelled with either letter, and with a plus sign or none if it is not
negative. -/
def Exponent.SpelledAs (e : Exponent) (cs : List Char) : Prop :=
  ∃ letter sign, (letter = 'e' ∨ letter = 'E') ∧
    (if e.negative then sign = ['-'] else sign = [] ∨ sign = ['+']) ∧
    cs = letter :: (sign ++ e.digits)

/-- What may stand behind the digits of a numeral. -/
def Exponent.OptionSpelledAs : Option Exponent → List Char → Prop
  | none, cs => cs = []
  | some e, cs => e.SpelledAs cs

/-- Digits without a needless zero in front. -/
def Canonical (digits : List Char) : Prop :=
  (∀ c ∈ digits, isDigit c = true) ∧ (digits = ['0'] ∨ ∃ c rest, digits = c :: rest ∧ c ≠ '0')

theorem canonical_zero : Canonical ['0'] :=
  ⟨fun c hc => by rw [List.mem_singleton.mp hc]; rfl, .inl rfl⟩

namespace Numeral

/-- The point and the digits behind it. -/
def fractionText : Option (List Char) → List Char
  | none => []
  | some digits => '.' :: digits

/-- What stands in front of the exponent. -/
def mantissa (n : Numeral) : List Char :=
  (if n.negative then ['-'] else []) ++ n.whole ++ fractionText n.fraction

/-- The numeral is well-formed and spelled so. -/
structure SpelledAs (n : Numeral) (cs : List Char) : Prop where
  whole : Canonical n.whole
  fraction : ∀ digits, n.fraction = some digits → digits ≠ [] ∧ ∀ c ∈ digits, isDigit c = true
  spelled : ∃ exponent, Exponent.OptionSpelledAs n.exponent exponent ∧ cs = n.mantissa ++ exponent

end Numeral

namespace Json

theorem readWhole_spelled {cs digits rest : List Char} (h : readWhole cs = .ok (digits, rest)) :
    cs = digits ++ rest ∧ Canonical digits := by
  cases cs with
  | nil => cases h
  | cons c tail =>
    rw [readWhole.eq_def] at h
    dsimp only at h
    by_cases hzero : c = '0'
    · rw [if_pos hzero] at h
      subst hzero
      cases tail with
      | nil =>
        obtain ⟨rfl, rfl⟩ := Prod.mk.inj (Except.ok.inj h)
        exact ⟨rfl, canonical_zero⟩
      | cons d others =>
        dsimp only at h
        split at h
        · cases h
        · obtain ⟨rfl, rfl⟩ := Prod.mk.inj (Except.ok.inj h)
          exact ⟨rfl, canonical_zero⟩
    · rw [if_neg hzero] at h
      split at h
      · rename_i hdigit
        obtain ⟨rfl, rfl⟩ := Prod.mk.inj (Except.ok.inj h)
        refine ⟨by rw [List.cons_append, List.takeWhile_append_dropWhile], ?_,
          .inr ⟨c, _, rfl, hzero⟩⟩
        rw [List.forall_mem_cons]
        exact ⟨hdigit, fun d hd => List.mem_takeWhile_imp hd⟩
      · cases h

theorem readFraction_spelled {cs rest : List Char} {fraction : Option (List Char)}
    (h : readFraction cs = .ok (fraction, rest)) :
    cs = Numeral.fractionText fraction ++ rest ∧
    ∀ digits, fraction = some digits → digits ≠ [] ∧ ∀ c ∈ digits, isDigit c = true := by
  unfold readFraction at h
  split at h
  · rename_i tail
    cases tail with
    | nil => cases h
    | cons c others =>
      dsimp only at h
      by_cases hdigit : isDigit c = true
      · rw [if_pos hdigit] at h
        obtain ⟨rfl, rfl⟩ := Prod.mk.inj (Except.ok.inj h)
        refine ⟨by rw [Numeral.fractionText, List.cons_append, List.takeWhile_append_dropWhile], ?_⟩
        intro digits hdigits
        obtain rfl := Option.some.inj hdigits
        refine ⟨?_, fun d hd => List.mem_takeWhile_imp hd⟩
        rw [List.takeWhile_cons_of_pos hdigit]
        exact List.cons_ne_nil _ _
      · rw [if_neg hdigit] at h
        cases h
  · obtain ⟨rfl, rfl⟩ := Prod.mk.inj (Except.ok.inj h)
    exact ⟨rfl, fun digits hdigits => nomatch hdigits⟩

theorem readSign_spelled (cs : List Char) : ∃ sign, cs = sign ++ (readSign cs).2 ∧
    if (readSign cs).1 then sign = ['-'] else sign = [] ∨ sign = ['+'] := by
  unfold readSign
  split
  · exact ⟨['+'], rfl, .inr rfl⟩
  · exact ⟨['-'], rfl, rfl⟩
  · exact ⟨[], rfl, .inl rfl⟩

theorem readExponent_spelled {cs rest : List Char} {exponent : Option Exponent}
    (h : readExponent cs = .ok (exponent, rest)) :
    ∃ spelled, cs = spelled ++ rest ∧ Exponent.OptionSpelledAs exponent spelled := by
  cases cs with
  | nil =>
    obtain ⟨rfl, rfl⟩ := Prod.mk.inj (Except.ok.inj h)
    exact ⟨[], rfl, rfl⟩
  | cons c tail =>
    rw [readExponent] at h
    by_cases hc : (c = 'e' || c = 'E') = true
    · rw [if_pos hc] at h
      obtain ⟨sign, htail, hsign⟩ := readSign_spelled tail
      generalize readSign tail = read at h htail hsign
      obtain ⟨negative, digits⟩ := read
      cases digits with
      | nil => cases h
      | cons d others =>
        dsimp only at h
        split at h
        · obtain ⟨rfl, rfl⟩ := Prod.mk.inj (Except.ok.inj h)
          refine ⟨c :: (sign ++ (d :: others).takeWhile isDigit), ?_, c, sign, ?_, hsign, rfl⟩
          · rw [List.cons_append, List.append_assoc, List.takeWhile_append_dropWhile, htail]
          · rwa [Bool.or_eq_true, decide_eq_true_eq, decide_eq_true_eq] at hc
        · cases h
    · rw [if_neg hc] at h
      obtain ⟨rfl, rfl⟩ := Prod.mk.inj (Except.ok.inj h)
      exact ⟨[], rfl, rfl⟩

/-- A numeral is read from the characters that spell it. -/
theorem readNumeral_spelled {negative : Bool} {cs rest : List Char} {n : Numeral}
    (h : readNumeral negative cs = .ok (n, rest)) :
    ∃ spelled, n.SpelledAs spelled ∧
      (if negative then ['-'] else []) ++ cs = spelled ++ rest := by
  obtain ⟨⟨whole, cs₁⟩, hwhole, h⟩ := of_bind_eq_ok h
  obtain ⟨⟨fraction, cs₂⟩, hfraction, h⟩ := of_bind_eq_ok h
  obtain ⟨⟨exponent, cs₃⟩, hexponent, h⟩ := of_bind_eq_ok h
  obtain ⟨rfl, rfl⟩ := Prod.mk.inj (Except.ok.inj h)
  obtain ⟨rfl, hcanonical⟩ := readWhole_spelled hwhole
  obtain ⟨hcs₁, hdigits⟩ := readFraction_spelled hfraction
  obtain ⟨spelled, rfl, hspelled⟩ := readExponent_spelled hexponent
  refine ⟨_, ⟨hcanonical, hdigits, spelled, hspelled, rfl⟩, ?_⟩
  rw [hcs₁]
  simp only [Numeral.mantissa, List.append_assoc]

end Json

namespace Numeral.SpelledAs

variable {n : Numeral} {spelled : List Char}

theorem eq_mantissa (h : n.SpelledAs spelled) (hexponent : n.exponent = none) :
    spelled = n.mantissa := by
  obtain ⟨tail, htail, rfl⟩ := h.spelled
  rw [hexponent] at htail
  rw [htail, List.append_nil]

/-- An exponent has its letter. -/
theorem letter_mem (h : n.SpelledAs spelled) (hexponent : n.exponent ≠ none) :
    'e' ∈ spelled ∨ 'E' ∈ spelled := by
  obtain ⟨tail, htail, rfl⟩ := h.spelled
  cases he : n.exponent with
  | none => exact absurd he hexponent
  | some e =>
    rw [he] at htail
    obtain ⟨letter, sign, rfl | rfl, -, rfl⟩ := htail
    · exact .inl (List.mem_append_right _ List.mem_cons_self)
    · exact .inr (List.mem_append_right _ List.mem_cons_self)

end Numeral.SpelledAs

/-! ### Digits of whole numbers -/

theorem digitValue_digit {c : Char} (h : isDigit c = true) :
    Numeral.digitValue c < 10 ∧ Nat.digitChar (Numeral.digitValue c) = c := by
  simp only [isDigit, Bool.and_eq_true, decide_eq_true_eq, Char.le_def,
    UInt32.le_iff_toNat_le] at h
  have hlow : 48 ≤ c.toNat := h.1
  have hhigh : c.toNat ≤ 57 := h.2
  have hvalue : Numeral.digitValue c = c.toNat - 48 := rfl
  refine ⟨by omega, Char.toNat_inj.mp ?_⟩
  rw [hvalue, Nat.toNat_digitChar_of_lt_ten (by omega)]
  omega

/-- Digits behind a number that is not zero are its further digits. -/
theorem toDigits_spelled {s : Nat} (hs : s ≠ 0) {digits : List Char}
    (h : ∀ c ∈ digits, isDigit c = true) :
    Nat.toDigits 10 (Numeral.spelled s digits) = Nat.toDigits 10 s ++ digits := by
  induction digits generalizing s with
  | nil => rw [List.append_nil]; rfl
  | cons c rest ih =>
    rw [List.forall_mem_cons] at h
    obtain ⟨hvalue, hchar⟩ := digitValue_digit h.1
    have hnext : Nat.toDigits 10 (s * 10 + Numeral.digitValue c) = Nat.toDigits 10 s ++ [c] := by
      rw [Nat.toDigits_of_base_le (by decide) (by omega),
        show (s * 10 + Numeral.digitValue c) / 10 = s by omega,
        show (s * 10 + Numeral.digitValue c) % 10 = Numeral.digitValue c by omega, hchar]
    calc Nat.toDigits 10 (Numeral.spelled (s * 10 + Numeral.digitValue c) rest)
      _ = Nat.toDigits 10 (s * 10 + Numeral.digitValue c) ++ rest := ih (by omega) h.2
      _ = Nat.toDigits 10 s ++ c :: rest := by rw [hnext, List.append_assoc, List.singleton_append]

/-- Digits without a needless zero are those of the number they spell. -/
theorem toDigits_of_canonical {digits : List Char} (h : Canonical digits) :
    Nat.toDigits 10 (Numeral.spelled 0 digits) = digits := by
  obtain ⟨hdigits, rfl | ⟨c, rest, rfl, hc⟩⟩ := h
  · rfl
  · rw [List.forall_mem_cons] at hdigits
    obtain ⟨hvalue, hchar⟩ := digitValue_digit hdigits.1
    have hne : Numeral.digitValue c ≠ 0 := by
      intro hzero
      rw [hzero] at hchar
      exact hc hchar.symm
    calc Nat.toDigits 10 (Numeral.spelled 0 (c :: rest))
      _ = Nat.toDigits 10 (Numeral.spelled (Numeral.digitValue c) rest) := by
        rw [Numeral.spelled, List.foldl_cons, Nat.zero_mul, Nat.zero_add]
        rfl
      _ = c :: rest := by
        rw [toDigits_spelled hne hdigits.2, Nat.toDigits_of_lt_base hvalue, hchar,
          List.singleton_append]

/-- Any digits are zeros and then the digits of the number they spell. -/
theorem eq_zeros_append_toDigits {digits : List Char} (h : ∀ c ∈ digits, isDigit c = true)
    (hpos : 0 < Numeral.spelled 0 digits) : ∃ zeros,
      digits = List.replicate zeros '0' ++ Nat.toDigits 10 (Numeral.spelled 0 digits) := by
  induction digits with
  | nil => exact absurd hpos (Nat.lt_irrefl 0)
  | cons c rest ih =>
    by_cases hc : c = '0'
    · subst hc
      obtain ⟨zeros, hrest⟩ := ih (fun d hd => h d (List.mem_cons_of_mem _ hd)) hpos
      have hvalue : Numeral.spelled 0 ('0' :: rest) = Numeral.spelled 0 rest := rfl
      exact ⟨zeros + 1, by rw [hvalue, List.replicate_succ, List.cons_append, ← hrest]⟩
    · exact ⟨0, (toDigits_of_canonical ⟨h, .inr ⟨c, rest, rfl, hc⟩⟩).symm⟩

/-- Digits that spell zero are zeros. -/
theorem eq_zero_of_spelled {digits : List Char} (h : ∀ c ∈ digits, isDigit c = true)
    (hzero : Numeral.spelled 0 digits = 0) : ∀ c ∈ digits, c = '0' := by
  induction digits with
  | nil => exact fun c hc => absurd hc List.not_mem_nil
  | cons c rest ih =>
    rw [List.forall_mem_cons] at h ⊢
    obtain ⟨-, hchar⟩ := digitValue_digit h.1
    have hvalue : Numeral.digitValue c = 0 := by
      have := Numeral.le_spelled (0 * 10 + Numeral.digitValue c) rest
      have hcons : Numeral.spelled 0 (c :: rest) =
        Numeral.spelled (0 * 10 + Numeral.digitValue c) rest := rfl
      omega
    rw [hvalue] at hchar
    subst hchar
    exact ⟨rfl, ih h.2 hzero⟩

/-- Digits that do not end in a zero spell a positive number. -/
theorem spelled_pos {digits : List Char} (h : ∀ c ∈ digits, isDigit c = true)
    (hlast : digits.getLast? ≠ some '0') (hne : digits ≠ []) : 0 < Numeral.spelled 0 digits := by
  refine Nat.pos_of_ne_zero fun hzero => hlast ?_
  rw [List.getLast?_eq_some_getLast hne]
  exact congrArg some (eq_zero_of_spelled h hzero _ (List.getLast_mem hne))

/-- Zeros spell zero. -/
theorem spelled_eq_zero {digits : List Char} (h : ∀ c ∈ digits, c = '0') :
    Numeral.spelled 0 digits = 0 := by
  induction digits with
  | nil => rfl
  | cons c rest ih =>
    rw [List.forall_mem_cons] at h
    obtain ⟨rfl, hrest⟩ := h
    exact ih hrest

/-! ### Doubles without an exponent -/

namespace Decimal

/-- The digits of a decimal, with a point if a fraction follows. -/
def plain (d : Decimal) : List Char :=
  d.positional.1 ++ if d.positional.2 = [] then [] else '.' :: d.positional.2

theorem ofUnits_digits (n : Nat) (unit : Int) :
    (∀ c ∈ (ofUnits n unit).digits, isDigit c = true) ∧
      (ofUnits n unit).digits.getLast? ≠ some '0' := by
  have hstrip : (ofUnits n unit).digits = (Nat.toDigits 10 n).rdropWhile (· = '0') := rfl
  rw [hstrip]
  refine ⟨fun c hc => isDigit_of_mem_toDigits ((List.rdropWhile_prefix _ _).subset hc), ?_⟩
  intro hlast
  obtain ⟨hne, hzero⟩ := List.mem_getLast?_eq_getLast hlast
  exact List.rdropWhile_last_not _ _ hne (by rw [← hzero]; rfl)

theorem positional_isDigit {d : Decimal} (h : ∀ c ∈ d.digits, isDigit c = true) :
    (∀ c ∈ d.positional.1, isDigit c = true) ∧ ∀ c ∈ d.positional.2, isDigit c = true := by
  have hzeros : ∀ k, ∀ c ∈ List.replicate k '0', isDigit c = true := by
    intro k c hc
    rw [(List.mem_replicate.mp hc).2]
    rfl
  unfold positional
  split
  · refine ⟨canonical_zero.1, fun c hc => ?_⟩
    rcases List.mem_append.mp hc with hzero | hdigit
    · exact hzeros _ c hzero
    · exact h c hdigit
  · refine ⟨fun c hc => ?_, fun c hc => h c (List.mem_of_mem_drop hc)⟩
    rcases List.mem_append.mp hc with hdigit | hzero
    · exact h c (List.mem_of_mem_take hdigit)
    · exact hzeros _ c hzero

theorem mem_plain {d : Decimal} (h : ∀ c ∈ d.digits, isDigit c = true) {c : Char}
    (hc : c ∈ d.plain) : isDigit c = true ∨ c = '.' := by
  obtain ⟨hwhole, hfraction⟩ := positional_isDigit h
  rw [plain] at hc
  rcases List.mem_append.mp hc with hc | hc
  · exact .inl (hwhole c hc)
  · split at hc
    · cases hc
    · rcases List.mem_cons.mp hc with rfl | hc
      · exact .inr rfl
      · exact .inl (hfraction c hc)

/-- The first point of a decimal is its own. -/
theorem positional_of_plain_eq {d : Decimal} (h : ∀ c ∈ d.digits, isDigit c = true)
    {whole fraction : List Char} (heq : d.plain = whole ++ '.' :: fraction) :
    d.positional = (whole, fraction) := by
  obtain ⟨hwhole, hfraction⟩ := positional_isDigit h
  have hpoint : ∀ {cs : List Char}, (∀ c ∈ cs, isDigit c = true) → '.' ∉ cs := fun hcs hmem =>
    absurd (hcs _ hmem) (by decide)
  rw [plain] at heq
  split at heq
  · rw [List.append_nil] at heq
    refine absurd ?_ (hpoint hwhole)
    rw [heq]
    exact List.mem_append_right _ List.mem_cons_self
  · obtain ⟨rfl, -, rfl⟩ :=
      (List.append_cons_inj_of_notMem (hpoint hwhole) (hpoint hfraction)).mp heq
    rfl

/-- Only a decimal without digits has a fraction that ends in a zero: all its places are zeros. -/
theorem positional_of_getLast? {d : Decimal} (hdigits : d.digits.getLast? ≠ some '0')
    (hlast : d.positional.2.getLast? = some '0') :
    d.digits = [] ∧ d.positional.1 = ['0'] ∧ ∀ c ∈ d.positional.2, c = '0' := by
  unfold positional at hlast ⊢
  split at hlast
  · rename_i hneg
    rw [if_pos hneg]
    by_cases hnil : d.digits = []
    · refine ⟨hnil, rfl, fun c hc => ?_⟩
      dsimp only at hc
      rw [hnil, List.append_nil] at hc
      exact (List.mem_replicate.mp hc).2
    · dsimp only at hlast
      rw [List.getLast?_append_of_ne_nil _ hnil] at hlast
      exact absurd hlast hdigits
  · dsimp only at hlast
    rw [List.getLast?_drop] at hlast
    split at hlast
    · cases hlast
    · exact absurd hlast hdigits

/-- The zeros that are dropped are put back up to the point. -/
theorem plain_ofUnits_whole (n : Nat) : (ofUnits n 0).plain = Nat.toDigits 10 n := by
  obtain ⟨kept, zeros, hkept, hdigits⟩ : ∃ kept zeros, (ofUnits n 0).digits = kept ∧
      Nat.toDigits 10 n = kept ++ List.replicate zeros '0' := by
    refine ⟨_, ((Nat.toDigits 10 n).rtakeWhile (· = '0')).length, rfl, ?_⟩
    have hzeros := List.eq_replicate_of_mem fun c hc =>
      of_decide_eq_true (List.mem_rtakeWhile_imp (p := (· = '0')) (l := Nat.toDigits 10 n) hc)
    have hsplit := congrArg List.reverse
      (List.takeWhile_append_dropWhile (p := (· = '0')) (l := (Nat.toDigits 10 n).reverse))
    rw [List.reverse_append, List.reverse_reverse] at hsplit
    rw [← hzeros]
    exact hsplit.symm
  have hlength : 0 < (Nat.toDigits 10 n).length :=
    List.length_pos_iff.mpr Nat.toDigits_ne_nil
  have hexponent : (ofUnits n 0).exponent = ((Nat.toDigits 10 n).length : Int) - 1 := by
    rw [ofUnits, Int.zero_add]
  have hplaces : (ofUnits n 0).exponent.toNat + 1 = (Nat.toDigits 10 n).length := by omega
  have hpositional : (ofUnits n 0).positional = (Nat.toDigits 10 n, []) := by
    rw [positional, if_neg (by omega), hkept]
    dsimp only
    rw [hplaces, List.take_of_length_le (by rw [hdigits, List.length_append]; omega),
      List.drop_of_length_le (by rw [hdigits, List.length_append]; omega)]
    congr 1
    rw [hdigits, List.length_append, List.length_replicate, Nat.add_sub_cancel_left]
  rw [plain, hpositional, if_pos rfl, List.append_nil]

theorem ofUnits_digits_of_getLast? {n : Nat} (h : (Nat.toDigits 10 n).getLast? ≠ some '0')
    (unit : Int) : (ofUnits n unit).digits = Nat.toDigits 10 n := by
  have hstrip : (ofUnits n unit).digits = (Nat.toDigits 10 n).rdropWhile (· = '0') := rfl
  rw [hstrip, List.rdropWhile_eq_self_iff]
  intro hne hlast
  exact h (by rw [List.getLast?_eq_some_getLast hne, of_decide_eq_true hlast])

/-- Digits around the point that do not end in a zero come back. -/
theorem plain_ofUnits_fraction {whole digits : List Char} (hwhole : Canonical whole)
    (hdigits : ∀ c ∈ digits, isDigit c = true) (hne : digits ≠ [])
    (hlast : digits.getLast? ≠ some '0') :
    (ofUnits (Numeral.spelled 0 (whole ++ digits)) (-digits.length)).plain =
      whole ++ '.' :: digits := by
  have hall : ∀ c ∈ whole ++ digits, isDigit c = true := fun c hc =>
    (List.mem_append.mp hc).elim (hwhole.1 c) (hdigits c)
  suffices hpositional :
      (ofUnits (Numeral.spelled 0 (whole ++ digits)) (-digits.length)).positional =
        (whole, digits) by
    rw [plain, hpositional, if_neg hne]
  have hpos := spelled_pos hall (by rwa [List.getLast?_append_of_ne_nil _ hne])
    (List.append_ne_nil_of_right_ne_nil whole hne)
  obtain ⟨-, rfl | ⟨c, rest, rfl, hc⟩⟩ := hwhole
  · have hvalue : Numeral.spelled 0 (['0'] ++ digits) = Numeral.spelled 0 digits := rfl
    rw [hvalue] at hpos ⊢
    obtain ⟨zeros, hzeros⟩ := eq_zeros_append_toDigits hdigits hpos
    generalize hsame : Nat.toDigits 10 (Numeral.spelled 0 digits) = significant at hzeros
    have hsignificant : significant ≠ [] := hsame ▸ Nat.toDigits_ne_nil
    have hkept := ofUnits_digits_of_getLast? (by
      rw [hsame, ← List.getLast?_append_of_ne_nil _ hsignificant, ← hzeros]; exact hlast)
      (-digits.length)
    rw [hsame] at hkept
    have hexponent : (ofUnits (Numeral.spelled 0 digits) (-digits.length)).exponent =
        -(zeros : Int) - 1 := by
      have hlength := congrArg List.length hzeros
      rw [List.length_append, List.length_replicate] at hlength
      rw [ofUnits, hsame]
      dsimp only
      omega
    rw [positional, hexponent, if_pos (by omega), hkept,
      show (-(zeros : Int) - 1).natAbs - 1 = zeros by omega, ← hzeros]
  · have hcanonical : Canonical (c :: rest ++ digits) := ⟨hall, .inr ⟨c, rest ++ digits, rfl, hc⟩⟩
    have hsame := toDigits_of_canonical hcanonical
    have hkept := ofUnits_digits_of_getLast? (by
      rw [hsame, List.getLast?_append_of_ne_nil _ hne]; exact hlast) (-digits.length)
    rw [hsame] at hkept
    have hexponent : (ofUnits (Numeral.spelled 0 (c :: rest ++ digits)) (-digits.length)).exponent =
        rest.length := by
      rw [ofUnits, hsame, List.length_append, List.length_cons]
      push_cast
      omega
    rw [positional, hexponent, if_neg (by omega), hkept]
    dsimp only
    rw [Int.toNat_natCast, ← List.length_cons (a := c), List.take_left, List.drop_left,
      List.length_append, Nat.sub_eq_zero_of_le (Nat.le_add_right _ _), List.replicate_zero,
      List.append_nil]

end Decimal

namespace Binary64

open Decimal

theorem Rounding.exists_search_eq_ofUnits (r : Rounding) (tie : Tie) (lead : Int) (bound p : Nat) :
    ∃ n unit, r.search tie lead bound p = ofUnits n unit := by
  induction bound generalizing p with
  | zero => exact ⟨_, _, rfl⟩
  | succ bound ih =>
    rw [search]
    split
    · exact ⟨_, _, rfl⟩
    · exact ih (p + 1)

theorem shortest_withSign (tie : Tie) (negative : Bool) (x : Binary64) :
    (x.withSign negative).shortest tie = x.shortest tie := rfl

/-- The shortest digits of a double that is not zero have no zero at their end. -/
theorem shortest_digits (tie : Tie) (x : Binary64) :
    (∀ c ∈ (x.shortest tie).digits, isDigit c = true) ∧
      (x.isZero = false → (x.shortest tie).digits.getLast? ≠ some '0') := by
  unfold shortest
  split
  · rename_i hzero
    exact ⟨canonical_zero.1, fun h => absurd hzero (by simp [h])⟩
  · obtain ⟨n, unit, hsearch⟩ := Rounding.exists_search_eq_ofUnits x.rounding tie
      (leadingExponent x.rounding.num x.rounding.den) 17 0
    rw [hsearch]
    exact ⟨(ofUnits_digits n unit).1, fun _ => (ofUnits_digits n unit).2⟩

end Binary64

/-- A layout that is positional throughout, without a needless fraction. -/
theorem Layout.write_positional {l : Layout} {x : Binary64}
    (hpositional : ∀ e, l.positional e = true) (hfraction : l.keepsFraction = false) :
    (l.write x).toList = (if x.negative then ['-'] else []) ++ (x.shortest l.tie).plain := by
  rw [Layout.write, String.toList_ofList, if_pos (hpositional _), Decimal.plain, hfraction]
  cases hp : (x.shortest l.tie).positional with
  | mk whole fraction =>
    cases fraction <;> cases x.negative <;> simp

end GrammarSync
