/-
# How a version is shown

The version stands in the text behind the first key `version` of the record,
or as the first item of a record that is a list (`versionAt?`). A text is
shown as its characters. A number passes through an integer of 64 bits or a
double and is written again (`version_is_shown`): it comes out as it is spelled
if it is such an integer, or a decimal of at most fifteen digits, which the
shortest digits of a double give back. An exponent and a zero at the end of a
fraction are lost, so that a version is not always shown verbatim
(`version_is_not_verbatim`).

Beyond fifteen digits the theorem says nothing: whether such a number comes out
as it is spelled depends on its value.

Key definitions: `memberAt?`, `versionAt?`, `Version.ReadFrom`,
`NumeralShown`, `VersionShown`, `ShownVerbatim`.
Key theorems: `version_readFrom`, `shown_whole`, `shown_short`,
`shown_exponent`, `shown_zero`, `version_is_shown`, `version_is_not_verbatim`.
-/
import GrammarSync.Proofs.ShortDecimals
import GrammarSync.Proofs.Skipping
import GrammarSync.Proofs.Spelling
import GrammarSync.Taxonomy.Reader

namespace GrammarSync
namespace Taxonomy

open Json

/-! ### Where the version stands -/

/-- The text behind the first key called so and its colon, in an object that is left in front of
its first member or behind a member. -/
def memberAt? (name : String) : Nat → Bool → List Char → Option (List Char)
  | 0, _, _ => none
  | steps + 1, first, cs =>
    match nextKey first cs with
    | .ok (.more rest) => do
      let (key, rest) ← (readString rest).toOption
      let rest ← (readColon rest).toOption
      if key = name then some rest
      else
        let rest ← (skipValue rest).toOption
        memberAt? name steps false rest
    | _ => none

/-- The text from the version of a taxonomy on. -/
def versionAt? (text : String) : Option (List Char) :=
  match skipBlanks text.toList with
  | [] => none
  | c :: rest =>
    if c = '\x7b' then memberAt? Field.version.key (stepsFor rest) true rest
    else match nextItem true rest with
      | .ok (.more item) => some item
      | _ => none

/-- The version is that of the value the text starts with. -/
def Version.ReadFrom (v : Version) (cs : List Char) : Prop :=
  ∃ w rest, readValue (stepsFor cs) (depthLimit - 1) cs = .ok (w, rest) ∧
    Version.ofJson? w = some v

variable {cs rest : List Char} {d d' : Draft} {t : Taxonomy}

theorem memberAt?_more {name key : String} {steps : Nat} {first : Bool}
    {member colon value : List Char} (hnext : nextKey first cs = .ok (.more member))
    (hkey : readString member = .ok (key, colon)) (hcolon : readColon colon = .ok value) :
    memberAt? name (steps + 1) first cs =
      if key = name then some value
      else (skipValue value).toOption.bind (memberAt? name steps false) := by
  rw [memberAt?, hnext]
  simp [hkey, hcolon, Except.toOption]

theorem Draft.complete_version (h : d.complete = .ok t) : d.version = some t.version := by
  obtain ⟨version, hversion, h⟩ := of_bind_eq_ok h
  obtain ⟨keywords, -, h⟩ := of_bind_eq_ok h
  obtain ⟨types, -, h⟩ := of_bind_eq_ok h
  obtain ⟨contextual, -, h⟩ := of_bind_eq_ok h
  obtain ⟨allKeywords, -, h⟩ := of_bind_eq_ok h
  rw [← Except.ok.inj h]
  cases hd : d.version with
  | none => rw [hd] at hversion; cases hversion
  | some v => rw [hd] at hversion; rw [Except.ok.inj hversion]

theorem readField_version {behind : List Char → List Char}
    (h : readField behind d .version cs = .ok (d', rest)) :
    ∃ v : Version, d'.version = some v ∧ v.ReadFrom cs := by
  obtain ⟨⟨w, left⟩, hread, h⟩ := of_bind_eq_ok h
  dsimp only at h
  cases hversion : Version.ofJson? w with
  | none => rw [hversion] at h; cases h
  | some v =>
    rw [hversion] at h
    obtain ⟨rfl, -⟩ := Prod.mk.inj (Except.ok.inj h)
    exact ⟨v, rfl, w, left, of_lift_eq_ok hread, hversion⟩

theorem readField_other {behind : List Char → List Char} {f : Field} (hf : f ≠ .version)
    (h : readField behind d f cs = .ok (d', rest)) : d'.version = d.version := by
  cases f with
  | version => exact absurd rfl hf
  | _ =>
    obtain ⟨⟨_, left⟩, -, h⟩ := of_bind_eq_ok h
    obtain ⟨rfl, -⟩ := Prod.mk.inj (Except.ok.inj h)
    rfl

theorem Field.ofKey?_eq_some {key : String} {f : Field} (h : Field.ofKey? key = some f) :
    f.key = key := by
  have := List.find?_some h
  exact of_decide_eq_true this

theorem Field.ofKey?_key (f : Field) : Field.ofKey? f.key = some f := by
  cases f <;> rfl

/-- A member of an object is either passed over or read as a field that was not read before. -/
theorem readMembers_ok {steps : Nat} {first : Bool}
    (h : readMembers (steps + 1) first d cs = .ok (t, rest)) :
    d.complete = .ok t ∨ ∃ member key colon value behind d',
      nextKey first cs = .ok (.more member) ∧ readString member = .ok (key, colon) ∧
      readColon colon = .ok value ∧ readMembers steps false d' behind = .ok (t, rest) ∧
      ((Field.ofKey? key = none ∧ d' = d ∧ skipValue value = .ok behind) ∨
        ∃ f, Field.ofKey? key = some f ∧ d.has f = false ∧
          readField behindObject d f value = .ok (d', behind)) := by
  obtain ⟨step, hstep, h⟩ := of_bind_eq_ok h
  cases step with
  | stop left =>
    left
    dsimp only at h
    cases hcomplete : d.complete with
    | error f => rw [hcomplete] at h; cases h
    | ok t' =>
      rw [hcomplete] at h
      rw [(Prod.mk.inj (Except.ok.inj h)).1]
  | more member =>
    right
    obtain ⟨⟨key, colon⟩, hkey, h⟩ := of_bind_eq_ok h
    dsimp only at h
    cases hfield : Field.ofKey? key with
    | none =>
      rw [hfield] at h
      obtain ⟨value, hcolon, h⟩ := of_bind_eq_ok h
      obtain ⟨behind, hskip, h⟩ := of_bind_eq_ok h
      exact ⟨member, key, colon, value, behind, d, of_lift_eq_ok hstep, of_lift_eq_ok hkey,
        of_lift_eq_ok hcolon, h, .inl ⟨hfield, rfl, of_lift_eq_ok hskip⟩⟩
    | some f =>
      rw [hfield] at h
      dsimp only at h
      cases hhas : d.has f with
      | true => rw [hhas] at h; cases h
      | false =>
        rw [hhas] at h
        obtain ⟨value, hcolon, h⟩ := of_bind_eq_ok h
        obtain ⟨⟨d', behind⟩, hread, h⟩ := of_bind_eq_ok h
        exact ⟨member, key, colon, value, behind, d', of_lift_eq_ok hstep, of_lift_eq_ok hkey,
          of_lift_eq_ok hcolon, h, .inr ⟨f, hfield, hhas, hread⟩⟩

/-- A version that was read before stays. -/
theorem readMembers_of_version {steps : Nat} {first : Bool} {v : Version}
    (hv : d.version = some v) (h : readMembers steps first d cs = .ok (t, rest)) :
    t.version = v := by
  induction steps generalizing first d cs with
  | zero => cases h
  | succ steps ih =>
    rcases readMembers_ok h with hcomplete |
      ⟨member, key, colon, value, behind, d', -, -, -, hrest, hcase⟩
    · exact Option.some.inj ((Draft.complete_version hcomplete).symm.trans hv)
    · refine ih ?_ hrest
      rcases hcase with ⟨-, rfl, -⟩ | ⟨f, -, hhas, hread⟩
      · exact hv
      · have hf : f ≠ .version := by
          rintro rfl
          rw [Draft.has, hv] at hhas
          cases hhas
        rw [readField_other hf hread, hv]

/-- A version that was not read before stands behind its key. -/
theorem readMembers_version {steps : Nat} {first : Bool} (hd : d.version = none)
    (h : readMembers steps first d cs = .ok (t, rest)) :
    ∃ value, memberAt? Field.version.key steps first cs = some value ∧
      t.version.ReadFrom value := by
  induction steps generalizing first d cs with
  | zero => cases h
  | succ steps ih =>
    rcases readMembers_ok h with hcomplete |
      ⟨member, key, colon, value, behind, d', hnext, hkey, hcolon, hrest, hcase⟩
    · have := (Draft.complete_version hcomplete).symm.trans hd
      cases this
    · rw [memberAt?_more hnext hkey hcolon]
      rcases hcase with ⟨hfield, rfl, hskip⟩ | ⟨f, hfield, -, hread⟩
      · have hne : key ≠ Field.version.key := by
          rintro rfl
          rw [Field.ofKey?_key] at hfield
          cases hfield
        rw [if_neg hne, hskip]
        exact ih hd hrest
      · by_cases hf : f = .version
        · subst hf
          obtain ⟨v, hv, hfrom⟩ := readField_version hread
          rw [if_pos (Field.ofKey?_eq_some hfield).symm]
          refine ⟨value, rfl, ?_⟩
          rwa [readMembers_of_version hv hrest]
        · have hne : key ≠ Field.version.key := by
            rintro rfl
            rw [Field.ofKey?_key] at hfield
            exact hf (Option.some.inj hfield).symm
          rw [if_neg hne, skipValue_of_readField hread]
          exact ih ((readField_other hf hread).trans hd) hrest

/-- In a record that is a list, fields behind the version leave it as it is. -/
theorem readItems_keeps_version {fields : List Field} (hfields : .version ∉ fields) {first : Bool}
    {count : Nat} (h : readItems first count d fields cs = .ok (d', rest)) :
    d'.version = d.version := by
  induction fields generalizing first count d cs with
  | nil => rw [(Prod.mk.inj (Except.ok.inj h)).1]
  | cons f fields ih =>
    rw [List.mem_cons, not_or] at hfields
    obtain ⟨step, -, h⟩ := of_bind_eq_ok h
    cases step with
    | stop left => cases h
    | more item =>
      obtain ⟨⟨next, behind⟩, hread, h⟩ := of_bind_eq_ok h
      rw [ih hfields.2 h, readField_other (Ne.symm hfields.1) hread]

/-- In a record that is a list the version is the first item. -/
theorem readItems_version {v : Version}
    (h : readItems true 0 Draft.empty Field.all cs = .ok (d, rest)) (hv : d.version = some v) :
    ∃ item, nextItem true cs = .ok (.more item) ∧ v.ReadFrom item := by
  obtain ⟨step, hstep, h⟩ := of_bind_eq_ok h
  cases step with
  | stop left => cases h
  | more item =>
    obtain ⟨⟨next, behind⟩, hread, h⟩ := of_bind_eq_ok h
    obtain ⟨v', hnext, hfrom⟩ := readField_version hread
    have hkept := readItems_keeps_version (by decide) h
    rw [hv, hnext] at hkept
    exact ⟨item, of_lift_eq_ok hstep, Option.some.inj hkept ▸ hfrom⟩

/-- The version of a taxonomy is read where it stands in the text. -/
theorem version_readFrom {text : String} (h : readTaxonomy text = .ok t) :
    ∃ value, versionAt? text = some value ∧ t.version.ReadFrom value := by
  obtain ⟨⟨t', left⟩, hrecord, h⟩ := of_bind_eq_ok h
  obtain ⟨-, -, h⟩ := of_bind_eq_ok h
  obtain rfl := Except.ok.inj h
  rw [readRecord] at hrecord
  cases hcs : skipBlanks text.toList with
  | nil => rw [hcs] at hrecord; cases hrecord
  | cons c tail =>
    rw [hcs] at hrecord
    dsimp only at hrecord
    rw [versionAt?, hcs]
    dsimp only
    by_cases hobject : c = '\x7b'
    · rw [if_pos hobject] at hrecord ⊢
      exact readMembers_version rfl hrecord
    rw [if_neg hobject] at hrecord ⊢
    by_cases hlist : c = '['
    · rw [if_pos hlist] at hrecord
      obtain ⟨⟨d, closing⟩, hitems, hrecord⟩ := of_bind_eq_ok hrecord
      obtain ⟨last, -, hrecord⟩ := of_bind_eq_ok hrecord
      dsimp only at hrecord
      cases hcomplete : d.complete with
      | error f => rw [hcomplete] at hrecord; cases hrecord
      | ok t =>
        rw [hcomplete] at hrecord
        obtain ⟨rfl, rfl⟩ := Prod.mk.inj (Except.ok.inj hrecord)
        obtain ⟨item, hitem, hfrom⟩ := readItems_version hitems (Draft.complete_version hcomplete)
        exact ⟨item, by rw [hitem], hfrom⟩
    · rw [if_neg hlist] at hrecord
      cases hrecord

/-! ### The forms of a version -/

/-- A version is a text or a number, in front of the text that is left behind it. -/
theorem Version.ReadFrom.form {v : Version} (h : v.ReadFrom cs) :
    ∃ rest, skipValue cs = .ok rest ∧
      ((∃ tail s, skipBlanks cs = '"' :: tail ∧ readString tail = .ok (s, rest) ∧ v = .text s) ∨
        ∃ n : Numeral, ∃ spelled x, skipBlanks cs = spelled ++ rest ∧ n.SpelledAs spelled ∧
          n.value = .ok x ∧ Version.ofJson? (.number x) = some v) := by
  obtain ⟨w, rest, hread, hversion⟩ := h
  refine ⟨rest, skipValue_of_readValue hread, ?_⟩
  have hform := readValue_ok hread
  generalize skipBlanks cs = text at hform ⊢
  cases hform with
  | string hstring => exact .inl ⟨_, _, rfl, hstring, (Option.some.inj hversion).symm⟩
  | negative hnumber =>
    obtain ⟨n, hnumeral, hvalue⟩ := readNumber_ok hnumber
    obtain ⟨spelled, hspelled, htext⟩ := readNumeral_spelled hnumeral
    exact .inr ⟨n, spelled, _, htext, hspelled, hvalue, hversion⟩
  | number _ hnumber =>
    obtain ⟨n, hnumeral, hvalue⟩ := readNumber_ok hnumber
    obtain ⟨spelled, hspelled, htext⟩ := readNumeral_spelled hnumeral
    exact .inr ⟨n, spelled, _, htext, hspelled, hvalue, hversion⟩
  | null | trueWord | falseWord | array | object => cases hversion

/-! ### How a number is shown -/

/-- How the version of a numeral is shown, against how the numeral is spelled. -/
structure NumeralShown (n : Numeral) (spelled shown : List Char) : Prop where
  /-- An integer of 64 bits without a sign is shown as it is spelled. -/
  whole : n.negative = false → n.fraction = none → n.exponent = none →
    Numeral.spelled 0 n.whole < 2 ^ 64 → shown = spelled
  /-- So is a decimal of at most fifteen digits, 22 of them behind the point at most, that does
  not end in a zero there. -/
  short : n.exponent = none →
    (∀ digits, n.fraction = some digits → digits.length ≤ 22 ∧ digits.getLast? ≠ some '0') →
    Numeral.spelled 0 (n.whole ++ n.fraction.getD []) < 10 ^ 15 → shown = spelled
  /-- An exponent is never shown. -/
  exponent : n.exponent ≠ none → shown ≠ spelled
  /-- A zero at the end of a fraction is never shown. -/
  zero : ∀ digits, n.exponent = none → n.fraction = some digits → digits.getLast? = some '0' →
    shown ≠ spelled

theorem display_integer (m : Nat) : (Version.integer m).display.toList = Nat.toDigits 10 m := by
  rw [Version.display]
  exact Nat.toList_repr

theorem display_float (x : Binary64) : (Version.float x).display.toList =
    (if x.negative then ['-'] else []) ++ (x.shortest .up).plain :=
  Layout.write_positional (fun _ => rfl) rfl

variable {n : Numeral} {spelled : List Char} {x : Number} {v : Version}

theorem Version.ofJson?_natural (m : Nat) :
    Version.ofJson? (.number (.int m)) = some (.integer m) := by
  rw [ofJson?, if_pos (Int.natCast_nonneg m), Int.natAbs_natCast]

theorem Version.ofJson?_negative {m : Nat} (hm : 0 < m) :
    Version.ofJson? (.number (.int (-m))) =
      (Binary64.ofNat? m).map fun x => .float (x.withSign true) := by
  rw [ofJson?, if_neg (by omega), Int.natAbs_neg, Int.natAbs_natCast]

theorem shown_whole (hspelled : n.SpelledAs spelled) (hvalue : n.value = .ok x)
    (hversion : Version.ofJson? (.number x) = some v) (hsign : n.negative = false)
    (hfraction : n.fraction = none) (hexponent : n.exponent = none)
    (hsmall : Numeral.spelled 0 n.whole < 2 ^ 64) : v.display.toList = spelled := by
  rw [Numeral.value_whole hexponent hfraction hsmall, hsign] at hvalue
  obtain rfl := Except.ok.inj hvalue
  rw [Version.ofJson?_natural] at hversion
  obtain rfl := Option.some.inj hversion
  rw [display_integer, toDigits_of_canonical hspelled.whole, hspelled.eq_mantissa hexponent,
    Numeral.mantissa, hsign, hfraction]
  exact (List.append_nil _).symm

/-- A whole number with a sign is kept as a double, zero too. -/
theorem eq_float_of_negative (hvalue : n.value = .ok x)
    (hversion : Version.ofJson? (.number x) = some v) (hsign : n.negative = true)
    (hfraction : n.fraction = none) (hexponent : n.exponent = none)
    (hsmall : Numeral.spelled 0 n.whole < 2 ^ 64) :
    ∃ y, Binary64.ofNat? (Numeral.spelled 0 n.whole) = some y ∧ v = .float (y.withSign true) := by
  rw [Numeral.value_whole hexponent hfraction hsmall, hsign, if_neg (by decide)] at hvalue
  split at hvalue
  · rename_i hpos
    obtain rfl := Except.ok.inj hvalue
    rw [Version.ofJson?_negative hpos.1, Option.map_eq_some_iff] at hversion
    obtain ⟨y, hy, rfl⟩ := hversion
    exact ⟨y, hy, rfl⟩
  · obtain ⟨y, hy, rfl⟩ := Numeral.signed_eq_ok hvalue
    exact ⟨y, hy, (Option.some.inj hversion).symm⟩

/-- Whole numbers of at most fifteen digits come back from their doubles. -/
theorem plain_shortest_ofNat {m : Nat} {y : Binary64} (hm : m < 10 ^ 15)
    (hy : Binary64.ofNat? m = some y) : (y.shortest .up).plain = Nat.toDigits 10 m := by
  rcases Nat.eq_zero_or_pos m with rfl | hpos
  · obtain rfl : Binary64.zero false = y := Option.some.inj hy
    decide
  · obtain ⟨x, hx, hrounds, -, -⟩ := Binary64.ofNat?_exact (n := m) (j := m) (i := 0)
      (by rw [pow_zero, mul_one]) hpos (Nat.lt_of_lt_of_le hm (by decide)) (by decide)
    obtain rfl := Option.some.inj (hx.symm.trans hy)
    rw [← mul_one (m : ℚ), ← zpow_zero (10 : ℚ)] at hrounds
    rw [Binary64.shortest_eq hpos hm (by decide) hrounds, Decimal.plain_ofUnits_whole]

/-- Decimals of at most fifteen digits come back from their doubles. -/
theorem plain_shortest_scale {whole digits : List Char} {y : Binary64} (hwhole : Canonical whole)
    (hdigits : ∀ c ∈ digits, isDigit c = true) (hne : digits ≠ []) (hlength : digits.length ≤ 22)
    (hlast : digits.getLast? ≠ some '0') (hsmall : Numeral.spelled 0 (whole ++ digits) < 10 ^ 15)
    (h : Numeral.scale (Numeral.spelled 0 (whole ++ digits)) (-digits.length) = some y) :
    (y.shortest .up).plain = whole ++ '.' :: digits := by
  have hpos := spelled_pos (fun c hc => (List.mem_append.mp hc).elim (hwhole.1 c) (hdigits c))
    (by rwa [List.getLast?_append_of_ne_nil _ hne]) (List.append_ne_nil_of_right_ne_nil whole hne)
  have hrounds := Numeral.roundsTo_scale hpos hsmall (List.length_pos_iff.mpr hne) hlength h
  rw [Binary64.shortest_eq hpos hsmall (by omega) hrounds,
    Decimal.plain_ofUnits_fraction hwhole hdigits hne hlast]

theorem shown_short (hspelled : n.SpelledAs spelled) (hvalue : n.value = .ok x)
    (hversion : Version.ofJson? (.number x) = some v) (hexponent : n.exponent = none)
    (hfraction : ∀ digits, n.fraction = some digits →
      digits.length ≤ 22 ∧ digits.getLast? ≠ some '0')
    (hsmall : Numeral.spelled 0 (n.whole ++ n.fraction.getD []) < 10 ^ 15) :
    v.display.toList = spelled := by
  have hbound : Numeral.spelled 0 (n.whole ++ n.fraction.getD []) < Numeral.significandBound :=
    Nat.lt_trans hsmall (by decide)
  cases hform : n.fraction with
  | none =>
    rw [hform, Option.getD_none, List.append_nil] at hsmall hbound
    cases hsign : n.negative with
    | false => exact shown_whole hspelled hvalue hversion hsign hform hexponent hbound
    | true =>
      obtain ⟨y, hy, rfl⟩ := eq_float_of_negative hvalue hversion hsign hform hexponent hbound
      rw [display_float, Binary64.shortest_withSign, plain_shortest_ofNat hsmall hy,
        toDigits_of_canonical hspelled.whole, hspelled.eq_mantissa hexponent, Numeral.mantissa,
        hsign, hform]
      exact (List.append_nil _).symm
  | some digits =>
    rw [hform, Option.getD_some] at hsmall hbound
    obtain ⟨hlength, hlast⟩ := hfraction digits hform
    obtain ⟨hne, hdigits⟩ := hspelled.fraction digits hform
    rw [Numeral.value_fraction hexponent hform hbound] at hvalue
    obtain ⟨y, hscale, rfl⟩ := Numeral.signed_eq_ok hvalue
    obtain rfl := Option.some.inj hversion
    have hplain := plain_shortest_scale hspelled.whole hdigits hne hlength hlast hsmall hscale
    rw [display_float, Binary64.shortest_withSign, hplain, hspelled.eq_mantissa hexponent,
      Numeral.mantissa, hform, List.append_assoc]
    rfl

theorem shown_exponent (hspelled : n.SpelledAs spelled) (hvalue : n.value = .ok x)
    (hversion : Version.ofJson? (.number x) = some v) (hexponent : n.exponent ≠ none) :
    v.display.toList ≠ spelled := by
  obtain ⟨y, rfl, -⟩ := Numeral.value_eq_float (.inr hexponent) hvalue
  obtain rfl := Option.some.inj hversion
  rintro rfl
  have hletter := hspelled.letter_mem hexponent
  rw [display_float] at hletter
  have hshown : ∀ c ∈ (if y.negative then ['-'] else []) ++ (y.shortest .up).plain,
      c = '-' ∨ isDigit c = true ∨ c = '.' := by
    intro c hc
    rcases List.mem_append.mp hc with hc | hc
    · split at hc
      · exact .inl (List.mem_singleton.mp hc)
      · cases hc
    · exact .inr (Decimal.mem_plain (Binary64.shortest_digits .up y).1 hc)
  rcases hletter with hletter | hletter
  · exact absurd (hshown _ hletter) (by decide)
  · exact absurd (hshown _ hletter) (by decide)

/-- The fraction of a double that is not zero has no zero at its end, unless all places are
zeros. -/
theorem shown_zero (hspelled : n.SpelledAs spelled) (hvalue : n.value = .ok x)
    (hversion : Version.ofJson? (.number x) = some v) {digits : List Char}
    (hexponent : n.exponent = none) (hfraction : n.fraction = some digits)
    (hlast : digits.getLast? = some '0') : v.display.toList ≠ spelled := by
  obtain ⟨y, rfl, hsign⟩ := Numeral.value_eq_float (.inl (by simp [hfraction])) hvalue
  obtain rfl := Option.some.inj hversion
  intro heq
  rw [display_float, hspelled.eq_mantissa hexponent, Numeral.mantissa, hfraction, hsign,
    List.append_assoc] at heq
  obtain ⟨hdigits, hend⟩ := Binary64.shortest_digits .up y
  have hpositional := Decimal.positional_of_plain_eq hdigits (List.append_cancel_left heq)
  cases hzero : y.isZero with
  | true =>
    rw [Binary64.shortest, hzero, if_pos rfl] at hpositional
    have hnil : digits = [] := (Prod.mk.inj hpositional).2.symm
    rw [hnil] at hlast
    cases hlast
  | false =>
    obtain ⟨-, hwhole, hzeros⟩ := Decimal.positional_of_getLast? (hend hzero) (by rwa [hpositional])
    rw [hpositional] at hwhole hzeros
    dsimp only at hwhole hzeros
    have hspelledZero : Numeral.spelled 0 (n.whole ++ digits) = 0 := by
      rw [hwhole]
      exact spelled_eq_zero fun c hc =>
        (List.mem_append.mp hc).elim List.mem_singleton.mp (hzeros c)
    rw [Numeral.value_fraction hexponent hfraction (by rw [hspelledZero]; decide), hspelledZero]
      at hvalue
    obtain ⟨z, hscale, hfloat⟩ := Numeral.signed_eq_ok hvalue
    obtain rfl := Number.float.inj hfloat
    have hlength : 0 < digits.length := List.length_pos_iff.mpr (by rintro rfl; cases hlast)
    have hz := Numeral.isZero_of_scale_zero hlength hscale
    exact absurd (hz.symm.trans hzero) (by decide)

/-- The version of a numeral is shown so. -/
theorem numeralShown (hspelled : n.SpelledAs spelled) (hvalue : n.value = .ok x)
    (hversion : Version.ofJson? (.number x) = some v) :
    NumeralShown n spelled v.display.toList where
  whole hsign hfraction hexponent hsmall :=
    shown_whole hspelled hvalue hversion hsign hfraction hexponent hsmall
  short hexponent hfraction hsmall :=
    shown_short hspelled hvalue hversion hexponent hfraction hsmall
  exponent hexponent := shown_exponent hspelled hvalue hversion hexponent
  zero _ hexponent hfraction hlast := shown_zero hspelled hvalue hversion hexponent hfraction hlast

/-! ### How a version is shown -/

/-- How a version is shown, against the text that starts with it. -/
inductive VersionShown (cs : List Char) (shown : String) : Prop
  /-- A text is shown as its characters. -/
  | text {tail rest : List Char} (starts : skipBlanks cs = '"' :: tail)
      (string : readString tail = .ok (shown, rest))
  /-- A number is shown as a number is, against all the characters that spell it. -/
  | number {n : Numeral} {spelled rest : List Char} (starts : skipBlanks cs = spelled ++ rest)
      (ends : skipValue cs = .ok rest) (numeral : n.SpelledAs spelled)
      (number : NumeralShown n spelled shown.toList)

/-- The version that stands in a text is shown as it is spelled if it is a text, an integer of 64
bits, or a decimal of at most fifteen digits; it is not if it has an exponent or a zero at the end
of its fraction. -/
theorem version_is_shown {text : String} (h : readTaxonomy text = .ok t) :
    ∃ cs, versionAt? text = some cs ∧ VersionShown cs t.version.display := by
  obtain ⟨cs, hat, hread⟩ := version_readFrom h
  refine ⟨cs, hat, ?_⟩
  obtain ⟨rest, hskip, ⟨tail, s, hcs, hstring, hversion⟩ |
    ⟨n, spelled, x, hcs, hspelled, hvalue, hversion⟩⟩ := hread.form
  · rw [hversion]
    exact .text hcs hstring
  · exact .number hcs hskip hspelled (numeralShown hspelled hvalue hversion)

/-- A taxonomy without words, whose version is spelled so. -/
def versionedText (spelled : String) : String :=
  "\x7b\"version\":" ++ spelled ++ ",\"keywords\":\x7b\x7d,\"types\":\x7b\x7d," ++
    "\"contextual_identifiers\":\x7b\x7d,\"all_keywords\":[]\x7d"

/-- What is shown of a taxonomy's version, if the taxonomy can be read. -/
def shownVersion? (text : String) : Option String :=
  (readTaxonomy text).toOption.map (·.version.display)

theorem readTaxonomy_of_shownVersion? {text shown : String} (h : shownVersion? text = some shown) :
    ∃ t, readTaxonomy text = .ok t ∧ t.version.display = shown := by
  rw [shownVersion?] at h
  cases hread : readTaxonomy text with
  | error e => rw [hread] at h; cases h
  | ok t =>
    rw [hread] at h
    exact ⟨t, rfl, Option.some.inj h⟩

/-- A short decimal is shown as it is spelled. -/
theorem version_is_shown_short : ∃ t, readTaxonomy (versionedText "-0.75") = .ok t ∧
    t.version.display = "-0.75" ∧
    ∃ cs, versionAt? (versionedText "-0.75") = some cs ∧ VersionShown cs t.version.display := by
  obtain ⟨t, hread, hshown⟩ :=
    readTaxonomy_of_shownVersion? (show shownVersion? (versionedText "-0.75") = some "-0.75" by
      decide +kernel)
  exact ⟨t, hread, hshown, version_is_shown hread⟩

/-- A version is shown verbatim: a text as its characters, a number as it is spelled. -/
def ShownVerbatim (cs : List Char) (shown : String) : Prop :=
  match skipBlanks cs with
  | '"' :: tail => ∃ rest, readString tail = .ok (shown, rest)
  | start => ∃ rest, start = shown.toList ++ rest ∧ skipValue cs = .ok rest

/-- A zero at the end of a fraction is not shown. -/
theorem version_is_not_verbatim : ¬ ∀ text t, readTaxonomy text = .ok t →
    ∃ cs, versionAt? text = some cs ∧ ShownVerbatim cs t.version.display := by
  intro h
  obtain ⟨t, hread, hshown⟩ :=
    readTaxonomy_of_shownVersion? (show shownVersion? (versionedText "1.10") = some "1.1" by
      decide +kernel)
  obtain ⟨cs, hat, hverbatim⟩ := h _ t hread
  rw [hshown] at hverbatim
  have hvalue : (versionAt? (versionedText "1.10")).map
      (fun cs => (cs.take 4, (skipValue cs).toOption.bind List.head?)) =
        some (['1', '.', '1', '0'], some ',') := by
    decide +kernel
  rw [hat] at hvalue
  obtain ⟨hspelled, hbehind⟩ := Prod.mk.inj (Option.some.inj hvalue)
  have hcs : skipBlanks cs = '1' :: '.' :: '1' :: '0' :: cs.drop 4 := by
    rw [← List.take_append_drop 4 cs, hspelled]
    rfl
  rw [ShownVerbatim, hcs] at hverbatim
  obtain ⟨rest, hrest, hskip⟩ := hverbatim
  have hrest : "1.1".toList ++ '0' :: cs.drop 4 = "1.1".toList ++ rest := hrest
  rw [hskip, ← List.append_cancel_left hrest] at hbehind
  have hcomma : '0' = ',' := Option.some.inj hbehind
  exact absurd hcomma (by decide)

end Taxonomy
end GrammarSync
