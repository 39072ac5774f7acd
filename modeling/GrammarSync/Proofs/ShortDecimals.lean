/-
# Short decimals come back

A decimal of at most fifteen digits is rounded to a double whose shortest
digits are the digits of the decimal again (`shortest_eq`). For the numbers
that round to one double are at most a unit apart, which is less than the last
place of such a decimal: no other number with the same places is among them
(`grid_unique`), and no shorter one, which would have these places too
(`search_eq`).

Numerals of so few digits are rounded only once: their digits are a double, and
so are the powers of ten up to the 22nd (`roundsTo_scale`).

Key theorems: `ofUnits_mul_pow`, `leadingExponent_spec`, `holds_iff`,
`search_eq`, `grid_unique`, `shortest_eq`, `roundsTo_scale`, `value_fraction`,
`value_whole`, `value_eq_float`.
-/
import GrammarSync.Proofs.Digits
import GrammarSync.Proofs.Rounding
import Mathlib.Data.Nat.Cast.Order.Field

namespace GrammarSync
namespace Decimal

theorem ten_zpow_pos (e : Int) : (0 : ℚ) < 10 ^ e :=
  zpow_pos (by norm_num) e

theorem ten_zpow_add (a b : Int) : (10 : ℚ) ^ (a + b) = 10 ^ a * 10 ^ b :=
  zpow_add₀ (by norm_num) a b

/-! ### Scaling by powers of ten -/

theorem scaled_value (num : Nat) {den : Nat} (hden : 0 < den) (s : Int) :
    0 < (scaled num den s).2 ∧
      ((scaled num den s).1 : ℚ) / (scaled num den s).2 = num / den * 10 ^ s := by
  unfold scaled
  split
  · rename_i hs
    refine ⟨Nat.mul_pos hden (Nat.pow_pos (by decide)), ?_⟩
    have hpow := zpow_of_neg 10 hs
    rw [Nat.cast_ofNat] at hpow
    rw [hpow, Nat.cast_mul, ← div_div, div_eq_mul_inv (num / den : ℚ)]
  · rename_i hs
    refine ⟨hden, ?_⟩
    have hpow := zpow_of_nonneg 10 (not_lt.mp hs)
    rw [Nat.cast_ofNat] at hpow
    rw [hpow, Nat.cast_mul, mul_div_right_comm]

/-- The scaled denominator does not depend on the numerator. -/
theorem scaled_snd (num num' den : Nat) (s : Int) :
    (scaled num den s).2 = (scaled num' den s).2 := by
  unfold scaled
  split <;> rfl

/-! ### Zeros at the end -/

theorem ofUnits_mul_ten {n : Nat} (hn : 0 < n) (unit : Int) :
    ofUnits (n * 10) unit = ofUnits n (unit + 1) := by
  have hdigits : Nat.toDigits 10 (n * 10) = Nat.toDigits 10 n ++ ['0'] := by
    rw [Nat.toDigits_of_base_le (by decide) (by omega), Nat.mul_div_cancel _ (by decide),
      Nat.mul_mod_left]
    rfl
  rw [ofUnits, ofUnits, hdigits]
  refine Decimal.mk.injEq .. |>.mpr ⟨?_, ?_⟩
  · rw [List.reverse_append, List.reverse_singleton, List.singleton_append,
      List.dropWhile_cons_of_pos rfl]
  · rw [List.length_append, List.length_singleton]
    push_cast
    omega

/-- Zeros at the end of the digits move into the place value. -/
theorem ofUnits_mul_pow {n : Nat} (hn : 0 < n) (k : Nat) (unit : Int) :
    ofUnits (n * 10 ^ k) unit = ofUnits n (unit + k) := by
  induction k generalizing unit with
  | zero => rw [pow_zero, Nat.mul_one, Nat.cast_zero, add_zero]
  | succ k ih =>
    rw [pow_succ, ← Nat.mul_assoc, ofUnits_mul_ten (Nat.mul_pos hn (Nat.pow_pos (by decide))), ih]
    congr 1
    push_cast
    ring

/-! ### The leading digit -/

/-- The count of the digits of a number is its size. -/
theorem toDigits_bounds {n : Nat} (hn : 0 < n) :
    ∃ k, (Nat.toDigits 10 n).length = k + 1 ∧ 10 ^ k ≤ n ∧ n < 10 ^ (k + 1) := by
  induction n using Nat.strongRecOn with
  | ind n ih =>
    by_cases hlt : n < 10
    · exact ⟨0, by rw [Nat.toDigits_of_lt_base hlt, List.length_singleton], hn, hlt⟩
    · obtain ⟨k, hlength, hlow, hhigh⟩ := ih (n / 10) (by omega) (by omega)
      refine ⟨k + 1, ?_, ?_, ?_⟩
      · rw [Nat.toDigits_of_base_le (by decide) (not_lt.mp hlt), List.length_append, hlength,
          List.length_singleton]
      · rw [pow_succ]
        omega
      · rw [pow_succ]
        omega

theorem leadingZeros_spec {num den bound : Nat} (k : Nat) (hlt : num < den)
    (hbound : den ≤ num * 10 ^ bound) :
    ∃ j, leadingZeros num den bound k = k + j ∧ num * 10 ^ j < den ∧ den ≤ num * 10 ^ (j + 1) := by
  induction bound generalizing num k with
  | zero => omega
  | succ bound ih =>
    rw [leadingZeros]
    split
    · rename_i hnext
      obtain ⟨j, heq, hlow, hhigh⟩ := ih (k + 1) hnext (by rwa [Nat.mul_assoc, ← Nat.pow_succ'])
      refine ⟨j + 1, by omega, ?_, ?_⟩
      · rwa [Nat.pow_succ', ← Nat.mul_assoc]
      · rwa [Nat.pow_succ', ← Nat.mul_assoc]
    · rename_i hnext
      exact ⟨0, by omega, by omega, by omega⟩

/-- The leading digit stands at the size of the number. -/
theorem leadingExponent_spec {num den : Nat} (hden : 0 < den) (hnum : den ≤ num * 10 ^ 400) :
    (10 : ℚ) ^ leadingExponent num den ≤ num / den ∧
      (num : ℚ) / den < 10 ^ (leadingExponent num den + 1) := by
  have hq : (0 : ℚ) < den := by exact_mod_cast hden
  rw [leadingExponent]
  by_cases hle : den ≤ num
  · obtain ⟨k, hlength, hlow, hhigh⟩ := toDigits_bounds (Nat.div_pos hle hden)
    rw [if_pos hle, hlength, show ((k + 1 : Nat) : Int) - 1 = (k : Int) by omega,
      show (k : Int) + 1 = ((k + 1 : Nat) : Int) by omega, zpow_natCast, zpow_natCast,
      le_div_iff₀ hq, div_lt_iff₀ hq]
    rw [Nat.le_div_iff_mul_le hden] at hlow
    rw [Nat.div_lt_iff_lt_mul hden] at hhigh
    exact ⟨by exact_mod_cast hlow, by exact_mod_cast hhigh⟩
  · obtain ⟨j, heq, hlow, hhigh⟩ := leadingZeros_spec 0 (not_le.mp hle) hnum
    rw [if_neg hle, heq, Nat.zero_add, show -(j : Int) - 1 = -((j + 1 : Nat) : Int) by omega,
      show -((j + 1 : Nat) : Int) + 1 = -(j : Int) by omega, zpow_neg, zpow_neg, zpow_natCast,
      zpow_natCast, le_div_iff₀ hq, div_lt_iff₀ hq, inv_mul_le_iff₀ (by positivity),
      lt_inv_mul_iff₀ (by positivity)]
    rw [Nat.mul_comm] at hlow hhigh
    exact ⟨by exact_mod_cast hhigh, by exact_mod_cast hlow⟩

end Decimal

namespace Binary64

open Decimal

variable {r : Rounding} {tie : Tie}

/-! ### Neighbours in the interval -/

theorem Rounding.Contains.between {p q s : ℚ} (hp : r.Contains p) (hs : r.Contains s)
    (hpq : p ≤ q) (hqs : q ≤ s) : r.Contains q :=
  ⟨hp.low.trans hpq, hqs.trans hs.high, fun h =>
    ⟨(hp.opened h).1.trans_le hpq, hqs.trans_lt (hs.opened h).2⟩⟩

/-- The test in whole numbers is about the interval of rational numbers. -/
theorem Rounding.holds_iff (hden : 0 < r.den) (s : Int) (c : Nat) :
    r.holds s c = true ↔ r.Contains (c * 10 ^ (-s)) := by
  obtain ⟨hpos, hlow⟩ := Decimal.scaled_value r.low hden s
  obtain ⟨-, hhigh⟩ := Decimal.scaled_value r.high hden s
  rw [scaled_snd r.high r.low] at hhigh
  rw [holds]
  generalize Decimal.scaled r.low r.den s = low at hpos hlow hhigh ⊢
  generalize (Decimal.scaled r.high r.den s).1 = high at hhigh ⊢
  obtain ⟨low, den⟩ := low
  dsimp only at hpos hlow hhigh ⊢
  have hq : (0 : ℚ) < den := by exact_mod_cast hpos
  have hten := ten_zpow_pos s
  have hle : (r.low : ℚ) / r.den ≤ c * 10 ^ (-s) ↔ low ≤ c * den := by
    rw [zpow_neg, ← div_eq_mul_inv, le_div_iff₀ hten, ← hlow, div_le_iff₀ hq]
    exact_mod_cast Iff.rfl
  have hlt : (r.low : ℚ) / r.den < c * 10 ^ (-s) ↔ low < c * den := by
    rw [zpow_neg, ← div_eq_mul_inv, lt_div_iff₀ hten, ← hlow, div_lt_iff₀ hq]
    exact_mod_cast Iff.rfl
  have hge : c * 10 ^ (-s) ≤ (r.high : ℚ) / r.den ↔ c * den ≤ high := by
    rw [zpow_neg, ← div_eq_mul_inv, div_le_iff₀ hten, ← hhigh, le_div_iff₀ hq]
    exact_mod_cast Iff.rfl
  have hgt : c * 10 ^ (-s) < (r.high : ℚ) / r.den ↔ c * den < high := by
    rw [zpow_neg, ← div_eq_mul_inv, div_lt_iff₀ hten, ← hhigh, lt_div_iff₀ hq]
    exact_mod_cast Iff.rfl
  cases hclosed : r.closed with
  | true =>
    rw [if_pos rfl, Bool.and_eq_true, decide_eq_true_eq, decide_eq_true_eq, ← hle, ← hge]
    exact ⟨fun h => ⟨h.1, h.2, fun hopen => by rw [hclosed] at hopen; cases hopen⟩,
      fun h => ⟨h.low, h.high⟩⟩
  | false =>
    rw [if_neg Bool.false_ne_true, Bool.and_eq_true, decide_eq_true_eq, decide_eq_true_eq, ← hlt,
      ← hgt]
    exact ⟨fun h => ⟨h.1.le, h.2.le, fun _ => h⟩, fun h => h.opened hclosed⟩

/-- The neighbour found lies in the interval; if none is found, neither of the two does. -/
theorem Rounding.neighbour?_spec (r : Rounding) (tie : Tie) (s : Int) :
    match r.neighbour? tie s with
    | some c => r.holds s c = true
    | none =>
      let middle := Decimal.scaled r.num r.den s
      r.holds s (middle.1 / middle.2) = false ∧ r.holds s (middle.1 / middle.2 + 1) = false := by
  rw [neighbour?]
  generalize Decimal.scaled r.num r.den s = middle
  obtain ⟨num, den⟩ := middle
  dsimp only
  generalize hlow : r.holds s (num / den) = low
  generalize hhigh : r.holds s (num / den + 1) = high
  cases low <;> cases high
  · exact ⟨rfl, rfl⟩
  · exact hhigh
  · exact hlow
  · cases tie <;> dsimp only <;> split_ifs
    all_goals first | exact hlow | exact hhigh

theorem Rounding.contains_of_neighbour? (hden : 0 < r.den) {s : Int} {c : Nat}
    (h : r.neighbour? tie s = some c) : r.Contains (c * 10 ^ (-s)) := by
  have hspec := r.neighbour?_spec tie s
  rw [h] at hspec
  exact (holds_iff hden s c).mp hspec

/-- If a number of the grid lies in the interval, a neighbour of its middle does. -/
theorem Rounding.neighbour?_ne_none (hden : 0 < r.den) (hmiddle : r.Contains (r.num / r.den))
    {s : Int} {c : Nat} (h : r.Contains (c * 10 ^ (-s))) : r.neighbour? tie s ≠ none := by
  intro hnone
  have hspec := r.neighbour?_spec tie s
  rw [hnone] at hspec
  obtain ⟨hlow, hhigh⟩ := hspec
  obtain ⟨hpos, hscaled⟩ := Decimal.scaled_value r.num hden s
  generalize Decimal.scaled r.num r.den s = middle at hlow hhigh hpos hscaled
  obtain ⟨num, den⟩ := middle
  dsimp only at hlow hhigh hpos hscaled
  have hq : (0 : ℚ) < den := by exact_mod_cast hpos
  have hten := ten_zpow_pos s
  have hgrid : (r.num : ℚ) / r.den = num / den * 10 ^ (-s) := by
    rw [hscaled, zpow_neg, mul_assoc, mul_inv_cancel₀ hten.ne', mul_one]
  have hfloor : ((num / den : Nat) : ℚ) ≤ num / den := Nat.cast_div_le
  have hceil : (num : ℚ) / den < (num / den + 1 : Nat) := by
    rw [div_lt_iff₀ hq]
    exact_mod_cast (Nat.div_lt_iff_lt_mul hpos).mp (Nat.lt_succ_self _)
  rcases Nat.lt_or_ge (num / den) c with hlt | hge
  · have hin : r.Contains (((num / den + 1 : Nat) : ℚ) * 10 ^ (-s)) := by
      refine hmiddle.between h ?_ ?_
      · rw [hgrid]
        exact mul_le_mul_of_nonneg_right hceil.le (ten_zpow_pos _).le
      · exact mul_le_mul_of_nonneg_right (by exact_mod_cast hlt) (ten_zpow_pos _).le
    rw [(holds_iff hden s _).mpr hin] at hhigh
    cases hhigh
  · have hin : r.Contains (((num / den : Nat) : ℚ) * 10 ^ (-s)) := by
      refine h.between hmiddle ?_ ?_
      · exact mul_le_mul_of_nonneg_right (by exact_mod_cast hge) (ten_zpow_pos _).le
      · rw [hgrid]
        exact mul_le_mul_of_nonneg_right hfloor (ten_zpow_pos _).le
    rw [(holds_iff hden s _).mpr hin] at hlow
    cases hlow

/-! ### The search -/

theorem grid_finer (c : Nat) {u v : Int} (h : v ≤ u) :
    (c : ℚ) * 10 ^ u = (c * 10 ^ (u - v).toNat : Nat) * 10 ^ v := by
  rw [Nat.cast_mul, Nat.cast_pow, Nat.cast_ofNat, mul_assoc, ← zpow_natCast, ← ten_zpow_add]
  congr 2
  omega

theorem ofUnits_finer {c : Nat} (hc : 0 < c) {u v : Int} (h : v ≤ u) :
    ofUnits (c * 10 ^ (u - v).toNat) v = ofUnits c u := by
  rw [ofUnits_mul_pow hc]
  congr 1
  omega

/-- The search finds the one number in the interval that has the places of a grid. -/
theorem Rounding.search_eq (hden : 0 < r.den) (hmiddle : r.Contains (r.num / r.den)) {t : Nat}
    {v w lead : Int} (ht : 0 < t) (hvw : v ≤ w) (hcontains : r.Contains (t * 10 ^ w))
    (hunique : ∀ a b : Nat, r.Contains (a * 10 ^ v) → r.Contains (b * 10 ^ v) → a = b)
    {bound p : Nat} (hplace : v ≤ lead - p) (hbound : lead - p - v < bound) :
    r.search tie lead bound p = ofUnits t w := by
  induction bound generalizing p with
  | zero => omega
  | succ bound ih =>
    have hunit : -((p : Int) - lead) = lead - p := by ring
    rw [search]
    cases hneighbour : r.neighbour? tie (p - lead) with
    | some c =>
      have hc := contains_of_neighbour? hden hneighbour
      rw [hunit, grid_finer c hplace] at hc
      rw [grid_finer t hvw] at hcontains
      have heq := hunique _ _ hc hcontains
      have hpos : 0 < c * 10 ^ (lead - p - v).toNat :=
        heq ▸ Nat.mul_pos ht (Nat.pow_pos (by decide))
      dsimp only
      rw [← ofUnits_finer (Nat.pos_of_mul_pos_right hpos) hplace, heq, ofUnits_finer ht hvw]
    | none =>
      have hcoarse : w < lead - p := by
        refine not_le.mp fun hle => ?_
        rw [grid_finer t hle, ← hunit] at hcontains
        exact neighbour?_ne_none hden hmiddle hcontains hneighbour
      exact ih (by push_cast; omega) (by push_cast; omega)

/-! ### Short decimals -/

/-- The unit of a double with all its bits is small against the numbers that round to it. -/
theorem Rounding.Contains.unit_le {x : Binary64} (hx : x.Normal) {q : ℚ}
    (h : x.rounding.Contains q) : (2 ^ (52 : Int) - 1 / 2) * 2 ^ x.exponent ≤ q := by
  have hpos : 0 < x.significand := Nat.lt_of_lt_of_le (by decide) hx
  obtain ⟨hlow, -, -⟩ := (contains_iff hpos q).mp h
  obtain ⟨-, hgap⟩ := gap_bounds x
  have hfull : (2 : ℚ) ^ (52 : Int) ≤ x.significand := by
    rw [← fullSignificand_eq]
    exact_mod_cast hx
  exact (mul_le_mul_of_nonneg_right (by linarith) (two_zpow_pos _).le).trans hlow

/-- Where the unit is less than a place, one number with this place rounds to the double. -/
theorem grid_unique {x : Binary64} (hx : 0 < x.significand) {v : Int}
    (hunit : (2 : ℚ) ^ x.exponent < 10 ^ v) {a b : Nat} (ha : x.rounding.Contains (a * 10 ^ v))
    (hb : x.rounding.Contains (b * 10 ^ v)) : a = b := by
  have hle : ∀ {c d : Nat}, x.rounding.Contains (c * 10 ^ v) → x.rounding.Contains (d * 10 ^ v) →
      d ≤ c := by
    intro c d hc hd
    have hsub := hc.sub_le hx hd
    have hlt : ((d : ℚ) - c) * 10 ^ v < 1 * 10 ^ v := by
      rw [sub_mul, one_mul]
      exact hsub.trans_lt hunit
    have hlt : (d : ℚ) < (c + 1 : Nat) := by
      push_cast
      linarith [lt_of_mul_lt_mul_right hlt (ten_zpow_pos v).le]
    have hlt : d < c + 1 := by exact_mod_cast hlt
    omega
  exact Nat.le_antisymm (hle hb ha) (hle ha hb)

theorem le_decimal {t : Nat} {w : Int} (ht : 0 < t) (hw : -300 ≤ w) :
    (10 : ℚ) ^ (-300 : Int) ≤ t * 10 ^ w :=
  calc (10 : ℚ) ^ (-300 : Int) ≤ 10 ^ w := zpow_le_zpow_right₀ (by norm_num) hw
    _ ≤ t * 10 ^ w := le_mul_of_one_le_left (ten_zpow_pos w).le (by exact_mod_cast ht)

/-- Three decimal places are less than ten binary ones. -/
theorem least_normal_le : (2 : ℚ) ^ (53 : Int) * 2 ^ minExponent ≤ 10 ^ (-300 : Int) := by
  have hplaces : ((10 : ℚ) ^ 3) ^ 100 ≤ (2 ^ 10) ^ 100 :=
    pow_le_pow_left₀ (by norm_num) (by norm_num) 100
  rw [← pow_mul, ← pow_mul] at hplaces
  calc (2 : ℚ) ^ (53 : Int) * 2 ^ minExponent = 2 ^ (53 + minExponent) := (two_zpow_add _ _).symm
    _ ≤ 2 ^ (-(1000 : Nat) : Int) := zpow_le_zpow_right₀ (by norm_num) (by decide)
    _ = (2 ^ 1000)⁻¹ := by rw [zpow_neg, zpow_natCast]
    _ ≤ (10 ^ 300)⁻¹ := inv_anti₀ (by positivity) hplaces
    _ = 10 ^ (-(300 : Nat) : Int) := by rw [zpow_neg, zpow_natCast]

/-- The places that are searched for a leading digit suffice for doubles of this size. -/
theorem den_le_num_mul {x : Binary64} (hden : 0 < x.rounding.den)
    (hsize : (10 : ℚ) ^ (-300 : Int) ≤ 2 * x.magnitude) :
    x.rounding.den ≤ x.rounding.num * 10 ^ 400 := by
  have hle : (1 : ℚ) ≤ x.magnitude * 10 ^ 400 := by
    have hpower : (10 : ℚ) ^ (-300 : Int) * 10 ^ 400 = 10 ^ 100 := by
      rw [← zpow_natCast, ← ten_zpow_add, ← zpow_natCast]
      norm_num
    have hscaled := mul_le_mul_of_nonneg_right hsize (by positivity : (0 : ℚ) ≤ 10 ^ 400)
    have htwo : (2 : ℚ) * 1 ≤ 10 ^ 100 := by norm_num
    rw [hpower, mul_assoc] at hscaled
    exact le_of_mul_le_mul_left (htwo.trans hscaled) (by norm_num)
  have hq : (0 : ℚ) < x.rounding.den := by exact_mod_cast hden
  rw [← num_div_den, div_mul_eq_mul_div, le_div_iff₀ hq, one_mul] at hle
  exact_mod_cast hle

/-- A decimal of at most fifteen digits comes back. -/
theorem shortest_eq {x : Binary64} {t : Nat} {w : Int} (ht : 0 < t) (hdigits : t < 10 ^ 15)
    (hw : -300 ≤ w) (h : RoundsTo (t * 10 ^ w) x) (tie : Tie) : x.shortest tie = ofUnits t w := by
  obtain ⟨u, m, hrounded, rfl⟩ := h
  have hleast := le_decimal ht hw
  have hnormal := hrounded.normal (least_normal_le.trans hleast)
  have hpos : 0 < (carried m u).significand := Nat.lt_of_lt_of_le (by decide) hnormal
  have hcontains := hrounded.contains hpos
  clear hrounded
  generalize carried m u = x at hnormal hpos hcontains ⊢
  have hmagnitude := contains_magnitude hpos
  obtain ⟨_, -, -, hden, -⟩ := rounding_quarters x
  have hmiddle : x.rounding.Contains (x.rounding.num / x.rounding.den) := by
    rwa [num_div_den]
  -- A unit is less than a place of the decimal, and than one of the double's leading digit.
  have hunit := hcontains.unit_le hnormal
  have hunit' := hmagnitude.unit_le hnormal
  have hupper := hcontains.sub_le hpos hmagnitude
  have hlower := hmagnitude.sub_le hpos hcontains
  rw [show (2 : ℚ) ^ (52 : Int) = 4503599627370496 by norm_num] at hunit hunit'
  have htwo := two_zpow_pos x.exponent
  have hten := ten_zpow_pos w
  have hshort : (t : ℚ) * 10 ^ w < 10 ^ 15 * 10 ^ w :=
    mul_lt_mul_of_pos_right (by exact_mod_cast hdigits) hten
  have hplace : (2 : ℚ) ^ x.exponent < 10 ^ w := by linarith
  have hbig := den_le_num_mul hden (by linarith)
  obtain ⟨hleadlow, hleadhigh⟩ := leadingExponent_spec hden hbig
  rw [num_div_den] at hleadlow hleadhigh
  have hzero : x.isZero = false := by
    rw [isZero, decide_eq_false_iff_not]
    exact hpos.ne'
  rw [shortest, hzero, if_neg Bool.false_ne_true]
  dsimp only
  generalize leadingExponent x.rounding.num x.rounding.den = lead at hleadlow hleadhigh ⊢
  rcases le_or_gt w lead with hle | hlt
  · have hlead : (10 : ℚ) ^ lead < 10 ^ (w + 16) := by
      rw [ten_zpow_add, show (10 : ℚ) ^ (16 : Int) = 10 * 10 ^ 15 by norm_num]
      linarith
    have hlead := (zpow_lt_zpow_iff_right₀ (by norm_num)).mp hlead
    exact Rounding.search_eq hden hmiddle ht (le_refl w) hcontains
      (fun a b ha hb => grid_unique hpos hplace ha hb) (by push_cast; omega) (by push_cast; omega)
  · -- The double is just below a power of ten, to which the decimal is equal.
    rw [zpow_add_one₀ (by norm_num)] at hleadhigh
    have hplace' : (2 : ℚ) ^ x.exponent < 10 ^ lead := by linarith
    exact Rounding.search_eq hden hmiddle ht hlt.le hcontains
      (fun a b ha hb => grid_unique hpos hplace' ha hb) (by push_cast; omega) (by push_cast; omega)

end Binary64

/-! ### The values of short numerals -/

namespace Numeral

open Binary64

/-- Powers of ten up to this one are doubles. -/
theorem powerOfTen_exact {k : Nat} (hk : k ≤ 22) :
    ∃ p, ofNat? (Nat.pow 10 k) = some p ∧ p.magnitude = 10 ^ k ∧ 0 < p.significand := by
  have hfive : 5 ^ k < 2 ^ 53 :=
    Nat.lt_of_le_of_lt (Nat.pow_le_pow_right (by decide) hk) (by decide)
  obtain ⟨p, hp, -, hmagnitude, hpos⟩ := ofNat?_exact (n := 10 ^ k) (j := 5 ^ k) (i := k)
    (by rw [← Nat.mul_pow]) (Nat.pow_pos (by decide)) hfive (by omega)
  refine ⟨p, hp, ?_, hpos⟩
  rw [hmagnitude]
  push_cast
  rfl

/-- Few digits behind the point are divided by one power of ten. -/
theorem scale_eq_overPower {m k : Nat} {x : Binary64} (hx : ofNat? m = some x) (hk : 0 < k)
    (hk' : k ≤ 22) : scale m (-k) = if x.isZero then some x else overPower x k := by
  have hsteps : (k - 1) / 308 = 0 := Nat.div_eq_of_lt (by omega)
  rw [scale, hx]
  dsimp only [Option.bind_eq_bind, Option.bind_some]
  rw [if_neg (by omega), Int.natAbs_neg, Int.natAbs_natCast, hsteps, divideDown, Option.bind_some,
    Nat.mul_zero, Nat.sub_zero]

/-- Digits behind the point are divided by one power of ten. -/
theorem roundsTo_scale {m k : Nat} {x : Binary64} (hm : 0 < m) (hdigits : m < 10 ^ 15) (hk : 0 < k)
    (hk' : k ≤ 22) (h : scale m (-k) = some x) : RoundsTo (m * 10 ^ (-k : Int)) x := by
  obtain ⟨y, hy, -, hmagnitude, hpos⟩ := ofNat?_exact (n := m) (j := m) (i := 0)
    (by rw [pow_zero, mul_one]) hm (Nat.lt_of_lt_of_le hdigits (by decide)) (by decide)
  obtain ⟨p, hp, hten, hpos'⟩ := powerOfTen_exact hk'
  have hzero : y.isZero = false := by
    rw [isZero, decide_eq_false_iff_not]
    exact hpos.ne'
  rw [scale_eq_overPower hy hk hk', hzero, if_neg Bool.false_ne_true, overPower, hp] at h
  have hrounds := roundsTo_of_div? hpos hpos' h
  rwa [hmagnitude, hten, div_eq_mul_inv, ← zpow_natCast, ← zpow_neg] at hrounds

theorem isZero_of_scale_zero {k : Nat} {x : Binary64} (hk : 0 < k) (h : scale 0 (-k) = some x) :
    x.isZero = true := by
  have hzero : ofNat? 0 = some (zero false) := rfl
  have hdown : ∀ steps, divideDown (zero false) steps = some (zero false) := by
    intro steps
    cases steps with
    | zero => rfl
    | succ steps => rw [divideDown, if_pos (by decide)]
  rw [scale, hzero] at h
  dsimp only [Option.bind_eq_bind, Option.bind_some] at h
  rw [if_neg (by omega), hdown, Option.bind_some, if_pos (by decide)] at h
  rw [← Option.some.inj h]
  rfl

theorem spelled_append (s : Nat) (whole digits : List Char) :
    spelled s (whole ++ digits) = spelled (spelled s whole) digits :=
  List.foldl_append

/-- A numeral with a fraction is the double of its digits over a power of ten. -/
theorem value_fraction {n : Numeral} {digits : List Char} (hexponent : n.exponent = none)
    (hfraction : n.fraction = some digits)
    (hsmall : spelled 0 (n.whole ++ digits) < significandBound) :
    n.value = signed n.negative (scale (spelled 0 (n.whole ++ digits)) (-digits.length)) := by
  rw [spelled_append] at hsmall ⊢
  have hwhole := readWhole_of_lt (Nat.lt_of_le_of_lt (le_spelled _ digits) hsmall)
  have hdigits : readFraction (spelled 0 n.whole) 0 digits = _ := readFraction_of_lt hsmall
  rw [value, hwhole, hfraction, hexponent]
  dsimp only
  rw [if_neg (by simp), Option.getD_some, hdigits]
  have hshift : ((0 : Nat) : Int) - ((0 + digits.length : Nat) : Int) = -digits.length := by omega
  dsimp only
  rw [hshift]

/-- A numeral without a fraction and an exponent is an integer, or the double of a negative one
that does not fit. -/
theorem value_whole {n : Numeral} (hexponent : n.exponent = none) (hfraction : n.fraction = none)
    (hsmall : spelled 0 n.whole < significandBound) :
    n.value =
      if !n.negative then .ok (.int (spelled 0 n.whole))
      else if 0 < spelled 0 n.whole ∧ spelled 0 n.whole ≤ Nat.pow 2 63 then
        .ok (.int (-(spelled 0 n.whole)))
      else signed n.negative (Binary64.ofNat? (spelled 0 n.whole)) := by
  rw [value, readWhole_of_lt hsmall]
  dsimp only
  rw [if_pos ⟨by rw [hfraction]; rfl, by rw [hexponent]; rfl, rfl⟩]

/-- A numeral with a fraction or an exponent is a double of its sign. -/
theorem value_eq_float {n : Numeral} {x : Number} (hform : n.fraction ≠ none ∨ n.exponent ≠ none)
    (h : n.value = .ok x) : ∃ y, x = .float y ∧ y.negative = n.negative := by
  have hsigned : ∀ scaled : Option Binary64, signed n.negative scaled = .ok x →
      ∃ y, x = .float y ∧ y.negative = n.negative := by
    intro scaled hscaled
    obtain ⟨y, -, rfl⟩ := signed_eq_ok hscaled
    exact ⟨_, rfl, rfl⟩
  rw [value] at h
  generalize readWhole 0 0 n.whole = read at h
  obtain ⟨m, dropped⟩ := read
  dsimp only at h
  rw [if_neg (by
    rintro ⟨hfraction, hexponent, -⟩
    rw [Option.isNone_iff_eq_none] at hfraction hexponent
    exact hform.elim (fun hne => hne hfraction) fun hne => hne hexponent)] at h
  cases hexponent : n.exponent with
  | none =>
    rw [hexponent] at h
    exact hsigned _ h
  | some e =>
    rw [hexponent] at h
    dsimp only at h
    split at h
    · exact hsigned _ h
    · split at h
      · cases h
      · exact ⟨_, (Except.ok.inj h).symm, rfl⟩

end Numeral
end GrammarSync
