/-
# The double nearest to a number

A double stands for a rational number (`Binary64.magnitude`, without its
sign). The numbers that round to it form an interval around it
(`Rounding.Contains`), and `round` takes every positive number into the
interval of the double it gives (`contains_of_round`): up to half a unit away
from it, a half only if the significand is even, and at a power of two only a
quarter below it, where the units are halved. A number that a double stands for
is rounded to itself (`magnitude_round`).

Key definitions: `Binary64.magnitude`, `Binary64.Rounding.Contains`,
`Binary64.Normal`, `Binary64.Nearest`.
Key theorems: `nearest_nearestEven`, `unitExponent_spec`, `contains_of_round`,
`magnitude_round`.
-/
import GrammarSync.Number.Shortest
import Mathlib.Algebra.Order.Field.Power
import Mathlib.Tactic.FieldSimp
import Mathlib.Tactic.Linarith
import Mathlib.Tactic.NormNum
import Mathlib.Tactic.Positivity
import Mathlib.Tactic.Ring

namespace GrammarSync

/-! ### Powers -/

theorem zpow_of_neg (b : Nat) {e : Int} (he : e < 0) :
    (b : ℚ) ^ e = ((Nat.pow b e.natAbs : Nat) : ℚ)⁻¹ := by
  rw [Nat.pow_eq, Nat.cast_pow, ← zpow_natCast, ← zpow_neg]
  congr 1
  omega

theorem zpow_of_nonneg (b : Nat) {e : Int} (he : 0 ≤ e) :
    (b : ℚ) ^ e = (Nat.pow b e.natAbs : Nat) := by
  rw [Nat.pow_eq, Nat.cast_pow, ← zpow_natCast]
  congr 1
  omega

namespace Binary64

/-- The number a double stands for, without its sign. -/
def magnitude (x : Binary64) : ℚ :=
  (x.significand : ℚ) * 2 ^ x.exponent

/-- The significand has all its bits. -/
def Normal (x : Binary64) : Prop :=
  fullSignificand ≤ x.significand

theorem two_zpow_pos (e : Int) : (0 : ℚ) < 2 ^ e :=
  zpow_pos (by norm_num) e

theorem two_zpow_add (a b : Int) : (2 : ℚ) ^ (a + b) = 2 ^ a * 2 ^ b :=
  zpow_add₀ (by norm_num) a b

/-! ### Scaling by powers of two -/

theorem scaled_value (num : Nat) {den : Nat} (hden : 0 < den) (e : Int) :
    0 < (scaled num den e).2 ∧
      ((scaled num den e).1 : ℚ) / (scaled num den e).2 = num / den * 2 ^ e := by
  unfold scaled
  split
  · rename_i he
    refine ⟨Nat.mul_pos hden (Nat.pow_pos (by decide)), ?_⟩
    have hpow := zpow_of_neg 2 he
    rw [Nat.cast_ofNat] at hpow
    rw [hpow, Nat.cast_mul, ← div_div, div_eq_mul_inv (num / den : ℚ)]
  · rename_i he
    refine ⟨hden, ?_⟩
    have hpow := zpow_of_nonneg 2 (not_lt.mp he)
    rw [Nat.cast_ofNat] at hpow
    rw [hpow, Nat.cast_mul, mul_div_right_comm]

theorem scaled_pos {num : Nat} (hnum : 0 < num) (den : Nat) (e : Int) :
    0 < (scaled num den e).1 := by
  unfold scaled
  split
  · exact hnum
  · exact Nat.mul_pos hnum (Nat.pow_pos (by decide))

/-! ### The nearest whole number -/

/-- A whole number at most a half away from a number, and even if it is a half away. -/
structure Nearest (m : Nat) (q : ℚ) : Prop where
  low : (m : ℚ) - 1 / 2 ≤ q
  high : q ≤ m + 1 / 2
  odd : m % 2 = 1 → (m : ℚ) - 1 / 2 < q ∧ q < m + 1 / 2

theorem nearest_nearestEven (num : Nat) {den : Nat} (hden : 0 < den) :
    Nearest (nearestEven num den) (num / den) := by
  have hq : (0 : ℚ) < den := by exact_mod_cast hden
  have hsplit : (num : ℚ) = (num / den : Nat) * den + (num % den : Nat) := by
    exact_mod_cast (Nat.div_add_mod' num den).symm
  have hmod : num % den < den := Nat.mod_lt _ hden
  rw [nearestEven]
  generalize num / den = q at hsplit ⊢
  generalize num % den = r at hsplit hmod ⊢
  rw [hsplit, add_div, mul_div_cancel_right₀ _ hq.ne']
  have hr : (0 : ℚ) ≤ r / den := by positivity
  have hr' : (r : ℚ) / den < 1 := by
    rw [div_lt_one hq]
    exact_mod_cast hmod
  have hsucc : ((q + 1 : Nat) : ℚ) = q + 1 := Nat.cast_succ q
  by_cases hlow : 2 * r < den
  · have hpart : (r : ℚ) / den < 1 / 2 := by
      rw [div_lt_div_iff₀ hq (by norm_num)]
      have : ((2 * r : Nat) : ℚ) < den := by exact_mod_cast hlow
      push_cast at this
      linarith
    rw [if_pos hlow]
    exact ⟨by linarith, by linarith, fun _ => ⟨by linarith, by linarith⟩⟩
  by_cases hhigh : den < 2 * r
  · have hpart : 1 / 2 < (r : ℚ) / den := by
      rw [div_lt_div_iff₀ (by norm_num) hq]
      have : (den : ℚ) < ((2 * r : Nat) : ℚ) := by exact_mod_cast hhigh
      push_cast at this
      linarith
    rw [if_neg hlow, if_pos hhigh]
    exact ⟨by linarith, by linarith, fun _ => ⟨by linarith, by linarith⟩⟩
  · have hpart : (r : ℚ) / den = 1 / 2 := by
      have heq : ((2 * r : Nat) : ℚ) = den := by exact_mod_cast (by omega : 2 * r = den)
      push_cast at heq
      rw [div_eq_div_iff hq.ne' (by norm_num)]
      linarith
    rw [if_neg hlow, if_neg hhigh, hpart]
    split
    · exact ⟨by linarith, by linarith, fun h => by omega⟩
    · exact ⟨by linarith, by linarith, fun h => by omega⟩

/-- A whole number is nearest to itself only. -/
theorem Nearest.eq_of_natCast {m c : Nat} (h : Nearest m c) : m = c := by
  have hle : (m : ℚ) < (c + 1 : Nat) := by
    push_cast
    linarith [h.low]
  have hge : (c : ℚ) < (m + 1 : Nat) := by
    push_cast
    linarith [h.high]
  have hle : m < c + 1 := by exact_mod_cast hle
  have hge : c < m + 1 := by exact_mod_cast hge
  omega

/-! ### The unit of a number -/

/-- The quotient of two numbers lies between the powers of two next to that of their sizes. -/
theorem log2_bracket {num den : Nat} (hnum : 0 < num) (hden : 0 < den) :
    (2 : ℚ) ^ ((num.log2 : Int) - den.log2 - 1) < num / den ∧
      (num : ℚ) / den < 2 ^ ((num.log2 : Int) - den.log2 + 1) := by
  have hpow : ∀ k : Nat, (2 : ℚ) ^ (k : Int) = ((2 ^ k : Nat) : ℚ) := fun k => by
    rw [zpow_natCast]
    push_cast
    rfl
  have hnumlow : (2 : ℚ) ^ (num.log2 : Int) ≤ num := by
    rw [hpow]
    exact_mod_cast Nat.log2_self_le hnum.ne'
  have hnumhigh : (num : ℚ) < 2 ^ ((num.log2 + 1 : Nat) : Int) := by
    rw [hpow]
    exact_mod_cast Nat.lt_log2_self
  have hdenlow : (2 : ℚ) ^ (den.log2 : Int) ≤ den := by
    rw [hpow]
    exact_mod_cast Nat.log2_self_le hden.ne'
  have hdenhigh : (den : ℚ) < 2 ^ ((den.log2 + 1 : Nat) : Int) := by
    rw [hpow]
    exact_mod_cast Nat.lt_log2_self
  have hq : (0 : ℚ) < den := by exact_mod_cast hden
  have hq' : (0 : ℚ) < num := by exact_mod_cast hnum
  constructor
  · rw [lt_div_iff₀ hq]
    calc (2 : ℚ) ^ ((num.log2 : Int) - den.log2 - 1) * den
      _ < 2 ^ ((num.log2 : Int) - den.log2 - 1) * 2 ^ ((den.log2 + 1 : Nat) : Int) :=
        mul_lt_mul_of_pos_left hdenhigh (two_zpow_pos _)
      _ = 2 ^ (num.log2 : Int) := by
        rw [← two_zpow_add]
        congr 1
        push_cast
        ring
      _ ≤ num := hnumlow
  · rw [div_lt_iff₀ hq]
    calc (num : ℚ) < 2 ^ ((num.log2 + 1 : Nat) : Int) := hnumhigh
      _ = 2 ^ ((num.log2 : Int) - den.log2 + 1) * 2 ^ (den.log2 : Int) := by
        rw [← two_zpow_add]
        congr 1
        push_cast
        ring
      _ ≤ 2 ^ ((num.log2 : Int) - den.log2 + 1) * den :=
        mul_le_mul_of_nonneg_left hdenlow (two_zpow_pos _).le

/-- The unit of a number leaves 53 bits in front of the point, unless it is the least unit. -/
theorem unitExponent_spec {num den : Nat} (hnum : 0 < num) (hden : 0 < den) :
    minExponent ≤ unitExponent num den ∧
      (num : ℚ) / den < 2 ^ (53 : Int) * 2 ^ unitExponent num den ∧
      (minExponent < unitExponent num den →
        (2 : ℚ) ^ (52 : Int) * 2 ^ unitExponent num den ≤ num / den) := by
  obtain ⟨hlow, hhigh⟩ := log2_bracket hnum hden
  have hunit : unitExponent num den = max minExponent
      (if (scaled num den (-((num.log2 : Int) - den.log2 - 52))).1 /
        (scaled num den (-((num.log2 : Int) - den.log2 - 52))).2 < fullSignificand
      then (num.log2 : Int) - den.log2 - 52 - 1 else (num.log2 : Int) - den.log2 - 52) := rfl
  generalize he : (num.log2 : Int) - den.log2 - 52 = e at hunit
  rw [show (num.log2 : Int) - den.log2 - 1 = 52 + (e - 1) by omega, two_zpow_add] at hlow
  rw [show (num.log2 : Int) - den.log2 + 1 = 53 + e by omega, two_zpow_add] at hhigh
  have hfull : (num : ℚ) / den < 2 ^ (52 : Int) * 2 ^ e ↔
      (scaled num den (-e)).1 / (scaled num den (-e)).2 < fullSignificand := by
    obtain ⟨hpos, hscaled⟩ := scaled_value num hden (-e)
    have hpos' : (0 : ℚ) < (scaled num den (-e)).2 := by exact_mod_cast hpos
    have hcast : (2 : ℚ) ^ (52 : Int) = fullSignificand := by norm_num [fullSignificand]
    rw [← div_lt_iff₀ (two_zpow_pos e), div_eq_mul_inv _ ((2 : ℚ) ^ e), ← zpow_neg, ← hscaled,
      div_lt_iff₀ hpos', hcast, Nat.div_lt_iff_lt_mul hpos]
    exact_mod_cast Iff.rfl
  -- Without the least unit the quotient has exactly 53 bits in front of the point.
  obtain ⟨u, hu, hult, hule⟩ : ∃ u, unitExponent num den = max minExponent u ∧
      (num : ℚ) / den < 2 ^ (53 : Int) * 2 ^ u ∧ (2 : ℚ) ^ (52 : Int) * 2 ^ u ≤ num / den := by
    by_cases hsmall : (num : ℚ) / den < 2 ^ (52 : Int) * 2 ^ e
    · refine ⟨e - 1, by rw [hunit, if_pos (hfull.mp hsmall)], ?_, hlow.le⟩
      calc (num : ℚ) / den < 2 ^ (52 : Int) * 2 ^ e := hsmall
        _ = 2 ^ (53 : Int) * 2 ^ (e - 1) := by
          rw [← two_zpow_add, ← two_zpow_add]
          congr 1
          ring
    · exact ⟨e, by rw [hunit, if_neg (fun h => hsmall (hfull.mpr h))], hhigh, not_lt.mp hsmall⟩
  rw [hu]
  refine ⟨le_max_left _ _, ?_, fun hmin => ?_⟩
  · calc (num : ℚ) / den < 2 ^ (53 : Int) * 2 ^ u := hult
      _ ≤ 2 ^ (53 : Int) * 2 ^ max minExponent u :=
        mul_le_mul_of_nonneg_left (zpow_le_zpow_right₀ (by norm_num) (le_max_right _ _))
          (by positivity)
  · rwa [max_eq_right (by omega)]

/-! ### What rounding does -/

/-- A number has the unit `2 ^ u` and is nearest to `m` of them. -/
structure Rounded (q : ℚ) (u : Int) (m : Nat) : Prop where
  least : minExponent ≤ u
  lt : q < 2 ^ (53 : Int) * 2 ^ u
  full : minExponent < u → (2 : ℚ) ^ (52 : Int) * 2 ^ u ≤ q
  nearest : Nearest m (q / 2 ^ u)

/-- The double of `m` units, in the one way it is written. -/
def carried (m : Nat) (u : Int) : Binary64 :=
  if m = 2 * fullSignificand then ⟨false, fullSignificand, u + 1⟩ else ⟨false, m, u⟩

theorem round_eq {num den : Nat} (hnum : 0 < num) (hden : 0 < den) (e : Int) :
    ∃ u m, Rounded (num / den * 2 ^ e) u m ∧
      round num den e =
        if maxExponent < (carried m u).exponent then none else some (carried m u) := by
  obtain ⟨hden₁, hscaled⟩ := scaled_value num hden e
  have hnum₁ := scaled_pos hnum den e
  rw [round]
  generalize scaled num den e = s at hden₁ hscaled hnum₁ ⊢
  obtain ⟨n, d⟩ := s
  dsimp only at hden₁ hscaled hnum₁ ⊢
  obtain ⟨hleast, hlt, hfull⟩ := unitExponent_spec hnum₁ hden₁
  generalize unitExponent n d = u at hleast hlt hfull ⊢
  obtain ⟨hden₂, hunits⟩ := scaled_value n hden₁ (-u)
  rw [hscaled] at hlt hfull hunits
  have hnearest := nearest_nearestEven (scaled n d (-u)).1 hden₂
  rw [hunits, zpow_neg, ← div_eq_mul_inv] at hnearest
  refine ⟨u, _, ⟨hleast, hlt, hfull, hnearest⟩, ?_⟩
  rw [if_neg hnum₁.ne', carried]
  split <;> rfl

/-- The double of `m` units stands for them. -/
theorem magnitude_carried (m : Nat) (u : Int) : (carried m u).magnitude = m * 2 ^ u := by
  rw [carried]
  split
  · rename_i hm
    rw [magnitude, hm, two_zpow_add]
    push_cast
    ring
  · rfl

/-! ### The numbers that round to a double -/

/-- A number lies in the interval. -/
structure Rounding.Contains (r : Rounding) (q : ℚ) : Prop where
  low : (r.low : ℚ) / r.den ≤ q
  high : q ≤ (r.high : ℚ) / r.den
  opened : r.closed = false → (r.low : ℚ) / r.den < q ∧ q < (r.high : ℚ) / r.den

/-- How far below a double numbers round to it, in its units. -/
def gap (x : Binary64) : ℚ :=
  if x.significand = fullSignificand ∧ minExponent < x.exponent then 1 / 4 else 1 / 2

/-- The ends of the interval and the number in it are counted in quarters of a unit. -/
theorem rounding_quarters (x : Binary64) : ∃ below : Nat, (below : ℚ) = 4 * x.gap ∧ below ≤ 2 ∧
    0 < x.rounding.den ∧
    (x.rounding.low : ℚ) / x.rounding.den =
      (4 * x.significand - below : Nat) * 2 ^ (x.exponent - 2) ∧
    (x.rounding.num : ℚ) / x.rounding.den = (4 * x.significand : Nat) * 2 ^ (x.exponent - 2) ∧
    (x.rounding.high : ℚ) / x.rounding.den = (4 * x.significand + 2 : Nat) * 2 ^ (x.exponent - 2) ∧
    x.rounding.closed = decide (x.significand % 2 = 0) := by
  refine ⟨if x.significand = fullSignificand ∧ minExponent < x.exponent then 1 else 2, ?_, ?_, ?_⟩
  · rw [gap]
    split <;> norm_num
  · split <;> omega
  · rw [rounding]
    dsimp only
    split
    · rename_i he
      have hpow := zpow_of_neg 2 he
      rw [Nat.cast_ofNat] at hpow
      rw [hpow]
      exact ⟨Nat.pow_pos (by decide), div_eq_mul_inv _ _, div_eq_mul_inv _ _,
        div_eq_mul_inv _ _, rfl⟩
    · rename_i he
      have hpow := zpow_of_nonneg 2 (not_lt.mp he)
      rw [Nat.cast_ofNat] at hpow
      rw [hpow]
      have hscaled : ∀ k s : Nat, ((k * s : Nat) : ℚ) / (1 : Nat) = k * s := fun k s => by
        rw [Nat.cast_one, div_one, Nat.cast_mul]
      exact ⟨Nat.one_pos, hscaled _ _, hscaled _ _, hscaled _ _, rfl⟩

theorem contains_iff {x : Binary64} (hx : 0 < x.significand) (q : ℚ) :
    x.rounding.Contains q ↔
      (x.significand - x.gap) * 2 ^ x.exponent ≤ q ∧ q ≤ (x.significand + 1 / 2) * 2 ^ x.exponent ∧
        (x.significand % 2 = 1 → (x.significand - x.gap) * 2 ^ x.exponent < q ∧
          q < (x.significand + 1 / 2) * 2 ^ x.exponent) := by
  obtain ⟨below, hbelow, hle, -, hlow, -, hhigh, hclosed⟩ := rounding_quarters x
  have hlow : (x.rounding.low : ℚ) / x.rounding.den = (x.significand - x.gap) * 2 ^ x.exponent := by
    rw [hlow, Nat.cast_sub (by omega), zpow_sub₀ two_ne_zero, hbelow]
    push_cast
    ring
  have hhigh : (x.rounding.high : ℚ) / x.rounding.den =
      (x.significand + 1 / 2) * 2 ^ x.exponent := by
    rw [hhigh, zpow_sub₀ two_ne_zero]
    push_cast
    ring
  have hodd : x.rounding.closed = false ↔ x.significand % 2 = 1 := by
    rw [hclosed, decide_eq_false_iff_not]
    omega
  constructor
  · rintro ⟨h, h', hopened⟩
    rw [hlow, hhigh, hodd] at hopened
    exact ⟨hlow ▸ h, hhigh ▸ h', hopened⟩
  · rintro ⟨h, h', hopened⟩
    exact ⟨hlow ▸ h, hhigh ▸ h', by rwa [hlow, hhigh, hodd]⟩

theorem num_div_den (x : Binary64) : (x.rounding.num : ℚ) / x.rounding.den = x.magnitude := by
  obtain ⟨below, -, -, -, -, hnum, -⟩ := rounding_quarters x
  rw [hnum, magnitude, zpow_sub₀ two_ne_zero]
  push_cast
  ring

theorem gap_bounds (x : Binary64) : 0 < x.gap ∧ x.gap ≤ 1 / 2 := by
  rw [gap]
  split <;> norm_num

/-- A double rounds to itself. -/
theorem contains_magnitude {x : Binary64} (hx : 0 < x.significand) :
    x.rounding.Contains x.magnitude := by
  obtain ⟨hgap, -⟩ := gap_bounds x
  have hunit := two_zpow_pos x.exponent
  have hlow : (x.significand - x.gap) * 2 ^ x.exponent < x.magnitude :=
    mul_lt_mul_of_pos_right (by linarith) hunit
  have hhigh : x.magnitude < (x.significand + 1 / 2) * 2 ^ x.exponent :=
    mul_lt_mul_of_pos_right (by linarith) hunit
  exact (contains_iff hx _).mpr ⟨hlow.le, hhigh.le, fun _ => ⟨hlow, hhigh⟩⟩

/-- The numbers that round to a double are less than a unit apart, or a unit. -/
theorem Rounding.Contains.sub_le {x : Binary64} (hx : 0 < x.significand) {p q : ℚ}
    (hp : x.rounding.Contains p) (hq : x.rounding.Contains q) : q - p ≤ 2 ^ x.exponent := by
  obtain ⟨-, hgap⟩ := gap_bounds x
  have hunit := two_zpow_pos x.exponent
  obtain ⟨hlow, -, -⟩ := (contains_iff hx p).mp hp
  obtain ⟨-, hhigh, -⟩ := (contains_iff hx q).mp hq
  calc q - p
    _ ≤ (x.significand + 1 / 2) * 2 ^ x.exponent - (x.significand - x.gap) * 2 ^ x.exponent :=
        sub_le_sub hhigh hlow
    _ = (1 / 2 + x.gap) * 2 ^ x.exponent := by ring
    _ ≤ 1 * 2 ^ x.exponent := mul_le_mul_of_nonneg_right (by linarith) hunit.le
    _ = 2 ^ x.exponent := one_mul _

theorem fullSignificand_eq : (fullSignificand : ℚ) = 2 ^ (52 : Int) := by
  norm_num [fullSignificand]

/-- A number that is rounded lies in the interval of its double. -/
theorem Rounded.contains {q : ℚ} {u : Int} {m : Nat} (h : Rounded q u m)
    (hx : 0 < (carried m u).significand) : (carried m u).rounding.Contains q := by
  have hunit := two_zpow_pos u
  obtain ⟨hleast, hlt, hfull, hlow, hhigh, hodd⟩ := h
  rw [le_div_iff₀ hunit] at hlow
  rw [div_le_iff₀ hunit] at hhigh
  rw [lt_div_iff₀ hunit, div_lt_iff₀ hunit] at hodd
  rw [contains_iff hx]
  rw [carried] at hx ⊢
  by_cases hm : m = 2 * fullSignificand
  · -- The significand is that of the next power of two, whose lower neighbours are closer.
    rw [if_pos hm] at hx ⊢
    have hgap : gap ⟨false, fullSignificand, u + 1⟩ = 1 / 4 := if_pos ⟨rfl, by dsimp only; omega⟩
    have hcast : (m : ℚ) = 2 * fullSignificand := by rw [hm, Nat.cast_mul, Nat.cast_ofNat]
    rw [hgap]
    dsimp only
    rw [zpow_add_one₀ two_ne_zero]
    refine ⟨?_, ?_, fun h => absurd h (by decide)⟩
    · calc ((fullSignificand : ℚ) - 1 / 4) * (2 ^ u * 2)
        _ = (m - 1 / 2) * 2 ^ u := by rw [hcast]; ring
        _ ≤ q := hlow
    · calc q ≤ (m + 1 / 2) * 2 ^ u := hhigh
        _ = (fullSignificand + 1 / 4) * (2 ^ u * 2) := by rw [hcast]; ring
        _ ≤ (fullSignificand + 1 / 2) * (2 ^ u * 2) :=
          mul_le_mul_of_nonneg_right (by linarith) (by positivity)
  · rw [if_neg hm] at hx ⊢
    dsimp only
    by_cases hpower : m = fullSignificand ∧ minExponent < u
    · -- Nothing below the power of two has its unit.
      have hgap : gap ⟨false, m, u⟩ = 1 / 4 := if_pos hpower
      have hle := hfull hpower.2
      rw [← fullSignificand_eq, ← hpower.1] at hle
      rw [hgap]
      have hstrict : ((m : ℚ) - 1 / 4) * 2 ^ u < q :=
        lt_of_lt_of_le (mul_lt_mul_of_pos_right (by linarith) hunit) hle
      exact ⟨hstrict.le, hhigh, fun h => ⟨hstrict, (hodd h).2⟩⟩
    · have hgap : gap ⟨false, m, u⟩ = 1 / 2 := if_neg hpower
      rw [hgap]
      exact ⟨hlow, hhigh, hodd⟩

/-- A number above the least powers of two is rounded to a significand with all its bits. -/
theorem Rounded.normal {q : ℚ} {u : Int} {m : Nat} (h : Rounded q u m)
    (hq : (2 : ℚ) ^ (53 : Int) * 2 ^ minExponent ≤ q) : (carried m u).Normal := by
  have hmin : minExponent < u := by
    rcases lt_or_eq_of_le h.least with hlt | heq
    · exact hlt
    · exact absurd h.lt (by rw [← heq]; exact not_lt.mpr hq)
  have hfull := h.full hmin
  have hm : fullSignificand ≤ m := by
    have hlow : (fullSignificand : ℚ) ≤ q / 2 ^ u := by
      rw [fullSignificand_eq, le_div_iff₀ (two_zpow_pos u)]
      exact hfull
    have hlt : (fullSignificand : ℚ) < (m + 1 : Nat) := by
      push_cast
      linarith [h.nearest.high]
    have hlt : fullSignificand < m + 1 := by exact_mod_cast hlt
    omega
  rw [Normal, carried]
  split
  · exact Nat.le_refl _
  · exact hm

/-- A number of at most 53 bits is rounded to itself. -/
theorem Rounded.exact {u i : Int} {m j : Nat} (h : Rounded ((j : ℚ) * 2 ^ i) u m)
    (hj : j < 2 ^ 53) (hi : minExponent ≤ i) : u ≤ i ∧ (m : ℚ) * 2 ^ u = j * 2 ^ i := by
  have hui : u ≤ i := by
    rcases lt_or_eq_of_le h.least with hmin | heq
    · have hlt : (2 : ℚ) ^ (52 + u) < 2 ^ (53 + i) := by
        rw [two_zpow_add, two_zpow_add]
        calc (2 : ℚ) ^ (52 : Int) * 2 ^ u ≤ j * 2 ^ i := h.full hmin
          _ < 2 ^ (53 : Int) * 2 ^ i := by
            refine mul_lt_mul_of_pos_right ?_ (two_zpow_pos i)
            exact_mod_cast hj
      have := (zpow_lt_zpow_iff_right₀ (by norm_num)).mp hlt
      omega
    · omega
  refine ⟨hui, ?_⟩
  have hunits : (j : ℚ) * 2 ^ i / 2 ^ u = (j * 2 ^ (i - u).toNat : Nat) := by
    rw [div_eq_iff (two_zpow_pos u).ne', Nat.cast_mul, Nat.cast_pow, Nat.cast_ofNat, mul_assoc,
      ← zpow_natCast, ← two_zpow_add]
    congr 2
    omega
  have hnearest := h.nearest
  rw [hunits] at hnearest
  rw [hnearest.eq_of_natCast, ← hunits, div_mul_cancel₀ _ (two_zpow_pos u).ne']

/-- The double is what the number is rounded to. -/
def RoundsTo (q : ℚ) (x : Binary64) : Prop :=
  ∃ u m, Rounded q u m ∧ x = carried m u

theorem roundsTo_of_round {num den : Nat} {e : Int} {x : Binary64} (hnum : 0 < num) (hden : 0 < den)
    (h : round num den e = some x) : RoundsTo (num / den * 2 ^ e) x := by
  obtain ⟨u, m, hrounded, hround⟩ := round_eq hnum hden e
  rw [hround] at h
  split at h
  · cases h
  · exact ⟨u, m, hrounded, (Option.some.inj h).symm⟩

/-- A quotient is rounded once. -/
theorem roundsTo_of_div? {x y z : Binary64} (hx : 0 < x.significand) (hy : 0 < y.significand)
    (h : x.div? y = some z) : RoundsTo (x.magnitude / y.magnitude) z := by
  have hquotient : x.magnitude / y.magnitude =
      (x.significand : ℚ) / y.significand * 2 ^ (x.exponent - y.exponent) := by
    rw [magnitude, magnitude, zpow_sub₀ two_ne_zero, div_mul_div_comm]
  rw [hquotient]
  exact roundsTo_of_round hx hy h

/-- A whole number of at most 53 bits, up to a power of two, is a double. -/
theorem ofNat?_exact {n j i : Nat} (hn : n = j * 2 ^ i) (hpos : 0 < n) (hj : j < 2 ^ 53)
    (hi : i < 971) :
    ∃ x, ofNat? n = some x ∧ RoundsTo n x ∧ x.magnitude = n ∧ 0 < x.significand := by
  obtain ⟨u, m, hrounded, hround⟩ := round_eq hpos Nat.one_pos 0
  rw [Nat.cast_one, div_one, zpow_zero, mul_one] at hrounded
  have hcast : (n : ℚ) = j * 2 ^ (i : Int) := by
    rw [hn, Nat.cast_mul, Nat.cast_pow, zpow_natCast, Nat.cast_ofNat]
  obtain ⟨hui, hm⟩ := (hcast ▸ hrounded).exact hj (by rw [minExponent]; omega)
  have hfits : ¬ maxExponent < (carried m u).exponent := by
    rw [carried, maxExponent]
    split <;> dsimp only <;> omega
  have hof : ofNat? n = some (carried m u) := by
    rw [ofNat?, hround, if_neg hfits]
  have hmagnitude : (carried m u).magnitude = n := by
    rw [magnitude_carried, hm, hcast]
  refine ⟨carried m u, hof, ⟨u, m, hrounded, rfl⟩, hmagnitude, ?_⟩
  refine Nat.pos_of_ne_zero fun hzero => ?_
  rw [magnitude, hzero, Nat.cast_zero, zero_mul] at hmagnitude
  exact hpos.ne (by exact_mod_cast hmagnitude)

end Binary64
end GrammarSync
