import Mathlib.Data.Rat.Floor
import Mathlib.Tactic.Common
import Mathlib.Tactic.FieldSimp
import Mathlib.Tactic.Linarith
import Mathlib.Tactic.Ring
import WasmSandbox.Ieee.Truncation

/-!
# The numbers that patterns stand for

* `Ieee.value`: the rational number of a pattern, by its sign, exponent and fraction. `Ieee.datum` tells
  numbers from infinities and NaNs.
* `towardZero`: a rational number rounded toward zero.
* `Ieee.value_eq_units_div`: the value, counted in units of the smallest positive number.
* **`Ieee.integerPart_eq`**: the integer part of a pattern is its value rounded toward zero.
* **`Ieee.dvd_units`**: a number of at least `2 ^ fractionBits` is an integer.
-/

namespace WasmSandbox

theorem twoPow_eq (n : Nat) : twoPow n = 2 ^ n := rfl

theorem twoPow_pos (n : Nat) : 0 < twoPow n := Nat.two_pow_pos n

/-! ## Values -/

/-- What a pattern stands for. -/
inductive Datum where
  | nan
  | infinite (negative : Bool)
  | finite (q : ℚ)

/-- The integer part of a rational number. -/
def towardZero (q : ℚ) : ℤ := if 0 ≤ q then ⌊q⌋ else ⌈q⌉

namespace Ieee

variable {fmt : Format}

/-- The number of a pattern. One with the exponent field 0 has no leading one, and the exponent of one with
the field 1. -/
def value (x : Ieee fmt) : ℚ :=
  (if x.sign then -1 else 1) *
    if x.exponent = 0 then (x.fraction : ℚ) / 2 ^ fmt.fractionBits * 2 ^ (1 - fmt.bias : ℤ)
    else (1 + (x.fraction : ℚ) / 2 ^ fmt.fractionBits) * 2 ^ (x.exponent - fmt.bias : ℤ)

/-- What a pattern stands for. All patterns with the largest exponent field stand for no number. -/
def datum (x : Ieee fmt) : Datum :=
  if x.exponent = 2 ^ fmt.exponentBits - 1 then
    if x.fraction = 0 then .infinite x.sign else .nan
  else .finite x.value

end Ieee

/-! ## Fields -/

theorem Format.oneExponent_eq (fmt : Format) : fmt.oneExponent + 1 = fmt.bias + fmt.fractionBits := by
  cases fmt <;> rfl

namespace Ieee

variable {fmt : Format} (x : Ieee fmt)

theorem magnitude_eq : x.magnitude = x.exponent * 2 ^ fmt.fractionBits + x.fraction := by
  rw [exponent, fraction, twoPow_eq, Nat.div_add_mod']

theorem fraction_lt : x.fraction < 2 ^ fmt.fractionBits := Nat.mod_lt _ (twoPow_pos _)

theorem exponent_lt : x.exponent < 2 ^ fmt.exponentBits := by
  have hwidth : fmt.width - 1 = fmt.fractionBits + fmt.exponentBits := by cases fmt <;> rfl
  have hlt : x.magnitude < 2 ^ (fmt.width - 1) := Nat.mod_lt _ (twoPow_pos _)
  rw [hwidth, Nat.pow_add] at hlt
  exact Nat.div_lt_of_lt_mul hlt

theorem significand_lt : x.significand < 2 ^ (fmt.fractionBits + 1) := by
  have hfraction := x.fraction_lt
  rw [significand, twoPow_eq, Nat.pow_succ]
  split_ifs <;> omega

theorem isNaN_iff : x.isNaN = true ↔ x.exponent = 2 ^ fmt.exponentBits - 1 ∧ x.fraction ≠ 0 := by
  have hfraction := x.fraction_lt
  have hexponent := x.exponent_lt
  have hmagnitude := x.magnitude_eq
  rw [isNaN, decide_eq_true_iff, Format.infinity, twoPow_eq, twoPow_eq, hmagnitude]
  constructor
  · intro hlt
    have hge : 2 ^ fmt.exponentBits - 1 ≤ x.exponent := by
      by_contra hsmall
      have hnext : (x.exponent + 1) * 2 ^ fmt.fractionBits ≤
          (2 ^ fmt.exponentBits - 1) * 2 ^ fmt.fractionBits := Nat.mul_le_mul_right _ (by omega)
      rw [Nat.add_one_mul] at hnext
      omega
    have hlargest : x.exponent = 2 ^ fmt.exponentBits - 1 := by omega
    refine ⟨hlargest, fun hzero => ?_⟩
    rw [hlargest, hzero] at hlt
    exact Nat.lt_irrefl _ hlt
  · rintro ⟨hlargest, hzero⟩
    rw [hlargest]
    omega

/-! ## Units -/

/-- An infinity counts as the power of two after the largest number. -/
theorem absUnits_of_infinite {x : Ieee fmt} (hexponent : x.exponent = 2 ^ fmt.exponentBits - 1)
    (hfraction : x.fraction = 0) : x.absUnits = twoPow (fmt.bias + 1) * twoPow fmt.oneExponent := by
  have hne : 2 ^ fmt.exponentBits - 1 ≠ 0 := by cases fmt <;> decide
  have hexp : fmt.fractionBits + (2 ^ fmt.exponentBits - 1 - 1) = fmt.bias + 1 + fmt.oneExponent := by
    cases fmt <;> rfl
  rw [absUnits, significand, place, hexponent, if_neg hne, hfraction, Nat.add_zero, twoPow_eq, twoPow_eq,
    ← Nat.pow_add, hexp, Nat.pow_add]
  rfl

theorem absUnits_lt_of_finite {x : Ieee fmt} (hexponent : x.exponent ≠ 2 ^ fmt.exponentBits - 1) :
    x.absUnits < twoPow (fmt.bias + 1) * twoPow fmt.oneExponent := by
  have hlt := x.exponent_lt
  have hplace : twoPow x.place ≤ twoPow (2 ^ fmt.exponentBits - 3) :=
    Nat.pow_le_pow_right (by decide) (by rw [place]; omega)
  have hexp : fmt.fractionBits + 1 + (2 ^ fmt.exponentBits - 3) = fmt.bias + 1 + fmt.oneExponent := by
    cases fmt <;> rfl
  have hunits := Nat.mul_lt_mul_of_lt_of_le x.significand_lt hplace (twoPow_pos _)
  rwa [twoPow_eq (2 ^ fmt.exponentBits - 3), ← Nat.pow_add, hexp, Nat.pow_add] at hunits

theorem value_eq_units_div : x.value = x.units / 2 ^ fmt.oneExponent := by
  have hscale : (2 : ℚ) ^ (1 - fmt.bias : ℤ) = 2 ^ fmt.fractionBits / 2 ^ fmt.oneExponent := by
    have hexp : (1 - fmt.bias : ℤ) = fmt.fractionBits - fmt.oneExponent := by
      have := fmt.oneExponent_eq
      omega
    rw [hexp, zpow_sub₀ two_ne_zero, zpow_natCast, zpow_natCast]
  have habs : (if x.exponent = 0 then (x.fraction : ℚ) / 2 ^ fmt.fractionBits * 2 ^ (1 - fmt.bias : ℤ)
      else (1 + x.fraction / 2 ^ fmt.fractionBits) * 2 ^ (x.exponent - fmt.bias : ℤ)) =
        x.absUnits / 2 ^ fmt.oneExponent := by
    rw [absUnits, significand, place, twoPow_eq, twoPow_eq]
    split_ifs with hzero
    -- The fields 0 and 1 have the same last place.
    · rw [hscale, hzero]
      field_simp
      push_cast
      ring
    · have hexp : (x.exponent - fmt.bias : ℤ) = (x.exponent - 1 : Nat) + (1 - fmt.bias) := by omega
      rw [hexp, zpow_add₀ two_ne_zero, zpow_natCast, hscale]
      field_simp
      push_cast
      ring
  rw [value, habs, units]
  split_ifs <;> push_cast <;> ring

end Ieee

/-! ## Integer parts -/

theorem towardZero_div (n : ℤ) {d : Nat} (hd : 0 < d) : towardZero (n / d) = n.tdiv d := by
  have hsign : 0 ≤ (n / d : ℚ) ↔ 0 ≤ n := by
    rw [le_div_iff₀ (by exact_mod_cast hd), zero_mul, Int.cast_nonneg_iff]
  rw [towardZero]
  split_ifs with h
  · rw [Rat.floor_intCast_div_natCast, Int.tdiv_eq_ediv_of_nonneg (hsign.mp h)]
  · have hn : 0 ≤ -n := by
      have := mt hsign.mpr h
      omega
    rw [Rat.ceil_intCast_div_natCast, ← Int.tdiv_eq_ediv_of_nonneg hn, Int.neg_tdiv, neg_neg]

theorem towardZero_neg (q : ℚ) : towardZero (-q) = -towardZero q := by
  unfold towardZero
  rcases lt_trichotomy q 0 with hneg | rfl | hpos
  · rw [if_pos (by linarith), if_neg (by linarith), Int.floor_neg]
  · simp
  · rw [if_neg (by linarith), if_pos (by linarith), Int.ceil_neg]

theorem towardZero_intCast (n : ℤ) : towardZero n = n := by
  unfold towardZero
  rw [Int.floor_intCast, Int.ceil_intCast, ite_self]

namespace Ieee

variable {fmt : Format} (x : Ieee fmt)

/-- **The integer part of a pattern is its value rounded toward zero.** -/
theorem integerPart_eq : x.integerPart = towardZero x.value := by
  have hcast : (2 ^ fmt.oneExponent : ℚ) = (twoPow fmt.oneExponent : Nat) := by
    rw [twoPow_eq]
    push_cast
    rfl
  rw [value_eq_units_div, hcast, towardZero_div _ (twoPow_pos _), integerPart]

/-- **A number of at least `2 ^ fractionBits` is an integer**: its last place is not below 1. -/
theorem dvd_units (h : twoPow fmt.fractionBits * twoPow fmt.oneExponent ≤ x.absUnits) :
    (twoPow fmt.oneExponent : ℤ) ∣ x.units := by
  have hplace : fmt.oneExponent ≤ x.place := by
    by_contra hsmall
    have hpow : twoPow x.place ≤ twoPow (fmt.oneExponent - 1) := Nat.pow_le_pow_right (by decide) (by omega)
    have hlt : x.absUnits < twoPow (fmt.fractionBits + 1) * twoPow (fmt.oneExponent - 1) :=
      Nat.mul_lt_mul_of_lt_of_le x.significand_lt hpow (twoPow_pos _)
    have hone : fmt.fractionBits + 1 + (fmt.oneExponent - 1) = fmt.fractionBits + fmt.oneExponent := by
      omega
    rw [twoPow_eq, twoPow_eq, ← Nat.pow_add] at h hlt
    rw [hone] at hlt
    omega
  have hdvd : twoPow fmt.oneExponent ∣ x.absUnits := Dvd.dvd.mul_left (Nat.pow_dvd_pow 2 hplace) _
  rw [units]
  split_ifs
  · exact (Int.natCast_dvd_natCast.mpr hdvd).neg_right
  · exact Int.natCast_dvd_natCast.mpr hdvd

end Ieee

end WasmSandbox
