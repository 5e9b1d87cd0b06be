import Mathlib.Order.Defs.Unbundled
import WasmSandbox.Ieee.Sign
import WasmSandbox.Proofs.Ieee.Saturation

/-!
# The order of patterns

* `Ieee.eq_of_sign_magnitude`: a pattern is its sign and its magnitude.
* `Ieee.absUnits_lt_iff`: the larger magnitude is the larger number.
* `Ieee.AtMost`: the order of the patterns that are no NaN, by their values and with `-0` before `+0`.
* `Ieee.rank`: integers that order the patterns in this way. `Ieee.atMost_iff_rank`.
* **`Ieee.isLinearOrder_atMost`**: the order is total, and no two patterns share a place in it.
* `Ieee.rank_neg`: the negation turns the order around.
-/

namespace WasmSandbox.Ieee

variable {fmt : Format} {x y : Ieee fmt}

/-! ## Sign and magnitude -/

theorem toNat_bits (x : Ieee fmt) :
    x.bits.toNat = (if x.sign then twoPow (fmt.width - 1) else 0) + x.magnitude := by
  have hlt : x.bits.toNat < twoPow (fmt.width - 1) + twoPow (fmt.width - 1) := by
    cases fmt with
    | single | double => exact x.bits.isLt
  rw [sign, magnitude, BitVec.msb_eq_decide, ← twoPow_eq]
  rcases Nat.lt_or_ge x.bits.toNat (twoPow (fmt.width - 1)) with hsmall | hlarge
  · rw [Nat.mod_eq_of_lt hsmall, decide_eq_false (Nat.not_le.mpr hsmall), if_neg Bool.false_ne_true,
      Nat.zero_add]
  · rw [Nat.mod_eq_sub_mod hlarge, Nat.mod_eq_of_lt (by omega), decide_eq_true hlarge, if_pos rfl]
    omega

/-- **A pattern is its sign and its magnitude.** -/
theorem eq_of_sign_magnitude (hsign : x.sign = y.sign) (hmagnitude : x.magnitude = y.magnitude) :
    x = y := by
  apply Ieee.ext
  apply BitVec.eq_of_toNat_eq
  rw [toNat_bits, toNat_bits, hsign, hmagnitude]

/-! ## Magnitudes and numbers -/

theorem absUnits_congr (h : x.magnitude = y.magnitude) : x.absUnits = y.absUnits := by
  have hexponent : x.exponent = y.exponent := by rw [exponent, exponent, h]
  have hfraction : x.fraction = y.fraction := by rw [fraction, fraction, h]
  rw [absUnits, absUnits, significand, significand, place, place, hexponent, hfraction]

theorem absUnits_lt (x : Ieee fmt) : x.absUnits < 2 ^ fmt.fractionBits * 2 ^ x.exponent := by
  have hfraction := x.fraction_lt
  have hsignificand := x.significand_lt
  rw [absUnits, place, twoPow_eq]
  cases hexponent : x.exponent with
  | zero =>
    rw [significand, if_pos hexponent]
    omega
  | succ e =>
    rw [Nat.add_sub_cancel, Nat.pow_succ, Nat.mul_comm (2 ^ e), ← Nat.mul_assoc, ← Nat.pow_succ]
    exact Nat.mul_lt_mul_of_pos_right hsignificand (Nat.two_pow_pos e)

theorem le_absUnits (x : Ieee fmt) {e : Nat} (hexponent : x.exponent = e + 1) :
    2 ^ fmt.fractionBits * 2 ^ e ≤ x.absUnits := by
  rw [absUnits, place, hexponent, Nat.add_sub_cancel, twoPow_eq, significand, if_neg (by omega), twoPow_eq]
  exact Nat.mul_le_mul_right _ (Nat.le_add_right ..)

theorem absUnits_lt_of_magnitude_lt (h : x.magnitude < y.magnitude) : x.absUnits < y.absUnits := by
  have hle : x.exponent ≤ y.exponent := Nat.div_le_div_right (Nat.le_of_lt h)
  rcases Nat.eq_or_lt_of_le hle with heq | hlt
  · have hfraction : x.fraction < y.fraction := by
      rw [magnitude_eq, magnitude_eq, heq] at h
      omega
    have hsignificand : x.significand < y.significand := by
      rw [significand, significand, heq]
      split_ifs <;> omega
    rw [absUnits, absUnits, place, place, heq]
    exact Nat.mul_lt_mul_of_pos_right hsignificand (twoPow_pos _)
  · obtain ⟨e, he⟩ := Nat.exists_eq_add_one.mpr (Nat.zero_lt_of_lt hlt)
    have hpow : 2 ^ x.exponent ≤ 2 ^ e := Nat.pow_le_pow_right (by decide) (by omega)
    calc x.absUnits < 2 ^ fmt.fractionBits * 2 ^ x.exponent := x.absUnits_lt
      _ ≤ 2 ^ fmt.fractionBits * 2 ^ e := Nat.mul_le_mul_left _ hpow
      _ ≤ y.absUnits := y.le_absUnits he

/-- **The larger magnitude is the larger number.** -/
theorem absUnits_lt_iff : x.absUnits < y.absUnits ↔ x.magnitude < y.magnitude := by
  refine ⟨fun h => ?_, absUnits_lt_of_magnitude_lt⟩
  by_contra hge
  rcases Nat.eq_or_lt_of_le (Nat.le_of_not_lt hge) with heq | hlt
  · rw [absUnits_congr heq] at h
    exact Nat.lt_irrefl _ h
  · exact Nat.lt_asymm h (absUnits_lt_of_magnitude_lt hlt)

theorem absUnits_eq_zero_iff : x.absUnits = 0 ↔ x.magnitude = 0 := by
  have hzero : (⟨0⟩ : Ieee fmt).magnitude = 0 := by cases fmt <;> decide
  have hunits : (⟨0⟩ : Ieee fmt).absUnits = 0 := by cases fmt <;> decide
  have h := absUnits_lt_iff (x := ⟨0⟩) (y := x)
  rw [hzero, hunits] at h
  omega

/-! ## The order -/

/-- The order of the patterns that are no NaN: by their values, and `-0` before `+0`. -/
def AtMost (x y : Ieee fmt) : Prop :=
  x.datum.Le y.datum ∧ (y.datum.Le x.datum → y.sign = true → x.sign = true)

/-- The place of a pattern in the order. -/
def rank (x : Ieee fmt) : ℤ := if x.sign then -x.magnitude - 1 else x.magnitude

theorem rank_injective : Function.Injective (@rank fmt) := by
  intro x y h
  rw [rank, rank] at h
  cases hx : x.sign <;> cases hy : y.sign <;> rw [hx, hy] at h <;>
    simp only [if_true, Bool.false_eq_true, if_false] at h
  all_goals first | omega | exact eq_of_sign_magnitude (hx.trans hy.symm) (by omega)

/-- One pattern comes before another one if it is the lesser number, or if both are zero and it alone is
negative. -/
theorem rank_lt_iff :
    x.rank < y.rank ↔ x.units < y.units ∨
      x.isZero = true ∧ y.isZero = true ∧ x.sign = true ∧ y.sign = false := by
  have hlt := absUnits_lt_iff (x := x) (y := y)
  have hgt := absUnits_lt_iff (x := y) (y := x)
  have hx := absUnits_eq_zero_iff (x := x)
  have hy := absUnits_eq_zero_iff (x := y)
  rw [rank, rank, units, units, isZero, isZero, beq_iff_eq, beq_iff_eq]
  cases x.sign <;> cases y.sign <;> simp <;> omega

theorem units_eq_zero_iff : x.units = 0 ↔ x.isZero = true := by
  have hzero := absUnits_eq_zero_iff (x := x)
  rw [units, isZero, beq_iff_eq]
  split_ifs <;> omega

theorem units_nonpos (h : x.sign = true) : x.units ≤ 0 := by
  rw [units, if_pos h]
  omega

theorem units_nonneg (h : x.sign = false) : 0 ≤ x.units := by
  rw [units, h, if_neg Bool.false_ne_true]
  omega

theorem atMost_iff_rank (hx : x.isNaN = false) (hy : y.isNaN = false) :
    x.AtMost y ↔ x.rank ≤ y.rank := by
  rw [← Int.not_lt, rank_lt_iff, AtMost, datum_le_iff hx hy, datum_le_iff hy hx, ← units_eq_zero_iff,
    ← units_eq_zero_iff]
  cases hxs : x.sign with
  | true => simp
  | false =>
    have hxu := units_nonneg hxs
    cases hys : y.sign with
    | false => simp
    | true =>
      have hyu := units_nonpos hys
      simp
      omega

/-- **The order is total**, and no two patterns share a place in it. -/
theorem isLinearOrder_atMost (fmt : Format) :
    IsLinearOrder { x : Ieee fmt // x.datum ≠ .nan } fun x y => x.1.AtMost y.1 := by
  have hnum : ∀ x : { x : Ieee fmt // x.datum ≠ .nan }, x.1.isNaN = false := fun x =>
    Bool.eq_false_iff.mpr (mt datum_eq_nan_iff.mpr x.2)
  have hrank : ∀ x y : { x : Ieee fmt // x.datum ≠ .nan }, x.1.AtMost y.1 ↔ x.1.rank ≤ y.1.rank :=
    fun x y => atMost_iff_rank (hnum x) (hnum y)
  exact {
    refl := fun x => (hrank x x).mpr (Int.le_refl _)
    trans := fun x y z hxy hyz =>
      (hrank x z).mpr (Int.le_trans ((hrank x y).mp hxy) ((hrank y z).mp hyz))
    antisymm := fun x y hxy hyx => Subtype.ext
      (rank_injective (Int.le_antisymm ((hrank x y).mp hxy) ((hrank y x).mp hyx)))
    total := fun x y => (Int.le_total _ _).imp (hrank x y).mpr (hrank y x).mpr }

/-! ## Negation -/

@[simp] theorem sign_neg (x : Ieee fmt) : x.neg.sign = !x.sign := by
  have hmask : (signMask fmt).msb = true := by cases fmt <;> rfl
  rw [sign, neg, BitVec.msb_xor, hmask, Bool.xor_true, sign]

@[simp] theorem magnitude_neg (x : Ieee fmt) : x.neg.magnitude = x.magnitude := by
  have hmask : (signMask fmt).toNat % 2 ^ (fmt.width - 1) = 0 := by cases fmt <;> decide
  rw [magnitude, neg, BitVec.toNat_xor, twoPow_eq, Nat.xor_mod_two_pow, hmask, Nat.xor_zero, magnitude,
    twoPow_eq]

@[simp] theorem isNaN_neg (x : Ieee fmt) : x.neg.isNaN = x.isNaN := by rw [isNaN, magnitude_neg, isNaN]

@[simp] theorem isZero_neg (x : Ieee fmt) : x.neg.isZero = x.isZero := by
  rw [isZero, magnitude_neg, isZero]

@[simp] theorem units_neg (x : Ieee fmt) : x.neg.units = -x.units := by
  rw [units, units, sign_neg, absUnits_congr x.magnitude_neg]
  cases x.sign <;> simp

@[simp] protected theorem neg_neg (x : Ieee fmt) : x.neg.neg = x :=
  eq_of_sign_magnitude (by simp) (by simp)

theorem rank_neg (x : Ieee fmt) : x.neg.rank = -x.rank - 1 := by
  rw [rank, rank, sign_neg, magnitude_neg]
  cases x.sign <;> simp

end WasmSandbox.Ieee
