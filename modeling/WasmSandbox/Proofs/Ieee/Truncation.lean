import WasmSandbox.Proofs.Ieee.Value

/-!
# Trapping conversions are exact

* `IntType.read`: the number that a word of an integer type is read as.
* `tdiv_lt_iff`, `lt_tdiv_iff`: an integer part is compared with an integer by comparing the numbers.
* `Limits.Exact`: limits that are next to the range of a type. An end that belongs to the limits is so far
  from zero that the format has no fractions there.
* `Ieee.within_iff`: a number lies within the limits of a conversion exactly if its integer part has the
  type.
* **`Ieee.truncate_exact`**: a trapping conversion gives the value rounded toward zero if the type has it,
  and traps else.
-/

namespace WasmSandbox

/-! ## Integer types -/

namespace IntType

/-- The number that a word of the type is read as. -/
def read : (t : IntType) → BitVec t.bits → ℤ
  | s32, v => v.toInt
  | s64, v => v.toInt
  | u32, v => v.toNat
  | u64, v => v.toNat

def Has (t : IntType) (n : ℤ) : Prop := t.minValue ≤ n ∧ n ≤ t.maxValue

instance (t : IntType) : DecidablePred t.Has := fun n =>
  inferInstanceAs (Decidable (t.minValue ≤ n ∧ n ≤ t.maxValue))

theorem read_ofInt {t : IntType} {n : ℤ} (h : t.Has n) : t.read (BitVec.ofInt t.bits n) = n := by
  obtain ⟨hmin, hmax⟩ := h
  cases t with
  | s32 | s64 =>
    rw [read, BitVec.toInt_ofInt]
    exact Int.bmod_eq_of_le hmin (Int.lt_of_le_sub_one hmax)
  | u32 | u64 =>
    have hlt := Int.lt_of_le_sub_one hmax
    rw [read, BitVec.toNat_ofInt]
    exact (Int.toNat_of_nonneg (Int.emod_nonneg _ (by decide))).trans (Int.emod_eq_of_lt hmin hlt)

end IntType

/-! ## Comparing integer parts -/

theorem tdiv_lt_iff {n k : ℤ} {d : Nat} (hd : 0 < d) (hk : 0 < k) : n.tdiv d < k ↔ n < k * d := by
  have hd' : (0 : ℤ) < d := Int.natCast_pos.mpr hd
  rcases Int.le_total 0 n with hn | hn
  · rw [Int.tdiv_eq_ediv_of_nonneg hn, Int.ediv_lt_iff_lt_mul hd']
  · have hpart : 0 ≤ (-n).tdiv d := Int.tdiv_nonneg (by omega) hd'.le
    have hprod : 0 < k * d := Int.mul_pos hk hd'
    rw [Int.neg_tdiv] at hpart
    omega

theorem lt_tdiv_iff {n k : ℤ} {d : Nat} (hd : 0 < d) (hk : k < 0) : k < n.tdiv d ↔ k * d < n := by
  have h := tdiv_lt_iff (n := -n) (k := -k) hd (by omega)
  rwa [Int.neg_tdiv, Int.neg_lt_neg_iff, Int.neg_mul, Int.neg_lt_neg_iff] at h

/-! ## Limits -/

/-- The limits are next to the range of the type. An end that belongs to them is so far from zero that the
format has no fractions there. -/
structure Limits.Exact (fmt : Format) (t : IntType) (l : Limits) : Prop where
  upper_eq : l.upper = t.maxValue + 1
  lower_eq : l.lower = if l.closed then t.minValue else t.minValue - 1
  integral : l.closed = true → l.lower ≤ -(twoPow fmt.fractionBits : ℤ)

theorem Limits.exact_of (fmt : Format) (t : IntType) : (of fmt t).Exact fmt t := by
  cases fmt <;> cases t <;> exact ⟨by decide, by decide, by decide⟩

namespace Ieee

variable {fmt : Format} (x : Ieee fmt)

theorem natAbs_units : x.units.natAbs = x.absUnits := by
  rw [units]
  split_ifs
  · rw [Int.natAbs_neg, Int.natAbs_natCast]
  · rw [Int.natAbs_natCast]

theorem le_units_iff {k : ℤ} (hk : k ≤ -(twoPow fmt.fractionBits : ℤ)) :
    unitsOf fmt k ≤ x.units ↔ unitsOf fmt (k - 1) < x.units := by
  have hone : (0 : ℤ) < twoPow fmt.oneExponent := Int.natCast_pos.mpr (twoPow_pos _)
  constructor
  · intro hle
    exact Int.lt_of_lt_of_le (Int.mul_lt_mul_of_pos_right (sub_one_lt k) hone) hle
  · intro hlt
    by_contra hsmall
    rw [Int.not_le, unitsOf] at hsmall
    have hfar : (twoPow fmt.fractionBits * twoPow fmt.oneExponent : ℤ) ≤ x.units.natAbs := by
      have hle := Int.mul_le_mul_of_nonneg_right hk hone.le
      rw [Int.neg_mul] at hle
      omega
    rw [natAbs_units] at hfar
    obtain ⟨c, hc⟩ := x.dvd_units (by exact_mod_cast hfar)
    -- As a multiple of 1 the number is an integer, and there is none in between.
    rw [hc, Int.mul_comm _ c] at hlt hsmall
    have hlo : k - 1 < c := Int.lt_of_mul_lt_mul_right hlt hone.le
    have hhi : c < k := Int.lt_of_mul_lt_mul_right hsmall hone.le
    omega

/-- **A number lies within the limits of a conversion exactly if its integer part has the type.** -/
theorem within_iff (t : IntType) : x.within (.of fmt t) = true ↔ t.Has x.integerPart := by
  obtain ⟨hupper, hlower, hintegral⟩ := Limits.exact_of fmt t
  have hone : 0 < twoPow fmt.oneExponent := twoPow_pos _
  have hmin : t.minValue ≤ 0 := by cases t <;> decide
  have hmax : 0 ≤ t.maxValue := by cases t <;> decide
  have hup : x.units < unitsOf fmt (Limits.of fmt t).upper ↔ x.integerPart ≤ t.maxValue := by
    rw [hupper, unitsOf, ← tdiv_lt_iff hone (by omega), integerPart, Int.lt_add_one_iff]
  have hlow : unitsOf fmt (t.minValue - 1) < x.units ↔ t.minValue ≤ x.integerPart := by
    rw [unitsOf, ← lt_tdiv_iff hone (by omega), integerPart, Int.sub_one_lt_iff]
  rw [within, Bool.and_eq_true, decide_eq_true_iff, hup, IntType.Has]
  refine and_congr_left' ?_
  cases hclosed : (Limits.of fmt t).closed with
  | false =>
    rw [hclosed, if_neg Bool.false_ne_true] at hlower
    rw [if_neg Bool.false_ne_true, decide_eq_true_iff, hlower, hlow]
  | true =>
    rw [hclosed, if_pos rfl] at hlower
    rw [if_pos rfl, decide_eq_true_iff, x.le_units_iff (hintegral hclosed), hlower, hlow]

theorem truncate_eq (t : IntType) {x : Ieee fmt} (hx : x.isNaN = false) :
    x.truncate t =
      if t.Has x.integerPart then .ok (BitVec.ofInt t.bits x.integerPart) else .error .integerOverflow := by
  rw [truncate, hx, if_neg Bool.false_ne_true]
  refine if_ctx_congr (x.within_iff t) (fun h => ?_) fun _ => rfl
  rw [saturate, hx, if_neg Bool.false_ne_true, min_eq_right h.2, max_eq_right h.1]

theorem not_has_of_infinite {x : Ieee fmt} (hexponent : x.exponent = 2 ^ fmt.exponentBits - 1)
    (hfraction : x.fraction = 0) (t : IntType) : ¬ t.Has x.integerPart := by
  have hpart : x.integerPart.natAbs = twoPow (fmt.bias + 1) := by
    rw [integerPart, Int.natAbs_tdiv, natAbs_units, absUnits_of_infinite hexponent hfraction,
      Int.natAbs_natCast]
    exact Nat.mul_div_cancel _ (twoPow_pos _)
  have hlarge : twoPow 64 < twoPow (fmt.bias + 1) :=
    Nat.pow_lt_pow_right (by decide) (by cases fmt <;> decide)
  have hmin : -(twoPow 64 : ℤ) ≤ t.minValue := by cases t <;> decide
  have hmax : t.maxValue ≤ (twoPow 64 : ℤ) := by cases t <;> decide
  rintro ⟨hlo, hhi⟩
  omega

/-- **Trapping conversions are exact**: the word is read as the value rounded toward zero. If the type
does not have that, the conversion traps. -/
theorem truncate_exact (t : IntType) (x : Ieee fmt) :
    match x.datum with
    | .nan => x.truncate t = .error .invalidConversion
    | .infinite _ => x.truncate t = .error .integerOverflow
    | .finite q =>
      if t.minValue ≤ towardZero q ∧ towardZero q ≤ t.maxValue then
        ∃ v, x.truncate t = .ok v ∧ t.read v = towardZero q
      else x.truncate t = .error .integerOverflow := by
  have hnan := x.isNaN_iff
  rw [datum]
  by_cases hexponent : x.exponent = 2 ^ fmt.exponentBits - 1
  · by_cases hfraction : x.fraction = 0
    · have hx : x.isNaN = false := Bool.eq_false_iff.mpr fun h => (hnan.mp h).2 hfraction
      rw [if_pos hexponent, if_pos hfraction]
      exact (truncate_eq t hx).trans (if_neg (not_has_of_infinite hexponent hfraction t))
    · rw [if_pos hexponent, if_neg hfraction]
      exact if_pos (hnan.mpr ⟨hexponent, hfraction⟩)
  · have hx : x.isNaN = false := Bool.eq_false_iff.mpr fun h => hexponent (hnan.mp h).1
    rw [if_neg hexponent]
    have hconvert := truncate_eq t hx
    rw [integerPart_eq] at hconvert
    dsimp only
    split_ifs with hrange
    · exact ⟨_, hconvert.trans (if_pos hrange), IntType.read_ofInt hrange⟩
    · exact hconvert.trans (if_neg hrange)

end Ieee

end WasmSandbox
