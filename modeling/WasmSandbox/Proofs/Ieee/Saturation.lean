import WasmSandbox.Proofs.Ieee.Truncation

/-!
# Saturating conversions against trapping ones

* `Datum.Le`: the order of the numbers and infinities that patterns stand for.
* `Ieee.datum_cases`: a pattern that is no NaN is an infinity, or a number whose units are fewer.
* `Ieee.datum_le_iff`: `units` orders the patterns that are no NaN. `Ieee.datum_le_iff_compare`: the
  comparisons of patterns agree with the order of values.
* `Ieee.read_saturate`: a saturating conversion clamps the integer part.
* **`Ieee.saturate_agrees`**: a saturating conversion gives what the trapping one gives, 0 for a NaN and the
  nearer end of the range where the other one traps as too large; it is monotone.
-/

namespace WasmSandbox

/-! ## Order -/

/-- The order of the extended numbers. A NaN is not ordered, not even with itself. -/
def Datum.Le : Datum → Datum → Prop
  | .nan, _ | _, .nan => False
  | .finite p, .finite q => p ≤ q
  | .infinite negative, .finite _ => negative = true
  | .finite _, .infinite negative => negative = false
  | .infinite negative, .infinite negative' => negative' = true → negative = true

namespace Datum

theorem not_nan_le {d : Datum} : ¬ Le .nan d := by cases d <;> exact id

theorem not_le_nan {d : Datum} : ¬ d.Le .nan := by cases d <;> exact id

end Datum

namespace Ieee

variable {fmt : Format} {x y : Ieee fmt}

theorem datum_eq_nan_iff : x.datum = .nan ↔ x.isNaN = true := by
  rw [isNaN_iff, datum]
  split_ifs with hexponent hfraction
  · exact iff_of_false id fun h => h.2 hfraction
  · exact iff_of_true rfl ⟨hexponent, hfraction⟩
  · exact iff_of_false id fun h => hexponent h.1

theorem datum_ne_nan_iff : x.datum ≠ .nan ↔ x.isNaN = false := by
  rw [ne_eq, datum_eq_nan_iff, Bool.not_eq_true]

/-- The units that an infinity counts as. -/
def unitsOfInfinity (fmt : Format) : ℤ := unitsOf fmt (twoPow (fmt.bias + 1))

theorem unitsOfInfinity_pos (fmt : Format) : 0 < unitsOfInfinity fmt :=
  Int.mul_pos (Int.natCast_pos.mpr (twoPow_pos _)) (Int.natCast_pos.mpr (twoPow_pos _))

theorem datum_cases (hx : x.isNaN = false) :
    (∃ negative, x.datum = .infinite negative ∧
      x.units = if negative then -unitsOfInfinity fmt else unitsOfInfinity fmt) ∨
    ∃ q : ℚ, x.datum = .finite q ∧ q = x.units / 2 ^ fmt.oneExponent ∧
      -unitsOfInfinity fmt < x.units ∧ x.units < unitsOfInfinity fmt := by
  by_cases hexponent : x.exponent = 2 ^ fmt.exponentBits - 1
  · have hfraction : x.fraction = 0 := by
      by_contra hne
      exact Bool.eq_false_iff.mp hx (isNaN_iff x |>.mpr ⟨hexponent, hne⟩)
    refine .inl ⟨x.sign, by rw [datum, if_pos hexponent, if_pos hfraction], ?_⟩
    rw [units, absUnits_of_infinite hexponent hfraction, Int.natCast_mul]
    rfl
  · have hlt : (x.absUnits : ℤ) < unitsOfInfinity fmt :=
      Int.ofNat_lt.mpr (absUnits_lt_of_finite hexponent)
    refine .inr ⟨x.value, by rw [datum, if_neg hexponent], x.value_eq_units_div, ?_⟩
    rw [← natAbs_units] at hlt
    omega

/-- **`units` orders the patterns that are no NaN.** -/
theorem datum_le_iff (hx : x.isNaN = false) (hy : y.isNaN = false) :
    x.datum.Le y.datum ↔ x.units ≤ y.units := by
  have hone : (0 : ℚ) < 2 ^ fmt.oneExponent := by positivity
  have hpos := unitsOfInfinity_pos fmt
  rcases datum_cases hx with ⟨b, hxd, hxu⟩ | ⟨p, hxd, rfl, hxu⟩ <;>
    rcases datum_cases hy with ⟨c, hyd, hyu⟩ | ⟨q, hyd, rfl, hyu⟩ <;> rw [hxd, hyd, Datum.Le]
  · rw [hxu, hyu]
    cases b <;> cases c <;> simp <;> omega
  · rw [hxu]
    cases b <;> simp <;> omega
  · rw [hyu]
    cases c <;> simp <;> omega
  · rw [div_le_div_iff_of_pos_right hone, Int.cast_le]

theorem datum_le_iff_compare : x.datum.Le y.datum ↔ (x.lt y || x.eq y) = true := by
  cases hx : x.isNaN with
  | true =>
    rw [datum_eq_nan_iff.mpr hx, lt, eq, hx]
    exact iff_of_false Datum.not_nan_le nofun
  | false =>
    cases hy : y.isNaN with
    | true =>
      rw [datum_eq_nan_iff.mpr hy, lt, eq, hx, hy]
      exact iff_of_false Datum.not_le_nan nofun
    | false =>
      rw [datum_le_iff hx hy, lt, eq, hx, hy, Int.le_iff_lt_or_eq]
      simp

/-! ## Zero -/

theorem isNaN_zero : (⟨0⟩ : Ieee fmt).isNaN = false := by cases fmt <;> decide

theorem units_zero : (⟨0⟩ : Ieee fmt).units = 0 := by cases fmt <;> decide

theorem datum_zero : (⟨0⟩ : Ieee fmt).datum = .finite 0 := by
  have hexponent : (⟨0⟩ : Ieee fmt).exponent ≠ 2 ^ fmt.exponentBits - 1 := by cases fmt <;> decide
  rw [datum, if_neg hexponent, value_eq_units_div, units_zero, Int.cast_zero, zero_div]

theorem datum_le_zero_iff (hx : x.isNaN = false) : x.datum.Le (.finite 0) ↔ x.units ≤ 0 := by
  rw [← @datum_zero fmt, datum_le_iff hx isNaN_zero, units_zero]

theorem zero_le_datum_iff (hx : x.isNaN = false) : Datum.Le (.finite 0) x.datum ↔ 0 ≤ x.units := by
  rw [← @datum_zero fmt, datum_le_iff isNaN_zero hx, units_zero]

/-! ## Conversions -/

/-- **A saturating conversion clamps the integer part.** -/
theorem read_saturate (t : IntType) (hx : x.isNaN = false) :
    t.read (x.saturate t) = Max.max t.minValue (Min.min t.maxValue x.integerPart) := by
  have hrange : t.minValue ≤ t.maxValue := by cases t <;> decide
  rw [saturate, hx, if_neg Bool.false_ne_true]
  exact IntType.read_ofInt ⟨le_max_left .., max_le hrange (min_le_left ..)⟩

theorem saturate_eq_of_truncate {t : IntType} {v : BitVec t.bits} (h : x.truncate t = .ok v) :
    x.saturate t = v := by
  rw [truncate] at h
  split_ifs at h
  exact Except.ok.inj h

theorem truncate_eq_invalidConversion_iff {t : IntType} :
    x.truncate t = .error .invalidConversion ↔ x.isNaN = true := by
  cases hx : x.isNaN with
  | true => exact iff_of_true (if_pos hx) rfl
  | false =>
    rw [truncate_eq t hx]
    exact iff_of_false (by split_ifs <;> exact nofun) nofun

theorem truncate_eq_integerOverflow {t : IntType} (h : x.truncate t = .error .integerOverflow) :
    x.isNaN = false ∧ ¬ t.Has x.integerPart := by
  cases hx : x.isNaN with
  | true =>
    rw [truncate_eq_invalidConversion_iff.mpr hx] at h
    cases h
  | false =>
    refine ⟨rfl, fun hhas => ?_⟩
    rw [truncate_eq t hx, if_pos hhas] at h
    cases h

theorem integerPart_le (h : x.units ≤ y.units) : x.integerPart ≤ y.integerPart :=
  Int.tdiv_le_tdiv (Int.natCast_pos.mpr (twoPow_pos _)) h

theorem integerPart_nonneg (h : 0 ≤ x.units) : 0 ≤ x.integerPart :=
  Int.tdiv_nonneg h (Int.natCast_nonneg _)

theorem integerPart_nonpos (h : x.units ≤ 0) : x.integerPart ≤ 0 :=
  (Int.tdiv_le_tdiv (Int.natCast_pos.mpr (twoPow_pos _)) h).trans_eq (Int.zero_tdiv _)

/-- **Saturating conversions agree with trapping ones** where those have a result. Else they give 0 for a
NaN and the nearest end of the range. They are monotone. -/
theorem saturate_agrees (t : IntType) (x : Ieee fmt) :
    (∀ v, x.truncate t = .ok v → x.saturate t = v) ∧
      (x.truncate t = .error .invalidConversion ↔ x.datum = .nan) ∧ (x.datum = .nan → x.saturate t = 0) ∧
      (x.truncate t = .error .integerOverflow →
        (x.datum.Le (.finite 0) → t.read (x.saturate t) = t.minValue) ∧
          (Datum.Le (.finite 0) x.datum → t.read (x.saturate t) = t.maxValue)) ∧
      ∀ y : Ieee fmt, x.datum.Le y.datum → t.read (x.saturate t) ≤ t.read (y.saturate t) := by
  refine ⟨fun v h => saturate_eq_of_truncate h, truncate_eq_invalidConversion_iff.trans datum_eq_nan_iff.symm,
    fun h => if_pos (datum_eq_nan_iff.mp h), fun h => ?_, fun y h => ?_⟩
  · obtain ⟨hx, hhas⟩ := truncate_eq_integerOverflow h
    have hmin : t.minValue ≤ 0 := by cases t <;> decide
    have hmax : 0 ≤ t.maxValue := by cases t <;> decide
    rw [IntType.Has] at hhas
    rw [read_saturate t hx]
    refine ⟨fun hle => ?_, fun hge => ?_⟩
    · have hpart := integerPart_nonpos ((datum_le_zero_iff hx).mp hle)
      omega
    · have hpart := integerPart_nonneg ((zero_le_datum_iff hx).mp hge)
      omega
  · have hx : x.isNaN = false := Bool.eq_false_iff.mpr fun hnan => by
      rw [datum_eq_nan_iff.mpr hnan] at h
      exact Datum.not_nan_le h
    have hy : y.isNaN = false := Bool.eq_false_iff.mpr fun hnan => by
      rw [datum_eq_nan_iff.mpr hnan] at h
      exact Datum.not_le_nan h
    rw [read_saturate t hx, read_saturate t hy]
    exact max_le_max_left _ (min_le_min_left _ (integerPart_le ((datum_le_iff hx hy).mp h)))

end Ieee

end WasmSandbox
