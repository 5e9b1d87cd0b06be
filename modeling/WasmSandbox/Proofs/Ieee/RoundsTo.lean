import Mathlib.Tactic.Linarith
import WasmSandbox.Ieee.Rounding
import WasmSandbox.Proofs.Ieee.Order

/-!
# What numbers and patterns are rounded to

* `Rounding.Rounds`: the integer that a rational number is rounded to. There is one for each number
  (`Rounding.Rounds.unique`), integers stay (`Rounding.rounds_intCast`), and integers that a number is not above
  or not below bound the result (`Rounding.Rounds.le_intCast`, `Rounding.Rounds.intCast_le`).
* `Rounding.dual`: the way to round that the negation turns a way to round into. `Rounding.Rounds.neg`.
* `Ieee.RoundsTo`: the pattern that a pattern is rounded to, with infinities and the sign of zeros.
  **`Ieee.RoundsTo.unique`**: there is at most one. `Ieee.RoundsTo.neg`, `Ieee.RoundsTo.self`,
  `Ieee.RoundsTo.by_sign` and `Ieee.RoundsTo.truncate_eq` are its laws.
-/

namespace WasmSandbox

/-! ## Rational numbers -/

namespace Rounding

/-- The rational number `q` is rounded to the integer `n`. To nearest, every other integer is farther away, or
as far away and `n` is even. -/
def Rounds : Rounding → ℚ → ℤ → Prop
  | floor, q, n => n = ⌊q⌋
  | ceil, q, n => n = ⌈q⌉
  | trunc, q, n => n = towardZero q
  | nearest, q, n => ∀ m : ℤ, m ≠ n → |q - n| < |q - m| ∨ |q - n| = |q - m| ∧ Even n

/-- The way to round under the opposite order. -/
def dual : Rounding → Rounding
  | floor => ceil
  | ceil => floor
  | trunc => trunc
  | nearest => nearest

variable {r : Rounding} {q : ℚ} {n m : ℤ}

/-- **The negation of a number is rounded under the opposite order** to the negated integer. -/
theorem Rounds.neg (h : r.Rounds q n) : r.dual.Rounds (-q) (-n) := by
  cases r with
  | floor =>
    obtain rfl : n = ⌊q⌋ := h
    exact Int.ceil_neg.symm
  | ceil =>
    obtain rfl : n = ⌈q⌉ := h
    exact Int.floor_neg.symm
  | trunc =>
    obtain rfl : n = towardZero q := h
    exact (towardZero_neg q).symm
  | nearest =>
    intro m hm
    have hdist : ∀ k : ℤ, |-q - k| = |q - (-k : ℤ)| := by
      intro k
      rw [← abs_neg]
      push_cast
      ring_nf
    rw [hdist, hdist, Int.neg_neg, even_neg]
    exact h (-m) (by omega)

theorem Rounds.nearest_le (h : nearest.Rounds q n) (m : ℤ) : |q - n| ≤ |q - m| := by
  by_cases hm : m = n
  · rw [hm]
  · rcases h m hm with hlt | ⟨heq, -⟩
    · exact hlt.le
    · exact heq.le

theorem Rounds.le_intCast (h : r.Rounds q n) (hq : q ≤ m) : n ≤ m := by
  have hfloor : ⌊q⌋ ≤ m := by
    have := Int.floor_le q
    exact_mod_cast this.trans hq
  have hceil : ⌈q⌉ ≤ m := Int.ceil_le.mpr hq
  cases r with
  | floor => exact h.trans_le hfloor
  | ceil => exact h.trans_le hceil
  | trunc =>
    obtain rfl : n = towardZero q := h
    unfold towardZero
    split_ifs <;> assumption
  | nearest =>
    by_contra hlt
    have hlt' : (m : ℚ) < n := by exact_mod_cast Int.not_le.mp hlt
    have hcloser : |q - m| < |q - n| := by
      rw [abs_of_nonpos (by linarith), abs_of_nonpos (by linarith)]
      linarith
    exact absurd (h.nearest_le m) (not_le.mpr hcloser)

theorem Rounds.intCast_le (h : r.Rounds q n) (hq : (m : ℚ) ≤ q) : m ≤ n := by
  have hneg : -n ≤ -m := h.neg.le_intCast (by push_cast; linarith)
  omega

theorem rounds_intCast (r : Rounding) (n : ℤ) : r.Rounds n n := by
  cases r with
  | floor => exact (Int.floor_intCast n).symm
  | ceil => exact (Int.ceil_intCast n).symm
  | trunc => exact (towardZero_intCast n).symm
  | nearest =>
    intro m hm
    have hne : (n : ℚ) - m ≠ 0 := by
      rw [sub_ne_zero]
      exact_mod_cast hm.symm
    exact .inl (by simpa using abs_pos.mpr hne)

theorem Rounds.unique (hn : r.Rounds q n) (hm : r.Rounds q m) : n = m := by
  cases r with
  | floor | ceil | trunc => exact hn.trans hm.symm
  | nearest =>
    by_contra hne
    -- Two nearest integers would be even and equally far, so the number would be the integer half-way.
    have heq : |q - n| = |q - m| := le_antisymm (hn.nearest_le m) (hm.nearest_le n)
    have hneven : Even n := ((hn m (Ne.symm hne)).resolve_left heq.not_lt).2
    have hmeven : Even m := ((hm n hne).resolve_left heq.not_gt).2
    obtain ⟨c, hc⟩ := hneven.add hmeven
    have hq : q = c := by
      have hsum : (n : ℚ) + m = c + c := by exact_mod_cast hc
      rcases abs_eq_abs.mp heq with hsame | hopposite
      · exact absurd (by exact_mod_cast (by linarith : (n : ℚ) = m)) hne
      · linarith
    have hcn : c = n := le_antisymm (hn.intCast_le hq.ge) (hn.le_intCast hq.le)
    omega

theorem rounds_nearest_of (hhalf : |q - n| ≤ 1 / 2) (htie : |q - n| = 1 / 2 → Even n) :
    nearest.Rounds q n := by
  intro m hm
  have hgap : (1 : ℚ) ≤ |(m : ℚ) - n| := by exact_mod_cast Int.one_le_abs (sub_ne_zero.mpr hm)
  have htriangle : |(m : ℚ) - n| ≤ |q - m| + |q - n| := by
    rw [abs_sub_comm q m]
    simpa using abs_add_le ((m : ℚ) - q) (q - n)
  rcases lt_or_eq_of_le (show |q - n| ≤ |q - m| by linarith) with hlt | heq
  · exact .inl hlt
  · exact .inr ⟨heq, htie (by linarith)⟩

end Rounding

/-! ## Patterns and their negations -/

/-- The opposite number, or the infinity on the other side. -/
def Datum.neg : Datum → Datum
  | nan => nan
  | infinite negative => infinite !negative
  | finite q => finite (-q)

namespace Ieee

variable {fmt : Format} {r : Rounding} {x y z : Ieee fmt} {q : ℚ}

theorem datum_neg (x : Ieee fmt) : x.neg.datum = x.datum.neg := by
  have hexponent : x.neg.exponent = x.exponent := by rw [exponent, exponent, magnitude_neg]
  have hfraction : x.neg.fraction = x.fraction := by rw [fraction, fraction, magnitude_neg]
  have hvalue : x.neg.value = -x.value := by
    rw [value_eq_units_div, value_eq_units_div, units_neg, Int.cast_neg, neg_div]
  rw [datum, datum, hexponent, hfraction, hvalue, sign_neg]
  split_ifs <;> rfl

/-- A pattern that stands for something is known by that and by its sign. -/
theorem eq_of_datum_sign (hx : x.isNaN = false) (hdatum : x.datum = y.datum) (hsign : x.sign = y.sign) :
    x = y := by
  have hy : y.isNaN = false := by rwa [← datum_ne_nan_iff, ← hdatum, datum_ne_nan_iff]
  have hrefl : x.AtMost x := (atMost_iff_rank hx hx).mpr (Int.le_refl _)
  have hxy : x.AtMost y := by rwa [AtMost, ← hdatum, ← hsign]
  have hyx : y.AtMost x := by rwa [AtMost, ← hdatum, ← hsign]
  exact rank_injective (Int.le_antisymm ((atMost_iff_rank hx hy).mp hxy) ((atMost_iff_rank hy hx).mp hyx))

theorem value_of_finite (h : x.datum = .finite q) : x.value = q := by
  rw [datum] at h
  split_ifs at h
  exact Datum.finite.inj h

theorem sign_of_infinite {b : Bool} (h : x.datum = .infinite b) : x.sign = b := by
  rw [datum] at h
  split_ifs at h
  exact Datum.infinite.inj h

theorem value_nonpos (h : x.sign = true) : x.value ≤ 0 := by
  rw [value_eq_units_div]
  exact div_nonpos_of_nonpos_of_nonneg (by exact_mod_cast units_nonpos h) (by positivity)

theorem value_nonneg (h : x.sign = false) : 0 ≤ x.value := by
  rw [value_eq_units_div]
  exact div_nonneg (by exact_mod_cast units_nonneg h) (by positivity)

/-! ## Rounded patterns -/

/-- The pattern `x` is rounded to the pattern `y`. Infinities stay, numbers become integers, and a zero keeps the
sign of `x`. A NaN is rounded to nothing. -/
structure RoundsTo (r : Rounding) (x y : Ieee fmt) : Prop where
  datum : (∃ b, x.datum = .infinite b ∧ y.datum = .infinite b) ∨
    ∃ (q : ℚ) (n : ℤ), x.datum = .finite q ∧ y.datum = .finite n ∧ r.Rounds q n
  zero : y.datum = .finite 0 → y.sign = x.sign

namespace RoundsTo

theorem isNaN_eq_false (h : RoundsTo r x y) : y.isNaN = false := by
  rw [← datum_ne_nan_iff]
  rcases h.datum with ⟨b, -, hy⟩ | ⟨q, n, -, hy, -⟩ <;> simp [hy]

theorem sign_eq (h : RoundsTo r x y) : y.sign = x.sign := by
  rcases h.datum with ⟨b, hx, hy⟩ | ⟨q, n, hx, hy, hround⟩
  · rw [sign_of_infinite hx, sign_of_infinite hy]
  · have hq := value_of_finite hx
    have hn := value_of_finite hy
    by_contra hne
    -- Numbers of opposite signs between which no number is can only be zeros.
    have hzero : n = 0 := by
      cases hs : x.sign with
      | true =>
        have hq0 : q ≤ (0 : ℤ) := by exact_mod_cast hq ▸ value_nonpos hs
        have hn0 : (0 : ℚ) ≤ n := hn ▸ value_nonneg (by simpa [hs] using hne)
        exact le_antisymm (hround.le_intCast hq0) (by exact_mod_cast hn0)
      | false =>
        have hq0 : ((0 : ℤ) : ℚ) ≤ q := by exact_mod_cast hq ▸ value_nonneg hs
        have hn0 : (n : ℚ) ≤ 0 := hn ▸ value_nonpos (by simpa [hs] using hne)
        exact le_antisymm (by exact_mod_cast hn0) (hround.intCast_le hq0)
    exact hne (h.zero (by rw [hy, hzero, Int.cast_zero]))

/-- **A pattern is rounded to at most one pattern.** -/
theorem unique (hy : RoundsTo r x y) (hz : RoundsTo r x z) : y = z := by
  have hdatum : y.datum = z.datum := by
    rcases hy.datum with ⟨b, hx, hyd⟩ | ⟨q, n, hx, hyd, hn⟩
    · rcases hz.datum with ⟨c, hx', hzd⟩ | ⟨p, m, hx', -, -⟩
      · rw [hyd, hzd, Datum.infinite.inj (hx.symm.trans hx')]
      · simp [hx] at hx'
    · rcases hz.datum with ⟨c, hx', -⟩ | ⟨p, m, hx', hzd, hm⟩
      · simp [hx] at hx'
      · obtain rfl : q = p := Datum.finite.inj (hx.symm.trans hx')
        rw [hyd, hzd, hn.unique hm]
  exact eq_of_datum_sign hy.isNaN_eq_false hdatum (hy.sign_eq.trans hz.sign_eq.symm)

theorem self (h : RoundsTo r x y) : RoundsTo r y y where
  datum := by
    rcases h.datum with ⟨b, -, hy⟩ | ⟨q, n, -, hy, -⟩
    · exact .inl ⟨b, hy, hy⟩
    · exact .inr ⟨n, n, hy, hy, Rounding.rounds_intCast r n⟩
  zero _ := rfl

theorem neg (h : RoundsTo r x y) : RoundsTo r.dual x.neg y.neg where
  datum := by
    rw [datum_neg, datum_neg]
    rcases h.datum with ⟨b, hx, hy⟩ | ⟨q, n, hx, hy, hround⟩
    · exact .inl ⟨!b, by rw [hx, Datum.neg], by rw [hy, Datum.neg]⟩
    · exact .inr ⟨-q, -n, by rw [hx, Datum.neg], by rw [hy, Datum.neg, Int.cast_neg], hround.neg⟩
  zero hzero := by
    have hy : y.datum = .finite 0 := by
      rw [← y.neg_neg, datum_neg, hzero, Datum.neg, neg_zero]
    rw [sign_neg, sign_neg, h.zero hy]

theorem by_sign (h : RoundsTo .trunc x y) : RoundsTo (if x.sign then .ceil else .floor) x y where
  datum := by
    rcases h.datum with hinf | ⟨q, n, hx, hy, hround⟩
    · exact .inl hinf
    · refine .inr ⟨q, n, hx, hy, ?_⟩
      have hn : n = if 0 ≤ q then ⌊q⌋ else ⌈q⌉ := hround
      have hq := value_of_finite hx
      cases hs : x.sign with
      | false =>
        have hq0 : 0 ≤ q := hq ▸ value_nonneg hs
        exact hn.trans (if_pos hq0)
      | true =>
        have hq0 : q ≤ 0 := hq ▸ value_nonpos hs
        rcases eq_or_lt_of_le hq0 with rfl | hlt
        · simpa [Rounding.Rounds] using hn
        · exact hn.trans (if_neg (not_le.mpr hlt))
  zero := h.zero

/-- **Rounding toward zero does not change what a number is converted to.** -/
theorem truncate_eq (h : RoundsTo .trunc x y) (t : IntType) : y.truncate t = x.truncate t := by
  rcases h.datum with ⟨b, hx, hy⟩ | ⟨q, n, hx, hy, hround⟩
  · rw [eq_of_datum_sign h.isNaN_eq_false (hy.trans hx.symm) h.sign_eq]
  · have hnum : x.isNaN = false := by simp [← datum_ne_nan_iff, hx]
    have hpart : y.integerPart = x.integerPart := by
      rw [integerPart_eq, integerPart_eq, value_of_finite hy, value_of_finite hx, towardZero_intCast]
      exact hround
    rw [Ieee.truncate_eq t h.isNaN_eq_false, Ieee.truncate_eq t hnum, hpart]

end RoundsTo

end Ieee

end WasmSandbox
