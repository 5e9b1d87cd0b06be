import WasmSandbox.Proofs.Ieee.RoundsTo

/-!
# Numbers are rounded to integers correctly

* `Rounding.rounds_quotient`: a quotient of integers is rounded to the right integer.
* `Ieee.sign_assemble`, `Ieee.magnitude_assemble`: the fields of a pattern that was built from them.
* `Ieee.sign_ofNat`, `Ieee.datum_ofNat`: the pattern of a small natural number stands for it.
* **`Ieee.roundsTo_integral`**: every pattern that is no NaN is rounded to the right pattern.
-/

namespace WasmSandbox

/-! ## Quotients -/

namespace Rounding

theorem nearest_quotient_rest (n : ℤ) {d : Nat} (hd : 0 < d) :
    2 * (n - nearest.quotient n d * d).natAbs ≤ d ∧
      (2 * (n - nearest.quotient n d * d).natAbs = d → Even (nearest.quotient n d)) := by
  have hdiv : n / d * d + n % d = n := Int.ediv_mul_add_emod n d
  have hnonneg : 0 ≤ n % d := Int.emod_nonneg n (by omega)
  have hlt : n % d < d := Int.emod_lt_of_pos n (by omega)
  have hnext : (n / d + 1) * d = n / d * d + d := add_one_mul _ _
  rw [Int.even_iff, quotient]
  split_ifs with hlow hhigh heven
  · omega
  · rw [hnext]
    omega
  · omega
  · rw [hnext]
    omega

theorem rounds_nearest_quotient (n : ℤ) {d : Nat} (hd : 0 < d) :
    nearest.Rounds (n / d) (nearest.quotient n d) := by
  have hd' : (0 : ℚ) < d := by exact_mod_cast hd
  obtain ⟨hhalf, htie⟩ := nearest_quotient_rest n hd
  generalize nearest.quotient n d = k at hhalf htie ⊢
  have hdist : |(n / d : ℚ) - k| = ((n - k * d).natAbs : ℚ) / d := by
    have hsub : (n / d : ℚ) - k = ((n - k * d : ℤ) : ℚ) / d := by
      push_cast
      field_simp
    rw [hsub, abs_div, abs_of_pos hd', Nat.cast_natAbs, Int.cast_abs]
  have hhalf' : (2 * (n - k * d).natAbs : ℚ) ≤ d := by exact_mod_cast hhalf
  apply rounds_nearest_of
  · rw [hdist, div_le_iff₀ hd']
    linarith
  · intro h
    rw [hdist, div_eq_iff hd'.ne'] at h
    have htwice : (2 * (n - k * d).natAbs : ℚ) = d := by linarith
    exact htie (by exact_mod_cast htwice)

/-- **A quotient is rounded to the right integer.** -/
theorem rounds_quotient (r : Rounding) (n : ℤ) {d : Nat} (hd : 0 < d) :
    r.Rounds (n / d) (r.quotient n d) := by
  cases r with
  | floor => exact (Rat.floor_intCast_div_natCast n d).symm
  | ceil => exact (Rat.ceil_intCast_div_natCast n d).symm
  | trunc => exact (towardZero_div n hd).symm
  | nearest => exact rounds_nearest_quotient n hd

end Rounding

namespace Ieee

variable {fmt : Format} {r : Rounding} {x : Ieee fmt} {s : Bool} {m n : Nat}

/-! ## Patterns from their fields -/

section Assemble

variable (hm : m < twoPow (fmt.width - 1))

include hm

theorem toNat_assemble :
    (assemble fmt s m).bits.toNat = (if s then twoPow (fmt.width - 1) else 0) + m := by
  have hwidth : 2 ^ fmt.width = twoPow (fmt.width - 1) + twoPow (fmt.width - 1) := by cases fmt <;> rfl
  rw [assemble, BitVec.toNat_ofNat]
  apply Nat.mod_eq_of_lt
  split_ifs <;> omega

theorem magnitude_assemble : (assemble fmt s m).magnitude = m := by
  rw [magnitude, toNat_assemble hm]
  split_ifs
  · rw [Nat.add_mod_left, Nat.mod_eq_of_lt hm]
  · rw [Nat.zero_add, Nat.mod_eq_of_lt hm]

theorem sign_assemble : (assemble fmt s m).sign = s := by
  rw [sign, BitVec.msb_eq_decide, toNat_assemble hm, ← twoPow_eq]
  cases s
  · simpa using hm
  · simp

end Assemble

/-! ## Natural numbers -/

theorem bias_pos (fmt : Format) : 0 < fmt.bias := by cases fmt <;> decide

/-- The bits below the sign that a natural number has. -/
def naturalBits (fmt : Format) (n : Nat) : Nat :=
  if n = 0 then 0
  else (fmt.bias + n.log2 - 1) * twoPow fmt.fractionBits + n * twoPow (fmt.fractionBits - n.log2)

section Positive

variable (hn : n ≠ 0) (hlt : n < 2 ^ (fmt.fractionBits + 1))

include hn hlt

theorem log2_le : n.log2 ≤ fmt.fractionBits := Nat.lt_succ_iff.mp ((Nat.log2_lt hn).mpr hlt)

theorem naturalBits_eq :
    ∃ c, n * 2 ^ (fmt.fractionBits - n.log2) = 2 ^ fmt.fractionBits + c ∧ c < 2 ^ fmt.fractionBits ∧
      naturalBits fmt n = (fmt.bias + n.log2) * 2 ^ fmt.fractionBits + c := by
  have hlog : n.log2 ≤ fmt.fractionBits := log2_le hn hlt
  have hscale : ∀ k, 2 ^ (n.log2 + k) * 2 ^ (fmt.fractionBits - n.log2) = 2 ^ (fmt.fractionBits + k) := by
    intro k
    rw [← Nat.pow_add]
    congr 1
    omega
  have hle : 2 ^ fmt.fractionBits ≤ n * 2 ^ (fmt.fractionBits - n.log2) :=
    calc 2 ^ fmt.fractionBits = 2 ^ n.log2 * 2 ^ (fmt.fractionBits - n.log2) := (hscale 0).symm
      _ ≤ n * 2 ^ (fmt.fractionBits - n.log2) := Nat.mul_le_mul_right _ (Nat.log2_self_le hn)
  have hnext : n * 2 ^ (fmt.fractionBits - n.log2) < 2 ^ (fmt.fractionBits + 1) :=
    calc n * 2 ^ (fmt.fractionBits - n.log2)
        < 2 ^ (n.log2 + 1) * 2 ^ (fmt.fractionBits - n.log2) :=
          Nat.mul_lt_mul_of_pos_right Nat.lt_log2_self (Nat.two_pow_pos _)
      _ = 2 ^ (fmt.fractionBits + 1) := hscale 1
  obtain ⟨c, hc⟩ := Nat.exists_eq_add_of_le hle
  refine ⟨c, hc, by omega, ?_⟩
  obtain ⟨e, he⟩ := Nat.exists_eq_add_one.mpr (bias_pos fmt)
  rw [naturalBits, if_neg hn, twoPow_eq, twoPow_eq, hc, he, Nat.add_right_comm, Nat.add_sub_cancel,
    Nat.add_one_mul, Nat.add_assoc]

end Positive

section Natural

variable (hlt : n < 2 ^ (fmt.fractionBits + 1))

include hlt

theorem naturalBits_lt : naturalBits fmt n < fmt.infinity := by
  have hpos : 0 < fmt.infinity := by cases fmt <;> decide
  by_cases hn : n = 0
  · rwa [naturalBits, if_pos hn]
  · obtain ⟨c, -, hc, hbits⟩ := naturalBits_eq hn hlt
    have hlog : n.log2 ≤ fmt.fractionBits := log2_le hn hlt
    have hlargest : fmt.bias + fmt.fractionBits + 1 ≤ 2 ^ fmt.exponentBits - 1 := by cases fmt <;> decide
    have hmul := Nat.mul_le_mul_right (2 ^ fmt.fractionBits)
      (show fmt.bias + n.log2 + 1 ≤ 2 ^ fmt.exponentBits - 1 by omega)
    rw [Nat.add_one_mul] at hmul
    rw [hbits, Format.infinity, twoPow_eq, twoPow_eq]
    omega

theorem naturalBits_lt_width : naturalBits fmt n < twoPow (fmt.width - 1) :=
  (naturalBits_lt hlt).trans (by cases fmt <;> decide)

theorem sign_ofNat : (ofNat fmt s n).sign = s := sign_assemble (naturalBits_lt_width hlt)

theorem magnitude_ofNat : (ofNat fmt s n).magnitude = naturalBits fmt n :=
  magnitude_assemble (naturalBits_lt_width hlt)

theorem absUnits_ofNat : (ofNat fmt s n).absUnits = n * 2 ^ fmt.oneExponent := by
  by_cases hn : n = 0
  · rw [absUnits_eq_zero_iff.mpr (by rw [magnitude_ofNat hlt, naturalBits, if_pos hn]), hn, Nat.zero_mul]
  · obtain ⟨c, hn', hc, hbits⟩ := naturalBits_eq hn hlt
    have hlog : n.log2 ≤ fmt.fractionBits := log2_le hn hlt
    have hone := fmt.oneExponent_eq
    have hbias := bias_pos fmt
    have hexponent : (ofNat fmt s n).exponent = fmt.bias + n.log2 := by
      rw [exponent, magnitude_ofNat hlt, hbits, twoPow_eq, Nat.mul_comm,
        Nat.mul_add_div (Nat.two_pow_pos _), Nat.div_eq_of_lt hc, Nat.add_zero]
    have hfraction : (ofNat fmt s n).fraction = c := by
      rw [fraction, magnitude_ofNat hlt, hbits, twoPow_eq, Nat.mul_comm, Nat.mul_add_mod,
        Nat.mod_eq_of_lt hc]
    rw [absUnits, significand, place, hexponent, hfraction, if_neg (by omega), twoPow_eq, twoPow_eq, ← hn',
      Nat.mul_assoc, ← Nat.pow_add]
    congr 2
    omega

/-- **The pattern of a natural number stands for it**, if it has no more digits than a significand. -/
theorem datum_ofNat : (ofNat fmt s n).datum = .finite (if s then -n else n : ℤ) := by
  have hexponent : (ofNat fmt s n).exponent ≠ 2 ^ fmt.exponentBits - 1 := by
    apply Nat.ne_of_lt
    rw [exponent, magnitude_ofNat hlt]
    apply Nat.div_lt_of_lt_mul
    rw [Nat.mul_comm]
    exact naturalBits_lt hlt
  rw [datum, if_neg hexponent, value_eq_units_div, units, sign_ofNat hlt, absUnits_ofNat hlt]
  cases s <;> simp [neg_div]

end Natural

/-! ## Rounding -/

theorem roundsTo_self_of_dvd (hx : x.isNaN = false) (h : (twoPow fmt.oneExponent : ℤ) ∣ x.units) :
    RoundsTo r x x where
  datum := by
    rcases datum_cases hx with ⟨b, hb, -⟩ | ⟨q, hq, hunits, -⟩
    · exact .inl ⟨b, hb, hb⟩
    · obtain ⟨k, hk⟩ := h
      have hint : q = k := by
        rw [hunits, hk, twoPow_eq]
        push_cast
        field_simp
      exact .inr ⟨q, k, hq, hint ▸ hq, hint ▸ Rounding.rounds_intCast r k⟩
  zero _ := rfl

theorem natAbs_le_of_rounds {k : ℤ} (h : r.Rounds x.value k)
    (hx : x.absUnits < 2 ^ fmt.fractionBits * 2 ^ fmt.oneExponent) : k.natAbs ≤ 2 ^ fmt.fractionBits := by
  have hone : (0 : ℚ) < 2 ^ fmt.oneExponent := by positivity
  have hunits : (|x.units| : ℤ) ≤ 2 ^ fmt.fractionBits * 2 ^ fmt.oneExponent := by
    rw [Int.abs_eq_natAbs, natAbs_units]
    exact_mod_cast hx.le
  have hunits' : |(x.units : ℚ)| ≤ 2 ^ fmt.fractionBits * 2 ^ fmt.oneExponent := by exact_mod_cast hunits
  have hvalue : |x.value| ≤ 2 ^ fmt.fractionBits := by
    rwa [value_eq_units_div, abs_div, abs_of_pos hone, div_le_iff₀ hone]
  obtain ⟨hlow, hhigh⟩ := abs_le.mp hvalue
  have hk : k ≤ 2 ^ fmt.fractionBits := h.le_intCast (by exact_mod_cast hhigh)
  have hk' : -2 ^ fmt.fractionBits ≤ k := h.intCast_le (by exact_mod_cast hlow)
  zify
  exact abs_le.mpr ⟨hk', hk⟩

theorem sign_natAbs_of_rounds {k : ℤ} (h : r.Rounds x.value k) :
    (if x.sign then -k.natAbs else k.natAbs : ℤ) = k := by
  cases hs : x.sign with
  | true =>
    have hle : k ≤ 0 := h.le_intCast (by exact_mod_cast value_nonpos hs)
    rw [if_pos rfl]
    omega
  | false =>
    have hge : 0 ≤ k := h.intCast_le (by exact_mod_cast value_nonneg hs)
    rw [if_neg Bool.false_ne_true]
    omega

theorem roundsTo_ofNat {k : ℤ} (h : r.Rounds x.value k) (hfinite : x.datum = .finite x.value)
    (hx : x.absUnits < 2 ^ fmt.fractionBits * 2 ^ fmt.oneExponent) :
    RoundsTo r x (ofNat fmt x.sign k.natAbs) := by
  have hfits : k.natAbs < 2 ^ (fmt.fractionBits + 1) :=
    (natAbs_le_of_rounds h hx).trans_lt (Nat.pow_lt_pow_right Nat.one_lt_two (Nat.lt_succ_self _))
  refine ⟨.inr ⟨x.value, k, hfinite, ?_, h⟩, fun _ => sign_ofNat hfits⟩
  rw [datum_ofNat hfits, sign_natAbs_of_rounds h]

/-- **Every pattern that is no NaN is rounded to the right pattern.** -/
theorem roundsTo_integral (r : Rounding) (hx : x.isNaN = false) : RoundsTo r x (integral r x) := by
  have hone := fmt.oneExponent_eq
  have hbias := bias_pos fmt
  rw [integral, integralExponent]
  split_ifs with hlarge
  · obtain ⟨e, he⟩ : ∃ e, x.exponent = e + 1 := Nat.exists_eq_add_one.mpr (by omega)
    apply roundsTo_self_of_dvd hx
    apply x.dvd_units
    calc twoPow fmt.fractionBits * twoPow fmt.oneExponent
        ≤ 2 ^ fmt.fractionBits * 2 ^ e := Nat.mul_le_mul_left _ (Nat.pow_le_pow_right Nat.two_pos (by omega))
      _ ≤ x.absUnits := x.le_absUnits he
  · have hround : r.Rounds x.value (r.quotient x.units (twoPow fmt.oneExponent)) := by
      have h := Rounding.rounds_quotient r x.units (twoPow_pos fmt.oneExponent)
      rw [twoPow_eq, Nat.cast_pow, Nat.cast_ofNat] at h
      rwa [value_eq_units_div]
    have hfinite : x.datum = .finite x.value := by
      have hlargest : fmt.bias + fmt.fractionBits ≤ 2 ^ fmt.exponentBits - 1 := by cases fmt <;> decide
      rw [datum, if_neg (by omega)]
    apply roundsTo_ofNat hround hfinite
    calc x.absUnits < 2 ^ fmt.fractionBits * 2 ^ x.exponent := x.absUnits_lt
      _ ≤ 2 ^ fmt.fractionBits * 2 ^ fmt.oneExponent :=
        Nat.mul_le_mul_left _ (Nat.pow_le_pow_right Nat.two_pos (by omega))

end Ieee

end WasmSandbox
