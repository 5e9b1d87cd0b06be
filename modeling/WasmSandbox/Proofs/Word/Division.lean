import WasmSandbox.Proofs.Ieee.Truncation
import WasmSandbox.Word.Division

/-!
# Division and remainder obey the division law

* `RoundedQuotient`: the division law, with the quotient rounded toward zero.
* `IntType.div_eq_ok`, `IntType.rem_eq_ok` and so on: what the operations do, said of the numbers that the
  words are read as.
* **`IntType.div_rem_law`**: the traps of both operations, and the division law of their results.
-/

namespace WasmSandbox

/-! ## Integers -/

/-- `q` and `r` are the quotient of `n` by `d`, rounded toward zero, and what it leaves. -/
structure RoundedQuotient (n d q r : ℤ) : Prop where
  law : n = q * d + r
  small : |r| < |d|
  sign : r = 0 ∨ r.sign = n.sign
  rounded : q = towardZero (n / d)

theorem towardZero_intCast_div (n : ℤ) {d : ℤ} (hd : d ≠ 0) : towardZero (n / d) = n.tdiv d := by
  rcases Int.lt_or_gt_of_ne hd with hneg | hpos
  · obtain ⟨k, rfl⟩ := Int.exists_eq_neg_ofNat hneg.le
    have hquotient : (n / (-(k : ℤ) : ℤ) : ℚ) = (-n : ℤ) / k := by
      push_cast
      rw [div_neg, neg_div]
    rw [hquotient, towardZero_div (-n) (by omega), Int.neg_tdiv, Int.tdiv_neg]
  · obtain ⟨k, rfl⟩ := Int.eq_ofNat_of_zero_le hpos.le
    exact towardZero_div n (by omega)

theorem roundedQuotient_tdiv (n : ℤ) {d : ℤ} (hd : d ≠ 0) :
    RoundedQuotient n d (n.tdiv d) (n.tmod d) where
  law := (Int.tdiv_mul_add_tmod n d).symm
  small := by
    rw [Int.abs_eq_natAbs, Int.abs_eq_natAbs, Int.natAbs_tmod]
    exact Int.ofNat_lt.mpr (Nat.mod_lt _ (Int.natAbs_pos.mpr hd))
  sign := by
    by_cases hdvd : d ∣ n
    · exact .inl (Int.tmod_eq_zero_of_dvd hdvd)
    · exact .inr ((Int.sign_tmod n d).trans (if_neg hdvd))
  rounded := (towardZero_intCast_div n hd).symm

/-! ## Words -/

namespace IntType

theorem has_read (t : IntType) (x : BitVec t.bits) : t.Has (t.read x) := by
  cases t with
  | s32 | s64 => exact ⟨x.le_toInt, Int.le_sub_one_of_lt x.toInt_lt⟩
  | u32 | u64 => exact ⟨Int.natCast_nonneg _, Int.le_sub_one_of_lt (Int.ofNat_lt.mpr x.isLt)⟩

theorem read_eq_zero_iff {t : IntType} {x : BitVec t.bits} : t.read x = 0 ↔ x = 0 := by
  cases t with
  | s32 | s64 => exact BitVec.toInt_inj (y := 0)
  | u32 | u64 => exact Int.ofNat_inj.trans (BitVec.toNat_inj (y := 0))

section Operations

variable {t : IntType} {x y : BitVec t.bits}

/-- The dividend is the least number of the type and the divisor -1, so that the type has no quotient. -/
def Overflows (t : IntType) (n d : ℤ) : Prop := n = t.minValue ∧ d = -1

theorem div_eq_divisionByZero (hy : t.read y = 0) : t.div x y = .error .divisionByZero := by
  rw [read_eq_zero_iff] at hy
  cases t <;> exact if_pos hy

theorem div_eq_integerOverflow (h : t.Overflows (t.read x) (t.read y)) :
    t.div x y = .error .integerOverflow := by
  obtain ⟨hx, hy⟩ := h
  cases t with
  | s32 | s64 =>
    obtain rfl : x = BitVec.intMin _ := BitVec.toInt_inj.mp hx
    obtain rfl : y = BitVec.allOnes _ := BitVec.toInt_inj.mp hy
    rfl
  | u32 | u64 => exact absurd (hy.symm.trans_ge (Int.natCast_nonneg y.toNat)) (by decide)

theorem div_eq_ok (hy : t.read y ≠ 0) (hfit : ¬ t.Overflows (t.read x) (t.read y)) :
    ∃ q, t.div x y = .ok q ∧ t.read q = (t.read x).tdiv (t.read y) := by
  have hzero : y ≠ 0 := mt read_eq_zero_iff.mpr hy
  cases t with
  | s32 | s64 =>
    have hwords : ¬ (x = BitVec.intMin _ ∧ y = BitVec.allOnes _) := by
      rintro ⟨rfl, rfl⟩
      exact hfit ⟨rfl, rfl⟩
    refine ⟨x.sdiv y, ?_, BitVec.toInt_sdiv_of_ne_or_ne x y (Decidable.not_and_iff_not_or_not.mp hwords)⟩
    rw [div, Word.divS, if_neg hzero, if_neg hwords]
  | u32 | u64 => exact ⟨x.udiv y, if_neg hzero, rfl⟩

theorem rem_eq_divisionByZero (hy : t.read y = 0) : t.rem x y = .error .divisionByZero := by
  rw [read_eq_zero_iff] at hy
  cases t <;> exact if_pos hy

theorem rem_eq_ok (hy : t.read y ≠ 0) :
    ∃ r, t.rem x y = .ok r ∧ t.read r = (t.read x).tmod (t.read y) := by
  have hzero : y ≠ 0 := mt read_eq_zero_iff.mpr hy
  cases t with
  | s32 | s64 => exact ⟨x.srem y, if_neg hzero, BitVec.toInt_srem x y⟩
  | u32 | u64 => exact ⟨x.umod y, if_neg hzero, rfl⟩

/-- **When division traps.** -/
theorem div_eq_error_iff {e : Trap} :
    t.div x y = .error e ↔ e = .divisionByZero ∧ t.read y = 0 ∨
      e = .integerOverflow ∧ t.Overflows (t.read x) (t.read y) := by
  by_cases hy : t.read y = 0
  · have hfit : ¬ t.Overflows (t.read x) (t.read y) := by
      rintro ⟨-, hone⟩
      omega
    rw [div_eq_divisionByZero hy, and_iff_left hy, or_iff_left fun h => hfit h.2, Except.error.injEq,
      eq_comm]
  · by_cases hover : t.Overflows (t.read x) (t.read y)
    · rw [div_eq_integerOverflow hover]
      simp [hy, hover, eq_comm]
    · obtain ⟨q, hdiv, -⟩ := div_eq_ok hy hover
      rw [hdiv]
      simp [hy, hover]

/-- **When the remainder traps.** -/
theorem rem_eq_error_iff {e : Trap} : t.rem x y = .error e ↔ e = .divisionByZero ∧ t.read y = 0 := by
  by_cases hy : t.read y = 0
  · rw [rem_eq_divisionByZero hy]
    simp [hy, eq_comm]
  · obtain ⟨r, hrem, -⟩ := rem_eq_ok (x := x) hy
    rw [hrem]
    simp [hy]

/-- The remainder by -1 is 0, also where the quotient does not fit. -/
theorem rem_neg_one (hy : t.read y = -1) : t.rem x y = .ok 0 := by
  obtain ⟨r, hrem, hr⟩ := rem_eq_ok (x := x) (y := y) (by omega)
  rw [hy, Int.tmod_neg, Int.tmod_one] at hr
  rw [hrem, read_eq_zero_iff.mp hr]

/-- **Quotient and remainder belong together.** -/
theorem roundedQuotient {q r : BitVec t.bits} (hdiv : t.div x y = .ok q) (hrem : t.rem x y = .ok r) :
    RoundedQuotient (t.read x) (t.read y) (t.read q) (t.read r) := by
  have hy : t.read y ≠ 0 := fun hy => by
    rw [rem_eq_divisionByZero hy] at hrem
    cases hrem
  have hfit : ¬ t.Overflows (t.read x) (t.read y) := fun hover => by
    rw [div_eq_integerOverflow hover] at hdiv
    cases hdiv
  obtain ⟨q', hdiv', hq⟩ := div_eq_ok hy hfit
  obtain ⟨r', hrem', hr⟩ := rem_eq_ok (x := x) hy
  obtain rfl := Except.ok.inj (hdiv.symm.trans hdiv')
  obtain rfl := Except.ok.inj (hrem.symm.trans hrem')
  rw [hq, hr]
  exact roundedQuotient_tdiv _ hy

end Operations

/-- **Division and remainder obey the division law**: the quotient is rounded toward zero, and the
remainder has the sign of the dividend. Without such a result they trap. -/
theorem div_rem_law (t : IntType) (x y : BitVec t.bits) :
    (∀ e, t.div x y = .error e ↔ e = .divisionByZero ∧ t.read y = 0 ∨
      e = .integerOverflow ∧ t.read x = t.minValue ∧ t.read y = -1) ∧
    (∀ e, t.rem x y = .error e ↔ e = .divisionByZero ∧ t.read y = 0) ∧
    (t.read x = t.minValue → t.read y = -1 → t.rem x y = .ok 0) ∧
    ∀ q r, t.div x y = .ok q → t.rem x y = .ok r →
      RoundedQuotient (t.read x) (t.read y) (t.read q) (t.read r) ∧
        t.Has (t.read q) ∧ t.Has (t.read r) := by
  refine ⟨fun e => div_eq_error_iff, fun e => rem_eq_error_iff, fun _ hy => rem_neg_one hy,
    fun q r hdiv hrem => ⟨roundedQuotient hdiv hrem, t.has_read q, t.has_read r⟩⟩

end IntType

end WasmSandbox
