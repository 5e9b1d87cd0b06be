import WasmSandbox.Proofs.Ieee.Integral

/-!
# The laws of rounding, bit for bit

* `Ieee.quiet_neg`, `Ieee.quiet_quiet`, `Ieee.isNaN_quiet`: the quiet bit keeps to itself.
* `Ieee.RoundsNumbers`: operations that round all patterns that are no NaN. What they give for a NaN does not
  matter, since NaNs are quieted before them. `Ieee.roundsNumbers_integral`: those of this library do so.
* `Ieee.quieting_neg`, `Ieee.quieting_quieting`, `Ieee.quieting_trunc` and `Ieee.truncate_quieting`: each law of
  rounded patterns, extended to NaNs.
* **`Ieee.rounding_dualities`**: the laws together, for any operations that round numbers.
-/

namespace WasmSandbox.Ieee

variable {fmt : Format} {x : Ieee fmt}

/-! ## Quiet NaNs -/

theorem quiet_neg (x : Ieee fmt) : x.neg.quiet = x.quiet.neg := by
  have hmasks : quietMask fmt &&& signMask fmt = 0 := by cases fmt <;> decide
  ext i hi
  have hbit : ((quietMask fmt)[i] && (signMask fmt)[i]) = false := by
    rw [← BitVec.getElem_and, hmasks]
    simp
  simp only [quiet, neg, BitVec.getElem_or, BitVec.getElem_xor]
  cases hq : (quietMask fmt)[i] with
  | false => simp
  | true =>
    rw [hq, Bool.true_and] at hbit
    simp [hbit]

theorem quiet_quiet (x : Ieee fmt) : x.quiet.quiet = x.quiet := by
  unfold quiet
  rw [BitVec.or_assoc, BitVec.or_self]

theorem isNaN_quiet (hx : x.isNaN = true) : x.quiet.isNaN = true := by
  have hle : x.magnitude ≤ x.quiet.magnitude := by
    rw [magnitude, magnitude, quiet, BitVec.toNat_or, twoPow_eq, Nat.or_mod_two_pow]
    exact Nat.left_le_or
  rw [isNaN, decide_eq_true_iff] at hx ⊢
  omega

/-! ## Operations that round numbers -/

/-- The operations, one for each way to round, round every pattern that is no NaN. -/
def RoundsNumbers (f : Rounding → Ieee fmt → Ieee fmt) : Prop :=
  ∀ r x, x.isNaN = false → RoundsTo r x (f r x)

theorem roundsNumbers_integral (fmt : Format) : RoundsNumbers (integral : Rounding → Ieee fmt → Ieee fmt) :=
  fun r _ hx => roundsTo_integral r hx

section Laws

variable {f : Rounding → Ieee fmt → Ieee fmt} (hf : RoundsNumbers f)

include hf

theorem quieting_neg (r : Rounding) (x : Ieee fmt) :
    quieting (f r.dual) x.neg = (quieting (f r) x).neg := by
  cases hx : x.isNaN with
  | true =>
    rw [quieting_of_isNaN hx, quieting_of_isNaN ((isNaN_neg x).trans hx), quiet_neg]
  | false =>
    have hx' : x.neg.isNaN = false := (isNaN_neg x).trans hx
    rw [quieting_of_number hx, quieting_of_number hx']
    exact (hf r.dual x.neg hx').unique (hf r x hx).neg

theorem quieting_quieting (r : Rounding) (x : Ieee fmt) :
    quieting (f r) (quieting (f r) x) = quieting (f r) x := by
  cases hx : x.isNaN with
  | true => rw [quieting_of_isNaN hx, quieting_of_isNaN (isNaN_quiet hx), quiet_quiet]
  | false =>
    have hround := hf r x hx
    rw [quieting_of_number hx, quieting_of_number hround.isNaN_eq_false]
    exact (hf r _ hround.isNaN_eq_false).unique hround.self

theorem quieting_trunc (x : Ieee fmt) :
    quieting (f .trunc) x = if x.sign then quieting (f .ceil) x else quieting (f .floor) x := by
  cases hx : x.isNaN with
  | true => rw [quieting_of_isNaN hx, quieting_of_isNaN hx, quieting_of_isNaN hx, ite_self]
  | false =>
    rw [quieting_of_number hx, quieting_of_number hx, quieting_of_number hx,
      (hf .trunc x hx).by_sign.unique (hf _ x hx)]
    split_ifs <;> rfl

theorem truncate_quieting (x : Ieee fmt) (t : IntType) :
    (quieting (f .trunc) x).truncate t = x.truncate t := by
  cases hx : x.isNaN with
  | true =>
    rw [quieting_of_isNaN hx, truncate_eq_invalidConversion_iff.mpr hx,
      truncate_eq_invalidConversion_iff.mpr (isNaN_quiet hx)]
  | false =>
    rw [quieting_of_number hx]
    exact (hf .trunc x hx).truncate_eq t

end Laws

/-- **The laws of rounding, bit for bit**, for every way to round numbers that gives the right results.
NaNs are quieted before it is asked. -/
theorem rounding_dualities {f : Rounding → Ieee fmt → Ieee fmt} (hf : RoundsNumbers f) (x : Ieee fmt) :
    quieting (f .ceil) x = (quieting (f .floor) x.neg).neg ∧
    quieting (f .trunc) x = (if x.sign then quieting (f .ceil) x else quieting (f .floor) x) ∧
    quieting (f .nearest) x.neg = (quieting (f .nearest) x).neg ∧
    (∀ r, quieting (f r) (quieting (f r) x) = quieting (f r) x) ∧
    ∀ t, (quieting (f .trunc) x).truncate t = x.truncate t := by
  have hceil : quieting (f .floor) x.neg = (quieting (f .ceil) x).neg := quieting_neg hf .ceil x
  refine ⟨?_, quieting_trunc hf x, quieting_neg hf .nearest x, fun r => quieting_quieting hf r x,
    truncate_quieting hf x⟩
  rw [hceil, Ieee.neg_neg]

/-- `-2147483648.5` lies half-way between two integers, and is converted to the least signed word. A negative
signaling NaN is quieted by every operation. -/
theorem rounding_dualities_below_the_least :
    RoundsNumbers (integral : Rounding → F64 → F64) ∧
    let laws := fun x : F64 => ceil x = (floor x.neg).neg ∧
      trunc x = (if x.sign then ceil x else floor x) ∧ nearest x.neg = (nearest x).neg ∧
      (∀ r, round r (round r x) = round r x) ∧ ∀ t, (trunc x).truncate t = x.truncate t
    let x := F64.ofWord 0xc1e0000000100000
    let nan := F64.ofWord 0xfff0000000000001
    laws x ∧ floor x = F64.ofWord 0xc1e0000000200000 ∧ nearest x = F64.ofWord 0xc1e0000000000000 ∧
    x.truncate .s32 = .ok 0x80000000 ∧
    laws nan ∧ (∀ r, round r nan = F64.ofWord 0xfff8000000000001) ∧
    nearest nan.neg = F64.ofWord 0x7ff8000000000001 ∧ nan.truncate .s32 = .error .invalidConversion := by
  have hround := roundsNumbers_integral .double
  refine ⟨hround, rounding_dualities hround (F64.ofWord 0xc1e0000000100000), by decide +kernel,
    by decide +kernel, by decide +kernel, rounding_dualities hround (F64.ofWord 0xfff0000000000001), ?_,
    by decide +kernel, by decide +kernel⟩
  rintro (_ | _ | _ | _) <;> decide +kernel

end WasmSandbox.Ieee
