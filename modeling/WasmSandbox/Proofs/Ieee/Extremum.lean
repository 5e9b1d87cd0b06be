import WasmSandbox.Ieee.Extremum
import WasmSandbox.Proofs.Ieee.Order

/-!
# Minimum and maximum are the lattice operations of the order

* `Ieee.min_eq_ite`: of two numbers, the minimum is the one with the lesser rank.
* `Ieee.max_eq_neg_min_neg`: the maximum is the minimum under the opposite order.
* `Ieee.Selects`: an operation that gives the canonical NaN for a NaN, and of two numbers the one with a
  certain rank. Its laws are those of the operation on ranks (`Ieee.Selects.comm`, `Ieee.Selects.assoc`).
* `Ieee.selects_min`, `Ieee.selects_max`: both operations are of this kind.
* **`Ieee.extremum_lattice`**: the results by the order, and the laws of both operations.
-/

namespace WasmSandbox.Ieee

variable {fmt : Format} {x y z : Ieee fmt}

/-! ## Numbers -/

section Numbers

variable (hx : x.isNaN = false) (hy : y.isNaN = false)

include hx hy

theorem min_eq_ite : min x y = if x.rank < y.rank then x else y := by
  rw [min, hx, hy, Bool.or_false, if_neg Bool.false_ne_true]
  by_cases hzero : x.isZero = true ∧ y.isZero = true
  · have hxu := units_eq_zero_iff.mpr hzero.1
    have hyu := units_eq_zero_iff.mpr hzero.2
    rw [if_pos (Bool.and_eq_true_iff.mpr hzero)]
    cases hxs : x.sign with
    | false => simp [rank_lt_iff, hxs, hxu, hyu]
    | true =>
      cases hys : y.sign with
      | false => simp [rank_lt_iff, hzero, hxs, hys]
      -- Both are the negative zero.
      | true =>
        have heq : x = y := eq_of_sign_magnitude (hxs.trans hys.symm)
          ((beq_iff_eq.mp hzero.1).trans (beq_iff_eq.mp hzero.2).symm)
        rw [heq, ite_self, ite_self]
  · have hlt : x.lt y = true ↔ x.rank < y.rank := by
      rw [rank_lt_iff, or_iff_left fun h => hzero ⟨h.1, h.2.1⟩, lt, hx, hy]
      simp
    rw [if_neg (mt Bool.and_eq_true_iff.mp hzero)]
    exact if_congr hlt rfl rfl

/-- The maximum is the minimum under the opposite order. -/
theorem max_eq_neg_min_neg : max x y = (min x.neg y.neg).neg := by
  rw [max, min, lt, lt, isNaN_neg, isNaN_neg, hx, hy, isZero_neg, isZero_neg, sign_neg, units_neg,
    units_neg]
  cases x.sign <;> simp [apply_ite neg]

theorem rank_min : (min x y).rank = Min.min x.rank y.rank := by
  rw [min_eq_ite hx hy]
  split_ifs <;> omega

theorem rank_max : (max x y).rank = Max.max x.rank y.rank := by
  rw [max_eq_neg_min_neg hx hy, rank_neg,
    rank_min ((isNaN_neg x).trans hx) ((isNaN_neg y).trans hy), rank_neg, rank_neg]
  omega

theorem min_eq_or : min x y = x ∨ min x y = y := by
  rw [min_eq_ite hx hy]
  exact ite_eq_or_eq ..

theorem max_eq_or : max x y = x ∨ max x y = y := by
  rw [max_eq_neg_min_neg hx hy]
  rcases min_eq_or ((isNaN_neg x).trans hx) ((isNaN_neg y).trans hy) with h | h
  · exact .inl (by rw [h, Ieee.neg_neg])
  · exact .inr (by rw [h, Ieee.neg_neg])

end Numbers

/-! ## Operations that select an operand -/

/-- The operation gives the canonical NaN if an operand is a NaN. Of two numbers it gives the one whose rank
is that of the operation on integers. -/
structure Selects (op : Ieee fmt → Ieee fmt → Ieee fmt) (f : ℤ → ℤ → ℤ) : Prop where
  of_isNaN : ∀ {x y}, x.isNaN = true ∨ y.isNaN = true → op x y = canonicalNaN fmt
  eq_or : ∀ {x y}, x.isNaN = false → y.isNaN = false → op x y = x ∨ op x y = y
  rank_eq : ∀ {x y}, x.isNaN = false → y.isNaN = false → (op x y).rank = f x.rank y.rank

theorem selects_min : Selects (@Ieee.min fmt) Min.min :=
  ⟨fun h => if_pos (Bool.or_eq_true_iff.mpr h), min_eq_or, rank_min⟩

theorem selects_max : Selects (@Ieee.max fmt) Max.max :=
  ⟨fun h => if_pos (Bool.or_eq_true_iff.mpr h), max_eq_or, rank_max⟩

theorem isNaN_canonicalNaN (fmt : Format) : (canonicalNaN fmt).isNaN = true := by cases fmt <;> decide

namespace Selects

variable {op : Ieee fmt → Ieee fmt → Ieee fmt} {f : ℤ → ℤ → ℤ} (h : Selects op f)

include h

theorem isNaN_eq_false (hx : x.isNaN = false) (hy : y.isNaN = false) : (op x y).isNaN = false := by
  rcases h.eq_or hx hy with heq | heq <;> rwa [heq]

theorem isNaN_iff : (op x y).isNaN = true ↔ x.isNaN = true ∨ y.isNaN = true := by
  by_cases hnan : x.isNaN = true ∨ y.isNaN = true
  · rw [h.of_isNaN hnan]
    exact iff_of_true (isNaN_canonicalNaN fmt) hnan
  · obtain ⟨hx, hy⟩ : x.isNaN = false ∧ y.isNaN = false := by simpa using hnan
    rw [h.isNaN_eq_false hx hy]
    exact iff_of_false Bool.false_ne_true hnan

/-- **The canonical NaN is the result exactly if a NaN is an operand.** -/
theorem eq_canonicalNaN_iff :
    op x y = canonicalNaN fmt ↔ x.datum = .nan ∨ y.datum = .nan := by
  rw [datum_eq_nan_iff, datum_eq_nan_iff]
  refine ⟨fun heq => h.isNaN_iff.mp ?_, h.of_isNaN⟩
  rw [heq]
  exact isNaN_canonicalNaN fmt

theorem comm (hf : ∀ a b, f a b = f b a) (x y : Ieee fmt) : op x y = op y x := by
  by_cases hnan : x.isNaN = true ∨ y.isNaN = true
  · rw [h.of_isNaN hnan, h.of_isNaN hnan.symm]
  · obtain ⟨hx, hy⟩ : x.isNaN = false ∧ y.isNaN = false := by simpa using hnan
    apply rank_injective
    rw [h.rank_eq hx hy, h.rank_eq hy hx, hf]

theorem assoc (hf : ∀ a b c, f (f a b) c = f a (f b c)) (x y z : Ieee fmt) :
    op (op x y) z = op x (op y z) := by
  by_cases hnan : (x.isNaN = true ∨ y.isNaN = true) ∨ z.isNaN = true
  · rw [h.of_isNaN (hnan.imp_left h.isNaN_iff.mpr),
      h.of_isNaN ((or_assoc.mp hnan).imp_right h.isNaN_iff.mpr)]
  · obtain ⟨⟨hx, hy⟩, hz⟩ : (x.isNaN = false ∧ y.isNaN = false) ∧ z.isNaN = false := by
      simpa using hnan
    apply rank_injective
    rw [h.rank_eq (h.isNaN_eq_false hx hy) hz, h.rank_eq hx hy,
      h.rank_eq hx (h.isNaN_eq_false hy hz), h.rank_eq hy hz, hf]

end Selects

/-! ## The lattice -/

section Lattice

variable (hx : x.isNaN = false) (hy : y.isNaN = false)

include hx hy

theorem min_atMost : (min x y).AtMost x ∧ (min x y).AtMost y := by
  have hmin := selects_min.isNaN_eq_false hx hy
  rw [atMost_iff_rank hmin hx, atMost_iff_rank hmin hy, rank_min hx hy]
  exact ⟨Int.min_le_left .., Int.min_le_right ..⟩

theorem atMost_max : x.AtMost (max x y) ∧ y.AtMost (max x y) := by
  have hmax := selects_max.isNaN_eq_false hx hy
  rw [atMost_iff_rank hx hmax, atMost_iff_rank hy hmax, rank_max hx hy]
  exact ⟨Int.le_max_left .., Int.le_max_right ..⟩

theorem min_max_absorb : min x (max x y) = x := by
  apply rank_injective
  rw [rank_min hx (selects_max.isNaN_eq_false hx hy), rank_max hx hy]
  exact Int.min_eq_left (Int.le_max_left ..)

theorem max_min_absorb : max x (min x y) = x := by
  apply rank_injective
  rw [rank_max hx (selects_min.isNaN_eq_false hx hy), rank_min hx hy]
  exact Int.max_eq_left (Int.min_le_left ..)

end Lattice

/-- **Minimum and maximum are the lattice operations** of the order of values in which `-0` is below
`+0`, as equations between patterns. A NaN operand gives the canonical NaN. -/
theorem extremum_lattice (a b c : Ieee fmt) :
    IsLinearOrder { x : Ieee fmt // x.datum ≠ .nan } (fun x y => x.1.AtMost y.1) ∧
    (min a b = canonicalNaN fmt ↔ a.datum = .nan ∨ b.datum = .nan) ∧
    (max a b = canonicalNaN fmt ↔ a.datum = .nan ∨ b.datum = .nan) ∧
    min a b = min b a ∧ max a b = max b a ∧
    min (min a b) c = min a (min b c) ∧ max (max a b) c = max a (max b c) ∧
    (a.datum ≠ .nan → b.datum ≠ .nan →
      ((min a b = a ∨ min a b = b) ∧ (min a b).AtMost a ∧ (min a b).AtMost b) ∧
      ((max a b = a ∨ max a b = b) ∧ a.AtMost (max a b) ∧ b.AtMost (max a b)) ∧
      min a a = a ∧ max a a = a ∧ min a (max a b) = a ∧ max a (min a b) = a ∧
      max a b = (min a.neg b.neg).neg) := by
  have hmin : Selects (@Ieee.min fmt) Min.min := selects_min
  have hmax : Selects (@Ieee.max fmt) Max.max := selects_max
  refine ⟨isLinearOrder_atMost fmt, hmin.eq_canonicalNaN_iff, hmax.eq_canonicalNaN_iff,
    hmin.comm Int.min_comm a b, hmax.comm Int.max_comm a b, hmin.assoc Int.min_assoc a b c,
    hmax.assoc Int.max_assoc a b c, fun ha hb => ?_⟩
  have ha : a.isNaN = false := Bool.eq_false_iff.mpr (mt datum_eq_nan_iff.mpr ha)
  have hb : b.isNaN = false := Bool.eq_false_iff.mpr (mt datum_eq_nan_iff.mpr hb)
  have hidem : min a a = a ∧ max a a = a :=
    ⟨(hmin.eq_or ha ha).elim id id, (hmax.eq_or ha ha).elim id id⟩
  exact ⟨⟨hmin.eq_or ha hb, min_atMost ha hb⟩, ⟨hmax.eq_or ha hb, atMost_max ha hb⟩, hidem.1, hidem.2,
    min_max_absorb ha hb, max_min_absorb ha hb, max_eq_neg_min_neg ha hb⟩

end WasmSandbox.Ieee
