import Mathlib.Data.Int.ModEq
import WasmSandbox.Proofs.Word.BitCount
import WasmSandbox.Word.Rotation

/-!
# Rotations are an action of the integers modulo the width

* `turned`: places of a word, counted around it.
* `Rotated`: each bit of a word is found in another word so many places further up. A word has one rotation by
  a number of places (`Rotated.unique`), and rotations add up (`Rotated.trans`). Numbers that are congruent
  modulo the width are the same rotation (`Rotated.congr`).
* `rotated_rotl`, `rotated_rotr`: the operations rotate by their count, read as a signed number.
* **`rotation_action`**: the laws of the operations, as laws of the integers modulo the width.
-/

namespace WasmSandbox.Word

variable {w : Nat} {x y z : BitVec w} {k l : ℤ} {i : Nat}

/-! ## Places around a word -/

/-- The place that is `k` places above place `i`, where the lowest place follows the highest one. -/
def turned (w : Nat) (k : ℤ) (i : Nat) : Nat := ((i + k) % w).toNat

theorem natCast_turned (hw : 0 < w) : (turned w k i : ℤ) = (i + k) % w :=
  Int.toNat_of_nonneg (Int.emod_nonneg _ (by omega))

theorem turned_lt (hw : 0 < w) : turned w k i < w := by
  have h : (turned w k i : ℤ) < w := by
    rw [natCast_turned hw]
    exact Int.emod_lt_of_pos _ (by omega)
  exact_mod_cast h

theorem turned_turned (hw : 0 < w) : turned w l (turned w k i) = turned w (k + l) i := by
  rw [turned, natCast_turned hw, Int.emod_add_emod, Int.add_assoc, turned]

theorem turned_zero (hi : i < w) : turned w 0 i = i := by
  have h : ((i : ℤ) + 0) % w = i := by
    rw [Int.add_zero]
    exact Int.emod_eq_of_lt (by omega) (by omega)
  rw [turned, h, Int.toNat_natCast]

theorem turned_congr (h : k ≡ l [ZMOD w]) : turned w k i = turned w l i := by
  have hsum : ((i : ℤ) + k) % w = (i + l) % w := h.add_left i
  rw [turned, turned, hsum]

theorem turned_neg_turned (hi : i < w) : turned w (-k) (turned w k i) = i := by
  rw [turned_turned (by omega), Int.add_right_neg, turned_zero hi]

/-! ## Rotated words -/

/-- `y` is `x`, rotated left by `k` places. -/
def Rotated (k : ℤ) (x y : BitVec w) : Prop := ∀ i < w, y.getLsbD (turned w k i) = x.getLsbD i

theorem rotated_zero (x : BitVec w) : Rotated 0 x x := by
  intro i hi
  rw [turned_zero hi]

namespace Rotated

theorem congr (h : Rotated k x y) (hkl : k ≡ l [ZMOD w]) : Rotated l x y := by
  intro i hi
  rw [← turned_congr hkl, h i hi]

/-- Rotations add up. -/
theorem trans (hxy : Rotated k x y) (hyz : Rotated l y z) : Rotated (k + l) x z := by
  intro i hi
  have hw : 0 < w := by omega
  rw [← turned_turned hw, hyz _ (turned_lt hw), hxy i hi]

theorem symm (h : Rotated k x y) : Rotated (-k) y x := by
  intro i hi
  have hback : turned w k (turned w (-k) i) = i := by
    simpa using turned_neg_turned (k := -k) hi
  rw [← h _ (turned_lt (by omega)), hback]

theorem unique (hy : Rotated k x y) (hz : Rotated k x z) : y = z :=
  BitVec.eq_of_getLsbD_eq fun i hi => (hy.symm i hi).symm.trans (hz.symm i hi)

theorem mapsTo_setBits (h : Rotated k x y) : Set.MapsTo (turned w k) (setBits x) (setBits y) := by
  intro i hi
  obtain ⟨hlt, hset⟩ : i < w ∧ x.getLsbD i = true := by simpa [setBits] using hi
  simpa [setBits] using ⟨turned_lt (k := k) (by omega), (h i hlt).trans hset⟩

/-- **A rotated word has as many set bits.** -/
theorem card_setBits_eq (h : Rotated k x y) : (setBits y).card = (setBits x).card := by
  have hlt : ∀ {v : BitVec w} {i : Nat}, i ∈ setBits v → i < w := fun hi =>
    Finset.mem_range.mp (Finset.mem_of_mem_filter _ hi)
  refine (Finset.card_nbij' (turned w k) (turned w (-k)) h.mapsTo_setBits h.symm.mapsTo_setBits ?_ ?_).symm
  · intro i hi
    exact turned_neg_turned (hlt hi)
  · intro i hi
    simpa using turned_neg_turned (k := -k) (hlt hi)

end Rotated

/-! ## Rotations by natural numbers -/

theorem turned_natCast (n i : Nat) : turned w n i = (i + n % w) % w := by
  rw [turned, ← Int.natCast_add, ← Int.natCast_emod, Int.toNat_natCast, Nat.add_mod_mod]

theorem rotated_rotateLeft (x : BitVec w) (n : Nat) : Rotated n x (x.rotateLeft n) := by
  intro i hi
  have hn : n % w < w := Nat.mod_lt _ (by omega)
  rw [turned_natCast, BitVec.getLsbD_rotateLeft, Bool.cond_eq_ite]
  rcases Nat.lt_or_ge (i + n % w) w with hfits | hround
  · rw [Nat.mod_eq_of_lt hfits]
    simp [hfits]
  · rw [Nat.mod_eq_sub_mod hround, Nat.mod_eq_of_lt (by omega)]
    have hlow : i + n % w - w < n % w := by omega
    have hplace : w - n % w + (i + n % w - w) = i := by omega
    simp [hlow, hplace]

theorem rotated_rotateRight (x : BitVec w) (n : Nat) : Rotated (-n) x (x.rotateRight n) := by
  have hback : Rotated n (x.rotateRight n) x := by
    intro i hi
    have hn : n % w < w := Nat.mod_lt _ (by omega)
    rw [turned_natCast, BitVec.getLsbD_rotateRight, Bool.cond_eq_ite]
    rcases Nat.lt_or_ge (i + n % w) w with hfits | hround
    · have hlow : i < w - n % w := by omega
      rw [Nat.mod_eq_of_lt hfits]
      simp [hlow, Nat.add_comm]
    · have hhigh : ¬ i < w - n % w := by omega
      have hplace : i + n % w - w = i - (w - n % w) := by omega
      rw [Nat.mod_eq_sub_mod hround, Nat.mod_eq_of_lt (by omega), hplace]
      simp [hhigh, hi]
  exact hback.symm

/-! ## Counts -/

theorem modEq_of_bmod {w n : Nat} {k : ℤ} (hw : w ∣ 2 ^ n) : k.bmod (2 ^ n) ≡ k [ZMOD w] := by
  refine Int.ModEq.of_dvd (Int.natCast_dvd_natCast.mpr hw) ?_
  unfold Int.ModEq
  rw [Int.bmod_emod]

section Counts

variable {s : Swar.Size}

theorem bits_dvd_two_pow (s : Swar.Size) : s.bits ∣ 2 ^ s.bits := by cases s <;> decide

theorem rotationCount_eq (n : BitVec s.bits) : rotationCount n = n.toNat % s.bits := by
  have hmask : (BitVec.ofNat 32 (s.bits - 1)).toNat = s.bits - 1 := by cases s <;> decide
  rw [rotationCount, BitVec.toNat_and, BitVec.toNat_setWidth, hmask]
  cases s with
  | w32 => exact (Nat.and_two_pow_sub_one_eq_mod _ 5).trans (Nat.mod_mod_of_dvd _ (by decide))
  | w64 => exact (Nat.and_two_pow_sub_one_eq_mod _ 6).trans (Nat.mod_mod_of_dvd _ (by decide))

/-- **A masked count is the count modulo the width**, whichever sign it is read with. -/
theorem rotationCount_modEq (n : BitVec s.bits) : (rotationCount n : ℤ) ≡ n.toInt [ZMOD s.bits] := by
  have hunsigned : (rotationCount n : ℤ) ≡ n.toNat [ZMOD s.bits] := by
    rw [rotationCount_eq, Int.natCast_emod]
    exact Int.mod_modEq _ _
  rw [BitVec.toInt_eq_toNat_bmod]
  exact hunsigned.trans (modEq_of_bmod (bits_dvd_two_pow s)).symm

variable (x a b : BitVec s.bits)

theorem rotated_rotl : Rotated a.toInt x (rotl x a) :=
  (rotated_rotateLeft x _).congr (rotationCount_modEq a)

theorem rotated_rotr : Rotated (-a.toInt) x (rotr x a) :=
  (rotated_rotateRight x _).congr (rotationCount_modEq a).neg

theorem rotl_rotl : rotl (rotl x a) b = rotl x (a + b) := by
  have hsum : (a + b).toInt ≡ a.toInt + b.toInt [ZMOD s.bits] := by
    rw [BitVec.toInt_add]
    exact modEq_of_bmod (bits_dvd_two_pow s)
  exact ((rotated_rotl x a).trans (rotated_rotl _ b)).unique ((rotated_rotl x (a + b)).congr hsum)

theorem rotr_eq_rotl : rotr x a = rotl x (0 - a) := by
  have hneg : (0 - a).toInt ≡ -a.toInt [ZMOD s.bits] := by
    rw [BitVec.toInt_sub]
    simpa using modEq_of_bmod (k := 0 - a.toInt) (bits_dvd_two_pow s)
  exact (rotated_rotr x a).unique ((rotated_rotl x (0 - a)).congr hneg)

theorem rotl_zero : rotl x 0 = x := by
  have h := rotated_rotl x 0
  rw [show BitVec.toInt (0 : BitVec s.bits) = 0 by simp] at h
  exact h.unique (rotated_zero x)

theorem rotr_rotl : rotr (rotl x a) a = x := by
  have h := (rotated_rotl x a).trans (rotated_rotr _ a)
  rw [Int.add_right_neg] at h
  exact h.unique (rotated_zero x)

theorem popcnt_rotl : popcnt (rotl x a) = popcnt x := by
  apply BitVec.eq_of_toNat_eq
  rw [popcnt, popcnt, toNat_cpop, toNat_cpop, (rotated_rotl x a).card_setBits_eq]

end Counts

/-- **Rotations are an action of the integers modulo the width**: counts that wrap around add up.
Rotating right undoes it, and the set bits stay as many. -/
theorem rotation_action (s : Swar.Size) (x a b : BitVec s.bits) :
    (∀ i : Fin s.bits, (rotl x a).getLsbD (((i : ℤ) + a.toInt) % s.bits).toNat = x.getLsbD i) ∧
    rotl x 0 = x ∧ rotl (rotl x a) b = rotl x (a + b) ∧
    rotr x a = rotl x (0 - a) ∧ rotr (rotl x a) a = x ∧
    popcnt (rotl x a) = popcnt x ∧
    (Swar.popcnt Swar.wrapping s (rotl x a)).run = (Swar.popcnt Swar.wrapping s x).run ∧
    ∃ n, Swar.popcnt Swar.checked s x = .ok n ∧ Swar.popcnt Swar.checked s (rotl x a) = .ok n := by
  have hcount : (rotl x a).cpop = x.cpop := popcnt_rotl x a
  refine ⟨fun i => rotated_rotl x a i i.isLt, rotl_zero x, rotl_rotl x a b, rotr_eq_rotl x a,
    rotr_rotl x a, popcnt_rotl x a, ?_, x.cpop, ?_, ?_⟩
  · rw [Swar.popcnt_eq Swar.wrapping_exact, Swar.popcnt_eq Swar.wrapping_exact, hcount]
  · exact Swar.popcnt_eq Swar.checked_exact x
  · rw [Swar.popcnt_eq Swar.checked_exact, hcount]
    rfl

end WasmSandbox.Word
