import Mathlib.Data.Nat.Digits.Lemmas
import Mathlib.Tactic.Common
import Mathlib.Tactic.Ring

/-!
# Words as rows of fields

A word whose fields have `k` bits each is `Nat.ofDigits (2 ^ k)` of the list of its fields, the least
significant one first.

* `evens`: every other field. A mask with the lower half of each double field picks them out
  (`ofDigits_and_mask`).
* `pairSums`: the sums of the fields in each double field. They add up to the same
  (`sum_pairSums`).
* `neighbourSums`: each field with the next one added.
* `ofDigits_mul_ones`: the product with a row of ones has the sum of all fields as its top field, if the sum
  fits there.
* `Fields`: a word consists of fields, none of which is larger than a bound. **`Fields.sub_halves`**,
  **`Fields.add_halves`** and **`Fields.add_shift`** are three ways to add fields in pairs without leaving the
  word; **`Fields.mul_ones`** adds them all.
-/

namespace WasmSandbox.Word

/-- Every other field, from the first one on. -/
def evens : List Nat → List Nat
  | [] => []
  | [a] => [a]
  | a :: _ :: l => a :: evens l

/-- Each field at an even place with the one after it added. -/
def pairSums : List Nat → List Nat
  | [] => []
  | [a] => [a]
  | a :: b :: l => (a + b) :: pairSums l

/-- Each field with the one after it added. -/
def neighbourSums : List Nat → List Nat
  | [] => []
  | [a] => [a]
  | a :: b :: l => (a + b) :: neighbourSums (b :: l)

open Nat (ofDigits ofDigits_nil ofDigits_cons)

variable {l : List Nat} {c n : Nat}

/-! ## Every other field -/

theorem evens_cons (a : Nat) (l : List Nat) : evens (a :: l) = a :: evens l.tail := by
  cases l <;> rfl

theorem ofDigits_eq_evens (b : Nat) (l : List Nat) :
    ofDigits b l = ofDigits (b * b) (evens l) + b * ofDigits (b * b) (evens l.tail) := by
  induction l using evens.induct with
  | case1 => rfl
  | case2 a => simp [evens]
  | case3 a a' l ih =>
    rw [List.tail_cons, evens_cons a', evens]
    simp only [ofDigits_cons, ih]
    ring

theorem and_add_mul {k x x' y y' : Nat} (hx : x < 2 ^ k) (hy : y < 2 ^ k) :
    (x + 2 ^ k * x') &&& (y + 2 ^ k * y') = (x &&& y) + 2 ^ k * (x' &&& y') := by
  rw [← Nat.mod_add_div ((x + 2 ^ k * x') &&& (y + 2 ^ k * y')) (2 ^ k), Nat.and_mod_two_pow,
    Nat.and_div_two_pow]
  simp only [Nat.add_mul_mod_self_left, Nat.add_mul_div_left _ _ (Nat.two_pow_pos k), Nat.mod_eq_of_lt hx,
    Nat.mod_eq_of_lt hy, Nat.div_eq_of_lt hx, Nat.div_eq_of_lt hy, Nat.zero_add]

/-- **The lower halves of double fields** are picked out by a mask. -/
theorem ofDigits_and_mask {b k : Nat} (hb : b = 2 ^ k) (hl : ∀ d ∈ l, d < b) (hn : l.length ≤ 2 * n) :
    ofDigits b l &&& ofDigits (b * b) (List.replicate n (b - 1)) = ofDigits (b * b) (evens l) := by
  have hpos : 0 < b := hb ▸ Nat.two_pow_pos k
  have hmask : ∀ a a', a < b → (a + b * a') &&& (b - 1) = a := fun a a' ha => by
    rw [hb, Nat.and_two_pow_sub_one_eq_mod, ← hb, Nat.add_mul_mod_self_left, Nat.mod_eq_of_lt ha]
  have hdouble : b * b = 2 ^ (k + k) := by rw [hb, Nat.pow_add]
  have hmaskLt : b - 1 < b * b := by
    have := Nat.le_mul_of_pos_left b hpos
    omega
  induction l using evens.induct generalizing n with
  | case1 => exact Nat.zero_and _
  | case2 a =>
    obtain ⟨n, rfl⟩ : ∃ n', n = n' + 1 := ⟨n - 1, by rw [List.length_singleton] at hn; omega⟩
    have hword : ofDigits b [a] = (a + b * 0) + b * b * 0 := by simp
    have ha : a < b := hl a List.mem_cons_self
    have hfirst : a + b * 0 < b * b := by omega
    rw [hword, List.replicate_succ, ofDigits_cons, evens, Nat.ofDigits_singleton]
    rw [hdouble] at hfirst hmaskLt ⊢
    rw [and_add_mul hfirst hmaskLt, hmask a 0 ha, Nat.zero_and, Nat.mul_zero, Nat.add_zero]
  | case3 a a' l ih =>
    rw [List.length_cons, List.length_cons] at hn
    rw [List.forall_mem_cons, List.forall_mem_cons] at hl
    obtain ⟨ha, ha', hl⟩ := hl
    obtain ⟨n, rfl⟩ : ∃ n', n = n' + 1 := ⟨n - 1, by omega⟩
    have hfirst : a + b * a' < b * b := by
      have := Nat.mul_le_mul_left b (Nat.succ_le_of_lt ha')
      rw [Nat.mul_succ] at this
      omega
    have hrest := ih hl (n := n) (by omega)
    have hword : ofDigits b (a :: a' :: l) = (a + b * a') + b * b * ofDigits b l := by
      simp only [ofDigits_cons]
      ring
    rw [hword, List.replicate_succ, ofDigits_cons, evens, ofDigits_cons, ← hrest]
    rw [hdouble] at hfirst hmaskLt ⊢
    rw [and_add_mul hfirst hmaskLt, hmask a a' ha]

/-! ## Sums in pairs -/

theorem sum_pairSums (l : List Nat) : (pairSums l).sum = l.sum := by
  induction l using pairSums.induct with
  | case1 => rfl
  | case2 a => rfl
  | case3 a b l ih => rw [pairSums, List.sum_cons, ih, List.sum_cons, List.sum_cons, Nat.add_assoc]

theorem length_pairSums (h : l.length = 2 * n) : (pairSums l).length = n := by
  induction l using pairSums.induct generalizing n with
  | case1 => exact Nat.eq_of_mul_eq_mul_left Nat.two_pos h
  | case2 a =>
    rw [List.length_singleton] at h
    omega
  | case3 a b l ih =>
    rw [List.length_cons, List.length_cons] at h
    rw [pairSums, List.length_cons, ih (n := n - 1) (by omega)]
    omega

theorem pairSums_le (h : ∀ d ∈ l, d ≤ c) : ∀ d ∈ pairSums l, d ≤ 2 * c := by
  induction l using pairSums.induct with
  | case1 => exact nofun
  | case2 a =>
    rw [List.forall_mem_singleton] at h
    exact List.forall_mem_singleton.mpr (by omega)
  | case3 a b l ih =>
    rw [List.forall_mem_cons, List.forall_mem_cons] at h
    obtain ⟨ha, hb, hl⟩ := h
    exact List.forall_mem_cons.mpr ⟨by omega, ih hl⟩

theorem ofDigits_pairSums (b : Nat) (l : List Nat) :
    ofDigits b (evens l) + ofDigits b (evens l.tail) = ofDigits b (pairSums l) := by
  induction l using pairSums.induct with
  | case1 => rfl
  | case2 a => rfl
  | case3 a a' l ih =>
    rw [List.tail_cons, evens_cons a', evens, pairSums]
    simp only [ofDigits_cons, ← ih]
    ring

/-! ## Sums of neighbours -/

theorem evens_neighbourSums (l : List Nat) : evens (neighbourSums l) = pairSums l := by
  induction l using pairSums.induct with
  | case1 => rfl
  | case2 a => rfl
  | case3 a b l ih =>
    rw [neighbourSums, pairSums, evens_cons, ← ih]
    cases l <;> rfl

theorem neighbourSums_le (h : ∀ d ∈ l, d ≤ c) : ∀ d ∈ neighbourSums l, d ≤ 2 * c := by
  induction l using neighbourSums.induct with
  | case1 => exact nofun
  | case2 a =>
    rw [List.forall_mem_singleton] at h
    exact List.forall_mem_singleton.mpr (by omega)
  | case3 a b l ih =>
    rw [List.forall_mem_cons] at h
    obtain ⟨ha, hl⟩ := h
    have hb := hl b List.mem_cons_self
    exact List.forall_mem_cons.mpr ⟨by omega, ih hl⟩

theorem length_neighbourSums (l : List Nat) : (neighbourSums l).length = l.length := by
  induction l using neighbourSums.induct with
  | case1 => rfl
  | case2 a => rfl
  | case3 a b l ih => simp only [neighbourSums, List.length_cons, ih]

theorem ofDigits_neighbourSums (b : Nat) (l : List Nat) :
    ofDigits b l + ofDigits b l.tail = ofDigits b (neighbourSums l) := by
  induction l using neighbourSums.induct with
  | case1 => rfl
  | case2 a => rfl
  | case3 a a' l ih =>
    simp only [neighbourSums, List.tail_cons, ofDigits_cons, ← ih]
    ring

/-! ## The sum of all fields -/

/-- **The product with a row of ones** has the sum of all fields in its top field. -/
theorem ofDigits_mul_ones {b : Nat} (hl : c + l.sum < b) :
    (c + b * ofDigits b l) * ofDigits b (List.replicate (l.length + 1) 1) / b ^ l.length % b = c + l.sum := by
  have hpos : 0 < b := by omega
  induction l generalizing c with
  | nil =>
    rw [List.sum_nil, Nat.add_zero] at hl ⊢
    simpa using Nat.mod_eq_of_lt hl
  | cons d l ih =>
    rw [List.sum_cons, ← Nat.add_assoc] at hl ⊢
    have hc : c < b := by omega
    set ones := ofDigits b (List.replicate (l.length + 1) 1) with hones
    have hfirst : ofDigits b (List.replicate (l.length + 2) 1) = 1 + b * ones := by
      rw [List.replicate_succ, ofDigits_cons]
    have hlast : ofDigits b (List.replicate (l.length + 2) 1) = ones + b ^ (l.length + 1) := by
      rw [List.replicate_succ', Nat.ofDigits_append, List.length_replicate, Nat.ofDigits_singleton,
        Nat.mul_one]
    -- The lowest digit of one factor meets the ones from below, its other digits meet them from above.
    have hprod : ∀ x, (c + b * x) * ofDigits b (List.replicate (l.length + 2) 1) =
        c + b * ((c + x) * ones) + b ^ (l.length + 1) * (b * x) := fun x => by
      calc (c + b * x) * ofDigits b (List.replicate (l.length + 2) 1)
          = c * (1 + b * ones) + b * x * (ones + b ^ (l.length + 1)) := by
            rw [← hfirst, ← hlast, Nat.add_mul]
        _ = _ := by ring
    rw [List.length_cons, hprod, Nat.add_mul_div_left _ _ (Nat.pow_pos hpos), Nat.add_mul_mod_self_left,
      Nat.pow_succ', ← Nat.div_div_eq_div_mul, Nat.add_mul_div_left _ _ hpos, Nat.div_eq_of_lt hc,
      Nat.zero_add, ofDigits_cons, ← Nat.add_assoc, ih hl]

/-! ## Words as rows of fields -/

variable {w k : Nat} {x y mask ones : BitVec w}

/-- The word consists of the fields `l` of `k` bits, which are at most `c`. -/
structure Fields (k c : Nat) (x : BitVec w) (l : List Nat) : Prop where
  toNat_eq : x.toNat = ofDigits (2 ^ k) l
  le : ∀ d ∈ l, d ≤ c
  width : k * l.length = w

/-- The lower half of each double field is masked. -/
def MasksHalves (k n : Nat) (mask : BitVec w) : Prop :=
  2 * k * n = w ∧ mask.toNat = ofDigits (2 ^ k * 2 ^ k) (List.replicate n (2 ^ k - 1))

namespace Fields

theorem add (hk : 0 < k) (hsum : x.toNat + y.toNat = ofDigits (2 ^ k) l) (hle : ∀ d ∈ l, d ≤ c)
    (hc : c < 2 ^ k) (hwidth : k * l.length = w) :
    x.toNat + y.toNat < 2 ^ w ∧ Fields k c (x + y) l := by
  have hlt : x.toNat + y.toNat < 2 ^ w := by
    rw [hsum, ← hwidth, Nat.pow_mul]
    exact Nat.ofDigits_lt_base_pow_length (Nat.one_lt_two_pow hk.ne') fun d hd => (hle d hd).trans_lt hc
  refine ⟨hlt, ?_, hle, hwidth⟩
  rw [BitVec.toNat_add_of_lt hlt, hsum]

section Halves

variable (h : Fields k c x l)
include h

theorem toNat_shift (hc : c < 2 ^ k) : (x >>> k).toNat = ofDigits (2 ^ k) l.tail := by
  rw [BitVec.toNat_ushiftRight, Nat.shiftRight_eq_div_pow, h.toNat_eq]
  exact Nat.ofDigits_div_eq_ofDigits_tail (Nat.two_pow_pos k) l fun d hd => (h.le d hd).trans_lt hc

variable (hk : 0 < k) (hmask : MasksHalves k n mask)
include hk hmask

theorem length_eq : l.length = 2 * n := by
  have hwidth := h.width
  rw [← hmask.1, Nat.mul_comm 2 k, Nat.mul_assoc] at hwidth
  exact Nat.eq_of_mul_eq_mul_left hk hwidth

theorem width_pairSums : 2 * k * (pairSums l).length = w := by
  rw [length_pairSums (h.length_eq hk hmask), hmask.1]

variable (hc : c < 2 ^ k)
include hc

theorem toNat_and : (x &&& mask).toNat = ofDigits (2 ^ k * 2 ^ k) (evens l) := by
  rw [BitVec.toNat_and, h.toNat_eq, hmask.2]
  exact ofDigits_and_mask rfl (fun d hd => (h.le d hd).trans_lt hc) (h.length_eq hk hmask).le

theorem toNat_shift_and : ((x >>> k) &&& mask).toNat = ofDigits (2 ^ k * 2 ^ k) (evens l.tail) := by
  rw [BitVec.toNat_and, h.toNat_shift hc, hmask.2]
  refine ofDigits_and_mask rfl (fun d hd => (h.le d (List.mem_of_mem_tail hd)).trans_lt hc) ?_
  rw [List.length_tail, h.length_eq hk hmask]
  exact Nat.sub_le _ _

/-- **Fields are added in pairs** from both halves of the double fields. -/
theorem add_halves (hc' : 2 * c < 2 ^ (2 * k)) :
    (x &&& mask).toNat + ((x >>> k) &&& mask).toNat < 2 ^ w ∧
      Fields (2 * k) (2 * c) ((x &&& mask) + ((x >>> k) &&& mask)) (pairSums l) := by
  refine add (by omega) ?_ (pairSums_le h.le) hc' (h.width_pairSums hk hmask)
  rw [h.toNat_and hk hmask hc, h.toNat_shift_and hk hmask hc, ofDigits_pairSums, Nat.two_mul, Nat.pow_add]

/-- **Fields that are small enough** are added to their neighbours before the mask. -/
theorem add_shift (hc' : 2 * c < 2 ^ k) :
    x.toNat + (x >>> k).toNat < 2 ^ w ∧
      Fields (2 * k) (2 * c) ((x + (x >>> k)) &&& mask) (pairSums l) := by
  have hsum : x.toNat + (x >>> k).toNat = ofDigits (2 ^ k) (neighbourSums l) := by
    rw [h.toNat_shift hc, h.toNat_eq, ofDigits_neighbourSums]
  obtain ⟨hlt, hfields⟩ := add hk hsum (neighbourSums_le h.le) hc'
    (by rw [length_neighbourSums, h.width])
  refine ⟨hlt, ?_, pairSums_le h.le, h.width_pairSums hk hmask⟩
  rw [hfields.toNat_and hk hmask hc', evens_neighbourSums, Nat.two_mul, Nat.pow_add]

end Halves

/-- **Bits are added in pairs** by taking the upper one of each pair from the pair. -/
theorem sub_halves (h : Fields 1 1 x l) (hmask : MasksHalves 1 n mask) :
    ((x >>> 1) &&& mask).toNat ≤ x.toNat ∧ Fields 2 2 (x - ((x >>> 1) &&& mask)) (pairSums l) := by
  have hupper := h.toNat_shift_and Nat.one_pos hmask (by decide)
  have hword := h.toNat_eq.trans (ofDigits_eq_evens _ l)
  rw [← hupper] at hword
  have hle : ((x >>> 1) &&& mask).toNat ≤ x.toNat := by omega
  refine ⟨hle, ?_, pairSums_le h.le, h.width_pairSums Nat.one_pos hmask⟩
  rw [BitVec.toNat_sub_of_le hle]
  have hpairs := ofDigits_pairSums (2 ^ 1 * 2 ^ 1) l
  rw [← hupper] at hpairs
  change _ = ofDigits (2 ^ 1 * 2 ^ 1) _
  omega

/-- **The multiplication** adds up all fields in the top one. -/
theorem mul_ones (h : Fields k c x l) (hl : l ≠ [])
    (hones : ones.toNat = ofDigits (2 ^ k) (List.replicate l.length 1)) (hsum : l.sum < 2 ^ k) :
    ((x * ones) >>> (w - k)).toNat = l.sum := by
  obtain ⟨d, l, rfl⟩ := List.exists_cons_of_ne_nil hl
  have hw : w - k = k * l.length := by
    rw [← h.width, List.length_cons, Nat.mul_succ, Nat.add_sub_cancel]
  have hw' : 2 ^ w = (2 ^ k) ^ l.length * 2 ^ k := by
    rw [← h.width, List.length_cons, Nat.pow_mul, Nat.pow_succ]
  rw [BitVec.toNat_ushiftRight, BitVec.toNat_mul, Nat.shiftRight_eq_div_pow, h.toNat_eq, hones, hw, hw',
    Nat.pow_mul, Nat.mod_mul_right_div_self, Nat.ofDigits_cons]
  exact ofDigits_mul_ones hsum

end Fields

end WasmSandbox.Word
