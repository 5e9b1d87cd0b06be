import Mathlib.Algebra.BigOperators.Group.Finset.Basic
import Mathlib.Data.Finset.Card
import WasmSandbox.Proofs.Word.Fields
import WasmSandbox.Word.BitCount

/-!
# Portable bit counts

* `setBits`, `IsLowest`, `IsHighest`: the set bits of a word, the lowest one and the highest one.
* `Fields.bitList`: a word consists of its bits.
* `Swar.Arithmetic.Exact`: arithmetic on which sums and differences are what they should be if they stay in
  the word. On any such arithmetic `Swar.popcnt_eq`, `Swar.ctz_eq` and `Swar.clz_eq` hold.
* `Swar.Exchanges`, `Swar.partner`: masks that exchange bits, and the place that a bit comes from.
  `Swar.reverse_eq`: the exchanges reverse the word.
* **`Swar.portable_counts`**: the portable routines are correct, and nothing in them leaves the word.
-/

namespace WasmSandbox.Word

open Nat (ofDigits)

variable {w : Nat} {x y : BitVec w}

/-! ## Set bits -/

def setBits (x : BitVec w) : Finset Nat := (Finset.range w).filter fun i => x.getLsbD i

/-- The bits of a word as fields. -/
def bitList (x : BitVec w) : List Nat := (List.range w).map fun i => (x.getLsbD i).toNat

theorem ofDigits_bits (x n : Nat) :
    ofDigits 2 ((List.range n).map fun i => (x.testBit i).toNat) = x % 2 ^ n := by
  induction n with
  | zero => rw [Nat.pow_zero, Nat.mod_one]; rfl
  | succ n ih =>
    rw [List.range_succ, List.map_append, Nat.ofDigits_append, ih, List.length_map, List.length_range,
      List.map_singleton, Nat.ofDigits_singleton, Nat.mod_pow_succ, Nat.toNat_testBit]

theorem ofDigits_bitList (x : BitVec w) : ofDigits 2 (bitList x) = x.toNat :=
  (ofDigits_bits x.toNat w).trans (Nat.mod_eq_of_lt x.isLt)

theorem sum_bitList (x : BitVec w) : (bitList x).sum = (setBits x).card := by
  rw [setBits, Finset.card_filter, bitList, ← List.sum_toFinset _ List.nodup_range, List.toFinset_range]
  exact Finset.sum_congr rfl fun i _ => by cases x.getLsbD i <;> rfl

theorem card_setBits_le (x : BitVec w) : (setBits x).card ≤ w :=
  (Finset.card_filter_le _ _).trans_eq (Finset.card_range w)

theorem toNat_cpop (x : BitVec w) : x.cpop.toNat = (setBits x).card := by
  have hsum : ∀ n, x.cpopNatRec n 0 = ((List.range n).map fun i => (x.getLsbD i).toNat).sum := by
    intro n
    induction n with
    | zero => rfl
    | succ n ih =>
      rw [BitVec.cpopNatRec_succ, BitVec.cpopNatRec_eq, ih, List.range_succ, List.map_append, List.sum_append,
        Nat.zero_add, List.map_singleton, List.sum_singleton]
  rw [BitVec.toNat_cpop, hsum, ← sum_bitList, bitList]

theorem Fields.bitList (x : BitVec w) : Fields 1 1 x (bitList x) where
  toNat_eq := (ofDigits_bitList x).symm
  le d hd := by
    obtain ⟨i, -, rfl⟩ := List.mem_map.mp hd
    exact Bool.toNat_le _
  width := by rw [Word.bitList, List.length_map, List.length_range, Nat.one_mul]

/-! ## The lowest and the highest bit -/

/-- The bit is set, and no bit below it. -/
def IsLowest (x : BitVec w) (i : Nat) : Prop := x.getLsbD i = true ∧ ∀ j < i, x.getLsbD j = false

/-- The bit is set, and no bit above it. -/
def IsHighest (x : BitVec w) (i : Nat) : Prop := x.getLsbD i = true ∧ ∀ j, i < j → x.getLsbD j = false

theorem isLowest_ctz (hx : x ≠ 0) : IsLowest x x.ctz.toNat :=
  ⟨BitVec.getLsbD_true_ctz_of_ne_zero hx, fun _ => BitVec.getLsbD_false_of_lt_ctz⟩

theorem getLsbD_reverse (x : BitVec w) {i : Nat} (hi : i < w) :
    x.reverse.getLsbD i = x.getLsbD (w - 1 - i) := by
  rw [BitVec.getLsbD_reverse, BitVec.getMsbD_eq_getLsbD, decide_eq_true hi, Bool.true_and]

theorem IsLowest.of_reverse {i : Nat} (h : IsLowest x.reverse i) : IsHighest x (w - 1 - i) := by
  have hi := BitVec.lt_of_getLsbD h.1
  refine ⟨(getLsbD_reverse x hi).symm.trans h.1, fun j hj => ?_⟩
  rcases Nat.lt_or_ge j w with hlt | hge
  · have hbelow := h.2 (w - 1 - j) (by omega)
    rwa [getLsbD_reverse x (by omega), Nat.sub_sub_self (by omega)] at hbelow
  · exact BitVec.getLsbD_of_ge x j hge

theorem isHighest_clz (hx : x ≠ 0) : IsHighest x (w - 1 - x.clz.toNat) := by
  rw [BitVec.clz_eq_reverse_ctz]
  exact (isLowest_ctz (mt BitVec.reverse_eq_zero_iff.mp hx)).of_reverse

theorem ctz_zero : (0 : BitVec w).ctz = BitVec.ofNat w w := by
  rw [BitVec.ctz_eq_reverse_clz]
  exact BitVec.clz_eq_iff_eq_zero.mpr (BitVec.reverse_eq_zero_iff.mpr rfl)

theorem IsLowest.and_neg_eq {i : Nat} (h : IsLowest x i) : x &&& -x = BitVec.twoPow w i := by
  obtain ⟨hset, hbelow⟩ := h
  have hi := BitVec.lt_of_getLsbD hset
  refine BitVec.eq_of_getLsbD_eq fun j hj => ?_
  rw [BitVec.getLsbD_and, BitVec.getLsbD_neg, BitVec.getLsbD_twoPow, decide_eq_true hj, decide_eq_true hi,
    Bool.true_and, Bool.true_and]
  rcases Nat.lt_trichotomy i j with hlt | rfl | hgt
  · have hcarry : ∃ k < j, x.getLsbD k = true := ⟨i, hlt, hset⟩
    rw [decide_eq_true hcarry, decide_eq_false hlt.ne, Bool.xor_true, Bool.and_not_self]
  · have hcarry : ¬ ∃ k < i, x.getLsbD k = true := by
      rintro ⟨k, hk, hset'⟩
      exact absurd (hset'.symm.trans (hbelow k hk)) nofun
    rw [decide_eq_false hcarry, hset, decide_eq_true rfl]
    rfl
  · rw [hbelow j hgt, Bool.false_and, decide_eq_false hgt.ne']

theorem toNat_twoPow_sub_one {i : Nat} (hi : i < w) :
    (1 : BitVec w).toNat ≤ (BitVec.twoPow w i).toNat ∧ (BitVec.twoPow w i - 1).toNat = 2 ^ i - 1 := by
  have hone : (1 : BitVec w).toNat = 1 := Nat.mod_eq_of_lt (Nat.one_lt_two_pow (by omega))
  have hle : (1 : BitVec w).toNat ≤ (BitVec.twoPow w i).toNat := by
    rw [hone, BitVec.toNat_twoPow_of_lt hi]
    exact Nat.one_le_two_pow
  refine ⟨hle, ?_⟩
  rw [BitVec.toNat_sub_of_le hle, hone, BitVec.toNat_twoPow_of_lt hi]

theorem cpop_twoPow_sub_one {i : Nat} (hi : i < w) : (BitVec.twoPow w i - 1).cpop.toNat = i := by
  have hbits : setBits (BitVec.twoPow w i - 1) = Finset.range i := by
    ext j
    rw [setBits, Finset.mem_filter, Finset.mem_range, Finset.mem_range, BitVec.getLsbD,
      (toNat_twoPow_sub_one hi).2, Nat.testBit_two_pow_sub_one, decide_eq_true_iff]
    exact and_iff_right_of_imp hi.trans'
  rw [toNat_cpop, hbits, Finset.card_range]

namespace Swar

/-! ## Arithmetic -/

/-- Sums and differences that stay in the word are what they should be. -/
structure Arithmetic.Exact {M : Type → Type} [Monad M] (arith : Arithmetic M) : Prop where
  add_eq {w : Nat} {x y : BitVec w} : x.toNat + y.toNat < 2 ^ w → arith.add x y = pure (x + y)
  sub_eq {w : Nat} {x y : BitVec w} : y.toNat ≤ x.toNat → arith.sub x y = pure (x - y)

theorem wrapping_exact : wrapping.Exact := ⟨fun _ => rfl, fun _ => rfl⟩

theorem checked_exact : checked.Exact where
  add_eq h := if_neg (by rw [BitVec.uaddOverflow, decide_eq_true_iff]; omega)
  sub_eq h := if_neg (by rw [BitVec.usubOverflow, decide_eq_true_iff]; omega)

/-! ## Counts -/

section Counts

variable {M : Type → Type} [Monad M] [LawfulMonad M] {arith : Arithmetic M} {s : Size}

theorem masksHalves_pairMask (s : Size) : MasksHalves 1 (s.bits / 2) s.pairMask := by
  cases s <;> exact ⟨by decide, by decide⟩

theorem masksHalves_nibbleMask (s : Size) : MasksHalves 2 (s.bits / 4) s.nibbleMask := by
  cases s <;> exact ⟨by decide, by decide⟩

theorem masksHalves_byteMask (s : Size) : MasksHalves 4 (s.bits / 8) s.byteMask := by
  cases s <;> exact ⟨by decide, by decide⟩

theorem toNat_byteOnes (s : Size) : s.byteOnes.toNat = ofDigits (2 ^ 8) (List.replicate (s.bits / 8) 1) := by
  cases s <;> decide

/-- **Set bits are counted** without leaving the word. -/
theorem popcnt_eq (harith : arith.Exact) (x : BitVec s.bits) : popcnt arith s x = pure x.cpop := by
  obtain ⟨hsub, hpairs⟩ := (Fields.bitList x).sub_halves (masksHalves_pairMask s)
  obtain ⟨hadd, hnibbles⟩ :=
    hpairs.add_halves (by decide) (masksHalves_nibbleMask s) (by decide) (by decide)
  obtain ⟨hadd', hbytes⟩ :=
    hnibbles.add_shift (by decide) (masksHalves_byteMask s) (by decide) (by decide)
  have hsum : (pairSums (pairSums (pairSums (bitList x)))).sum = (setBits x).card := by
    rw [sum_pairSums, sum_pairSums, sum_pairSums, sum_bitList]
  have hfits : (setBits x).card < 2 ^ 8 := (card_setBits_le x).trans_lt (by cases s <;> decide)
  generalize pairSums (pairSums (pairSums (bitList x))) = bytes at hbytes hsum
  have hlength : bytes.length = s.bits / 8 := by
    have hwidth := hbytes.width
    omega
  have hne : bytes ≠ [] := by
    refine List.length_pos_iff.mp ?_
    rw [hlength]
    cases s <;> decide
  rw [popcnt, harith.sub_eq hsub, pure_bind, harith.add_eq hadd, pure_bind, harith.add_eq hadd', pure_bind]
  refine congrArg pure (BitVec.eq_of_toNat_eq ?_)
  rw [toNat_cpop, ← hsum]
  exact hbytes.mul_ones hne (by rw [hlength, toNat_byteOnes]) (hsum ▸ hfits)

theorem ctz_eq (harith : arith.Exact) (x : BitVec s.bits) : ctz arith s x = pure x.ctz := by
  rw [ctz]
  split_ifs with hx
  · rw [hx, ctz_zero]
  · have hlowest := isLowest_ctz hx
    have hlt := BitVec.lt_of_getLsbD hlowest.1
    rw [hlowest.and_neg_eq, harith.sub_eq (toNat_twoPow_sub_one hlt).1, pure_bind, popcnt_eq harith]
    exact congrArg pure (BitVec.eq_of_toNat_eq (cpop_twoPow_sub_one hlt))

end Counts

/-! ## Reversal -/

/-- The bit that an exchange puts at a place. -/
def partner (distance : Nat) (mask : BitVec w) (i : Nat) : Nat :=
  if mask.getLsbD i then i + distance else i - distance

/-- The mask has one of every two bits at the distance, and it is the lower one. -/
def Exchanges (distance : Nat) (mask : BitVec w) : Prop :=
  ∀ i < w, mask.getLsbD i = !(decide (distance ≤ i) && mask.getLsbD (i - distance)) ∧
    partner distance mask i < w

instance (distance : Nat) (mask : BitVec w) : Decidable (Exchanges distance mask) :=
  inferInstanceAs (Decidable (∀ i < w, _))

theorem getLsbD_exchange {distance : Nat} {mask : BitVec w} (h : Exchanges distance mask) (x : BitVec w)
    {i : Nat} (hi : i < w) :
    (exchange distance mask x).getLsbD i = x.getLsbD (partner distance mask i) := by
  obtain ⟨hmask, -⟩ := h i hi
  rw [exchange, BitVec.getLsbD_or, BitVec.getLsbD_and, BitVec.getLsbD_ushiftRight, BitVec.getLsbD_shiftLeft,
    BitVec.getLsbD_and, partner, decide_eq_true hi, Bool.true_and, ← decide_not, Bool.and_left_comm]
  rw [decide_eq_decide.mpr Nat.not_lt, Nat.add_comm]
  -- Of the two bits, one is under the mask.
  cases hlow : mask.getLsbD i with
  | true =>
    have hhigh : (decide (distance ≤ i) && mask.getLsbD (i - distance)) = false := by
      rw [hlow] at hmask
      exact Bool.not_eq_true' _ |>.mp hmask.symm
    rw [hhigh, Bool.and_true, Bool.and_false, Bool.or_false, if_pos rfl]
  | false =>
    have hhigh : (decide (distance ≤ i) && mask.getLsbD (i - distance)) = true := by
      rw [hlow] at hmask
      exact Bool.not_eq_false' _ |>.mp hmask.symm
    rw [hhigh, Bool.and_true, Bool.and_false, Bool.false_or, if_neg Bool.false_ne_true]

theorem getLsbD_foldl_exchange {masks : List (Nat × BitVec w)} (h : ∀ p ∈ masks, Exchanges p.1 p.2)
    (x : BitVec w) {i : Nat} (hi : i < w) :
    masks.foldr (fun p i => partner p.1 p.2 i) i < w ∧
      (masks.foldl (fun x p => exchange p.1 p.2 x) x).getLsbD i =
        x.getLsbD (masks.foldr (fun p i => partner p.1 p.2 i) i) := by
  induction masks generalizing x with
  | nil => exact ⟨hi, rfl⟩
  | cons p masks ih =>
    have hp := h p List.mem_cons_self
    obtain ⟨hlt, hbit⟩ := ih (fun q hq => h q (List.mem_cons_of_mem _ hq)) (exchange p.1 p.2 x)
    rw [List.foldl_cons, List.foldr_cons, hbit, getLsbD_exchange hp x hlt]
    exact ⟨(hp _ hlt).2, rfl⟩

theorem getLsbD_swap_halves {n : Nat} (hw : w = 2 * n) (x : BitVec w) {i : Nat} (hi : i < w) :
    ((x >>> n) ||| (x <<< n)).getLsbD i = x.getLsbD (if i < n then i + n else i - n) := by
  rw [BitVec.getLsbD_or, BitVec.getLsbD_ushiftRight, BitVec.getLsbD_shiftLeft, decide_eq_true hi,
    Bool.true_and]
  split_ifs with hlow
  · rw [decide_eq_true hlow, Bool.not_true, Bool.false_and, Bool.or_false, Nat.add_comm]
  · rw [decide_eq_false hlow, Bool.not_false, Bool.true_and, BitVec.getLsbD_of_ge _ _ (by omega),
      Bool.false_or]

theorem exchanges_groupMasks (s : Size) : ∀ p ∈ s.groupMasks, Exchanges p.1 p.2 := by
  cases s <;> decide

theorem foldr_partner (s : Size) : ∀ i < s.bits,
    s.groupMasks.foldr (fun p i => partner p.1 p.2 i)
      (if i < s.bits / 2 then i + s.bits / 2 else i - s.bits / 2) = s.bits - 1 - i := by
  cases s <;> decide

/-- **The exchanges reverse the word.** -/
theorem reverse_eq (s : Size) (x : BitVec s.bits) : reverse s x = x.reverse := by
  have hbits : s.bits = 2 * (s.bits / 2) := by cases s <;> rfl
  refine BitVec.eq_of_getLsbD_eq fun i hi => ?_
  have hswap : (if i < s.bits / 2 then i + s.bits / 2 else i - s.bits / 2) < s.bits := by
    split_ifs <;> omega
  rw [reverse, getLsbD_swap_halves hbits _ hi, (getLsbD_foldl_exchange (exchanges_groupMasks s) x hswap).2,
    foldr_partner s i hi, getLsbD_reverse x hi]

theorem clz_eq {M : Type → Type} [Monad M] [LawfulMonad M] {arith : Arithmetic M} {s : Size}
    (harith : arith.Exact) (x : BitVec s.bits) : clz arith s x = pure x.clz := by
  rw [clz, reverse_eq, ctz_eq harith, BitVec.clz_eq_reverse_ctz]

/-! ## Portable counts -/

/-- **Portable counts are the native counts**, whether arithmetic that leaves the word wraps or stops the
program. The reversed word has the bits at the mirrored places. -/
theorem portable_counts (s : Size) (x : BitVec s.bits) :
    ((popcnt wrapping s x).run = Word.popcnt x ∧ popcnt checked s x = .ok (Word.popcnt x)) ∧
      ((ctz wrapping s x).run = Word.ctz x ∧ ctz checked s x = .ok (Word.ctz x)) ∧
      ((clz wrapping s x).run = Word.clz x ∧ clz checked s x = .ok (Word.clz x)) ∧
      (Word.popcnt x).toNat = (setBits x).card ∧
      (x = 0 → (Word.ctz x).toNat = s.bits ∧ (Word.clz x).toNat = s.bits) ∧
      (x ≠ 0 → IsLowest x (Word.ctz x).toNat ∧
        (Word.clz x).toNat < s.bits ∧ IsHighest x (s.bits - 1 - (Word.clz x).toNat)) ∧
      (∀ i < s.bits, (reverse s x).getLsbD i = x.getLsbD (s.bits - 1 - i)) ∧
      reverse s (reverse s x) = x := by
  have hbits : (BitVec.ofNat s.bits s.bits).toNat = s.bits := Nat.mod_eq_of_lt Nat.lt_two_pow_self
  refine ⟨⟨popcnt_eq wrapping_exact x, popcnt_eq checked_exact x⟩,
    ⟨ctz_eq wrapping_exact x, ctz_eq checked_exact x⟩, ⟨clz_eq wrapping_exact x, clz_eq checked_exact x⟩,
    toNat_cpop x, fun hx => ⟨?_, ?_⟩, fun hx => ⟨isLowest_ctz hx, ?_, isHighest_clz hx⟩, fun i hi => ?_,
    ?_⟩
  · rw [Word.ctz, hx, ctz_zero, hbits]
  · rw [Word.clz, BitVec.clz_eq_iff_eq_zero.mpr hx]
    exact hbits
  · have hlt := BitVec.clz_lt_iff_ne_zero.mpr hx
    rwa [BitVec.lt_def, BitVec.natCast_eq_ofNat, hbits] at hlt
  · rw [reverse_eq, getLsbD_reverse x hi]
  · rw [reverse_eq, reverse_eq, BitVec.reverse_reverse_eq]

end Swar

end WasmSandbox.Word
