import Mathlib.Algebra.Order.BigOperators.Group.Finset
import Mathlib.Algebra.Order.Ring.Abs
import Mathlib.Algebra.Order.Ring.Int
import Mathlib.Tactic.Common
import WasmSandbox.Guest.Histogram
import WasmSandbox.Proofs.Memory.Tested

/-!
# What the histogram counts

The loop reads bytes and rewrites counters in the same memory. As long as it reads below the counters, it
counts what the memory held when it began.

* `Histogram.counter`, `Histogram.occurrences`: the counter of a byte value, and how often the value occurs
  among the first bytes.
* `Histogram.Added`: some numbers have been added to the counters, and the rest is as before.
  `Histogram.tally`, `Histogram.added_tally`: what one turn of the loop does to the contents.
* `Histogram.countByte_eq_ok`, `Histogram.count_eq_ok`, `Histogram.count_eq_error`: a turn of the loop, and
  the whole loop, below the counters and beyond the end of the memory.
* `Histogram.weight`, `Histogram.weigh_apply`, `Histogram.toInt_weight`: the weighing pass, whose sum fits
  its word.
* `Histogram.Cleared`: what a reset leaves.
* **`Histogram.countAndWeigh_tested`**: what calls do on every path that tests accesses.
-/

namespace WasmSandbox.Guest

namespace Histogram

open LinearMemory (View)

/-! ## Counters of contents -/

/-- The counter of byte value `v`. -/
def counter (bs : Contents) (v : Nat) : BitVec 16 := bs.wordAt .w16 (256 + 2 * v)

/-- How many of the first `n` bytes are `v`. -/
def occurrences (bs : Contents) (n v : Nat) : Nat :=
  (List.range n).countP fun i => bs[i]? = some (BitVec.ofNat 8 v)

/-- `c v` has been added to the counter of each byte value `v`, and no other byte has changed. -/
structure Added (c : Nat → Nat) (bs bs' : Contents) : Prop where
  size_eq : bs'.size = bs.size
  counter_eq : ∀ v < 256, counter bs' v = counter bs v + BitVec.ofNat 16 (c v)
  outside : ∀ x, x < 256 ∨ 768 ≤ x → bs'[x]? = bs[x]?

/-- The counters that are weighed are zero, and no other byte has changed. -/
structure Cleared (bs bs' : Contents) : Prop where
  size_eq : bs'.size = bs.size
  counter_eq : ∀ v < 16, counter bs' v = 0
  outside : ∀ x, x < 256 ∨ 288 ≤ x → bs'[x]? = bs[x]?

variable {bs bs' bs'' : Contents} {c c' : Nat → Nat} {v i n : Nat}

theorem occurrences_succ (bs : Contents) (n v : Nat) :
    occurrences bs (n + 1) v =
      occurrences bs n v + if bs[n]? = some (BitVec.ofNat 8 v) then 1 else 0 := by
  rw [occurrences, List.range_succ, List.countP_append, List.countP_singleton, occurrences]
  simp only [decide_eq_true_eq]

theorem counter_of_const {b : Byte} (h : ∀ j < 2, bs[256 + 2 * v + j]? = some b) :
    counter bs v = Width.w16.ofBytes [b, b] :=
  have hbytes : ∀ j < Width.w16.bytes, bs[256 + 2 * v + j]? = some ((fun _ => b) j) := h
  Contents.wordAt_eq_ofBytes hbytes

namespace Added

theorem refl (bs : Contents) : Added (fun _ => 0) bs bs :=
  ⟨rfl, fun _ _ => (BitVec.add_zero _).symm, fun _ _ => rfl⟩

theorem trans (h : Added c bs bs') (h' : Added c' bs' bs'') : Added (fun v => c v + c' v) bs bs'' where
  size_eq := h'.size_eq.trans h.size_eq
  counter_eq v hv := by
    rw [h'.counter_eq v hv, h.counter_eq v hv, BitVec.add_assoc, BitVec.ofNat_add]
  outside x hx := (h'.outside x hx).trans (h.outside x hx)

theorem congr (h : Added c bs bs') (hc : ∀ v < 256, c v = c' v) : Added c' bs bs' :=
  ⟨h.size_eq, fun v hv => hc v hv ▸ h.counter_eq v hv, h.outside⟩

theorem occurrences_eq (h : Added c bs bs') (hn : n ≤ 256) (v : Nat) :
    occurrences bs' n v = occurrences bs n v := by
  refine List.countP_congr fun i hi => ?_
  have hi := List.mem_range.mp hi
  rw [h.outside i (.inl (by omega))]

end Added

/-! ## One turn -/

/-- The contents after the byte at `i` has been counted. -/
def tally (bs : Contents) (i : Nat) : Contents :=
  let v := (bs.wordAt .w8 i).toNat
  Patch.write ⟨256 + 2 * v, Width.w16.toBytes (counter bs v + 1)⟩ bs

theorem size_tally (bs : Contents) (i : Nat) : (tally bs i).size = bs.size := Patch.size_write ..

/-- **A turn adds one to the counter of the byte that it reads.** -/
theorem added_tally (hsize : 768 ≤ bs.size) (hi : i < bs.size) :
    Added (fun v => if bs[i]? = some (BitVec.ofNat 8 v) then 1 else 0) bs (tally bs i) := by
  obtain ⟨b, hb⟩ : ∃ b, bs[i]? = some b := ⟨_, Array.getElem?_eq_getElem hi⟩
  have hread : bs.wordAt .w8 i = b := Contents.wordAt_w8 hb
  have hlt := b.isLt
  have hbytes : Width.w16.bytes = 2 := rfl
  refine ⟨size_tally bs i, fun v hv => ?_, fun x hx => ?_⟩
  · rw [tally, hread, hb]
    by_cases hvb : v = b.toNat
    · subst hvb
      rw [BitVec.ofNat_toNat, BitVec.setWidth_eq, if_pos rfl, counter]
      exact Contents.wordAt_write .w16 _ (by omega)
    · have hne : ¬ some b = some (BitVec.ofNat 8 v) := fun h => hvb <| by
        rw [Option.some.inj h, BitVec.toNat_ofNat, Nat.mod_eq_of_lt hv]
      -- Counters of two values do not overlap.
      rw [if_neg hne, BitVec.ofNat_eq_ofNat, BitVec.add_zero]
      refine Contents.wordAt_congr fun y hy hy' => ?_
      exact Contents.getElem?_write_of_outside .w16 _ (by omega)
  · rw [tally, hread]
    exact Contents.getElem?_write_of_outside .w16 _ (by omega)

theorem Added.tally_occurrences (h : Added (occurrences bs i) bs bs') (hsize : 768 ≤ bs.size)
    (hi : i < 256) : Added (occurrences bs (i + 1)) bs (tally bs' i) := by
  have hsize' : 768 ≤ bs'.size := h.size_eq ▸ hsize
  have hturn := added_tally hsize' (i := i) (by omega)
  refine (h.trans hturn).congr fun v _ => ?_
  rw [occurrences_succ, h.outside i (.inl hi)]

theorem cleared_fill (hsize : 768 ≤ bs.size) : Cleared bs ((Patch.fill 256 32 0).write bs) := by
  have hfill : ∀ x, ((Patch.fill 256 32 0).write bs)[x]? =
      if 256 ≤ x ∧ x < 288 ∧ x < bs.size then (List.replicate 32 (0 : Byte))[x - 256]? else bs[x]? :=
    Patch.getElem?_write _ _
  refine ⟨Patch.size_write .., fun v hv => ?_, fun x hx => ?_⟩
  · have hbyte : ∀ j < 2, ((Patch.fill 256 32 0).write bs)[256 + 2 * v + j]? = some 0 := fun j hj => by
      rw [hfill, if_pos (by omega), List.getElem?_replicate, if_pos (by omega)]
    exact counter_of_const hbyte
  · rw [hfill, if_neg (by omega)]

/-! ## The weighted sum -/

/-- The counters of the first `n` byte values, as signed numbers, each multiplied by its value. -/
def weight (bs : Contents) (n : Nat) : Int := ∑ v ∈ Finset.range n, (v : Int) * (counter bs v).toInt

theorem weight_succ (bs : Contents) {b : I32} (hb : b.toInt = n) :
    BitVec.ofInt 64 (weight bs (n + 1)) =
      BitVec.ofInt 64 (weight bs n) + (counter bs n).signExtend 64 * b.signExtend 64 := by
  rw [weight, Finset.sum_range_succ, ← weight, BitVec.ofInt_add, BitVec.ofInt_mul, BitVec.mul_comm, ← hb]
  rfl

theorem abs_weight_le (bs : Contents) (hn : n ≤ 256) : |weight bs n| ≤ n * (256 * 2 ^ 15) := by
  have hterm : ∀ v ∈ Finset.range n, |(v : Int) * (counter bs v).toInt| ≤ 256 * 2 ^ 15 := by
    intro v hv
    have hv := Finset.mem_range.mp hv
    have hlow := BitVec.le_toInt (counter bs v)
    have hhigh := BitVec.toInt_lt (x := counter bs v)
    rw [abs_mul]
    refine mul_le_mul ?_ ?_ (abs_nonneg _) (by decide)
    · rw [Nat.abs_cast]
      omega
    · exact abs_le.mpr ⟨hlow, Int.le_of_lt hhigh⟩
  calc |weight bs n| ≤ ∑ v ∈ Finset.range n, |(v : Int) * (counter bs v).toInt| :=
        Finset.abs_sum_le_sum_abs _ _
    _ ≤ (Finset.range n).card • (256 * 2 ^ 15) := Finset.sum_le_card_nsmul _ _ _ hterm
    _ = n * (256 * 2 ^ 15) := by rw [Finset.card_range, nsmul_eq_mul]

theorem toInt_weight (bs : Contents) (hn : n ≤ 256) :
    (BitVec.ofInt 64 (weight bs n)).toInt = weight bs n := by
  have hbounds := abs_le.mp (abs_weight_le bs hn)
  rw [BitVec.toInt_ofInt]
  exact Int.bmod_eq_of_le (by omega) (by omega)

/-! ## The loops -/

theorem toNat_countAddress {value : I32} (h : value.toNat < 256) :
    (countAddress value).toNat = 256 + 2 * value.toNat := by
  rw [countAddress, I32.toNat_address, BitVec.toNat_add, BitVec.toNat_mul]
  change (256 + value.toNat * 2 % 2 ^ 32) % 2 ^ 32 = 256 + 2 * value.toNat
  omega

theorem countAddress_add_le (hsize : 768 ≤ bs.size) {value : I32} (h : value.toNat < 256) :
    (countAddress value).toNat + Width.w16.bytes ≤ bs.size := by
  rw [toNat_countAddress h]
  change 256 + 2 * value.toNat + 2 ≤ bs.size
  omega

theorem toNat_dataAddress {i : I32} {k : Nat} (hi : i.toInt = k) : (I32.address i).toNat = k := by
  rw [I32.toNat_address, I32.toNat_of_toInt_eq hi]

/-- A counter is incremented as a wider word, and wraps where it is stored. -/
theorem setWidth_increment (c : BitVec 16) : (c.setWidth 32 + 1#32).setWidth 16 = c + 1 := by
  rw [BitVec.setWidth_add _ _ (by decide), BitVec.setWidth_setWidth_of_le _ (by decide), BitVec.setWidth_eq]
  rfl

section Loops

variable {M : Type} [LinearMemory M] {V : View M} (hV : V.Tested) {m : M}

include hV

theorem loadCounter (hm : V.Holds bs m) (hlt : bs.size < UInt64.size) (hsize : 768 ≤ bs.size)
    {value : I32} (hv : value.toNat < 256) :
    Running.loadWord .w16 (countAddress value) m = (.ok (counter bs value.toNat), m) := by
  have hload := hV.loadWord_eq_ok hm hlt (countAddress_add_le hsize hv)
  rwa [toNat_countAddress hv] at hload

theorem storeCounter (hm : V.Holds bs m) (hlt : bs.size < UInt64.size) (hsize : 768 ≤ bs.size)
    {value : I32} (hv : value.toNat < 256) (c : BitVec 16) :
    ∃ m', Running.storeWord .w16 (countAddress value) c m = (.ok (), m') ∧
      V.Holds (Patch.write ⟨256 + 2 * value.toNat, Width.w16.toBytes c⟩ bs) m' := by
  have hstore := hV.storeWord_eq_ok hm hlt (countAddress_add_le hsize hv) c
  rwa [toNat_countAddress hv] at hstore

theorem countByte_eq_ok (hm : V.Holds bs m) (hlt : bs.size < UInt64.size) (hsize : 768 ≤ bs.size)
    {i : I32} {k : Nat} (hi : i.toInt = k) (hk : k < bs.size) :
    ∃ m', countByte i m = (.ok (), m') ∧ V.Holds (tally bs k) m' := by
  have hdata := toNat_dataAddress hi
  have hbyte := hV.loadWord_eq_ok hm hlt (w := .w8) (hdata.symm ▸ hk)
  rw [hdata] at hbyte
  have hwidth : ((bs.wordAt .w8 k).setWidth 32).toNat = (bs.wordAt .w8 k).toNat :=
    BitVec.toNat_setWidth_of_le (by decide)
  have hvalue : ((bs.wordAt .w8 k).setWidth 32).toNat < 256 :=
    hwidth.trans_lt (BitVec.isLt _)
  obtain ⟨m', hstore, hm'⟩ :=
    storeCounter hV hm hlt hsize hvalue (counter bs (bs.wordAt .w8 k).toNat + 1)
  rw [hwidth] at hm'
  refine ⟨m', ?_, hm'⟩
  rw [countByte, Outcome.bind_of_ok hbyte, Outcome.bind_of_ok (loadCounter hV hm hlt hsize hvalue),
    setWidth_increment, hwidth, hstore]

theorem countByte_eq_error (hm : V.Holds bs m) (hlt : bs.size < UInt64.size) {i : I32}
    (hi : i.toInt = bs.size) : countByte i m = (.error (.trap .outOfBounds), m) := by
  have hout : ¬ (I32.address i).toNat + Width.w8.bytes ≤ bs.size :=
    toNat_dataAddress hi ▸ Nat.not_succ_le_self bs.size
  exact Outcome.bind_of_error (hV.loadWord_eq_error hm hlt hout)

/-- **The loop below the counters** counts what the memory held at first. -/
theorem count_eq_ok (hm : V.Holds bs m) (hlt : bs.size < UInt64.size) (hsize : 768 ≤ bs.size) {n : I32}
    (hn : n.toInt ≤ 256) :
    ∃ m', count n m = (.ok (), m') ∧
      ∃ bs', V.Holds bs' m' ∧ Added (occurrences bs n.toInt.toNat) bs bs' := by
  -- The contents differ from the first ones by the turns that have been taken.
  have hturn : ∀ (k : Nat) (i : I32) (_ : Unit) (m₁ : M), i.toInt = k → k < n.toInt.toNat →
      (∃ bs₁, V.Holds bs₁ m₁ ∧ Added (occurrences bs k) bs bs₁) →
      ∃ s' m', countByte i m₁ = (.ok s', m') ∧
        ∃ bs', V.Holds bs' m' ∧ Added (occurrences bs (k + 1)) bs bs' := by
    rintro k i - m₁ hi hk ⟨bs₁, hm₁, hadded⟩
    have hsize₁ := hadded.size_eq
    obtain ⟨m', hrun, hm'⟩ := countByte_eq_ok hV hm₁ (by omega) (by omega) hi (by omega)
    exact ⟨(), m', hrun, tally bs₁ k, hm', hadded.tally_occurrences hsize (by omega)⟩
  have hstart : Added (occurrences bs 0) bs bs := (Added.refl bs).congr fun _ _ => rfl
  obtain ⟨_, m', hrun, hm'⟩ := Running.countTo_ends
    (fun k _ m' => ∃ bs', V.Holds bs' m' ∧ Added (occurrences bs k) bs bs') hturn (i := 0) (k := 0) rfl
    (Nat.zero_le _) ⟨bs, hm, hstart⟩
  exact ⟨m', hrun, hm'⟩

/-- **The loop that gets to the end of the memory traps**, whatever it has counted. -/
theorem count_eq_error (hm : V.Holds bs m) (hlt : bs.size < UInt64.size) (hsize : 768 ≤ bs.size) {n : I32}
    (hn : bs.size < n.toInt) :
    ∃ m', count n m = (.error (.trap .outOfBounds), m') ∧
      ∃ bs', V.Holds bs' m' ∧ bs'.size = bs.size := by
  -- Turns keep the size, and up to the end every access of a turn is in bounds.
  have hturn : ∀ (k : Nat) (i : I32) (_ : Unit) (m₁ : M), i.toInt = k → k < bs.size →
      (∃ bs₁, V.Holds bs₁ m₁ ∧ bs₁.size = bs.size) →
      ∃ s' m', countByte i m₁ = (.ok s', m') ∧ ∃ bs', V.Holds bs' m' ∧ bs'.size = bs.size := by
    rintro k i - m₁ hi hk ⟨bs₁, hm₁, hsize₁⟩
    obtain ⟨m', hrun, hm'⟩ := countByte_eq_ok hV hm₁ (by omega) (by omega) hi (by omega)
    exact ⟨(), m', hrun, tally bs₁ k, hm', (size_tally bs₁ k).trans hsize₁⟩
  have hstop : bs.size ≤ n.toInt.toNat := by omega
  obtain ⟨i, _, m₁, hi, ⟨bs₁, hm₁, hsize₁⟩, hrun⟩ := Running.countTo_reaches
    (fun _ _ m' => ∃ bs', V.Holds bs' m' ∧ bs'.size = bs.size) hstop hturn (i := 0) (k := 0) rfl
    (Nat.zero_le _) ⟨bs, hm, rfl⟩
  have hfail := countByte_eq_error hV hm₁ (by omega) (hsize₁.symm ▸ hi)
  exact ⟨m₁, hrun.trans (Running.countTo_error (by omega) hfail), bs₁, hm₁, hsize₁⟩

theorem weighCount_apply (hm : V.Holds bs m) (hlt : bs.size < UInt64.size) (hsize : 768 ≤ bs.size)
    {b : I32} (hb : b.toInt = v) (hv : v < 256) :
    weighCount b (BitVec.ofInt 64 (weight bs v)) m = (.ok (BitVec.ofInt 64 (weight bs (v + 1))), m) := by
  have hvalue := I32.toNat_of_toInt_eq hb
  rw [weighCount, Outcome.bind_of_ok (loadCounter hV hm hlt hsize (hvalue.symm ▸ hv)), hvalue,
    weight_succ bs hb]
  rfl

theorem weigh_apply (hm : V.Holds bs m) (hlt : bs.size < UInt64.size) (hsize : 768 ≤ bs.size) :
    weigh m = (.ok (BitVec.ofInt 64 (weight bs 16)), m) := by
  have hturn : ∀ (k : Nat) (b : I32) (total : I64) (m₁ : M), b.toInt = k → k < buckets.toInt.toNat →
      total = BitVec.ofInt 64 (weight bs k) ∧ m₁ = m →
      ∃ total' m', weighCount b total m₁ = (.ok total', m') ∧
        total' = BitVec.ofInt 64 (weight bs (k + 1)) ∧ m' = m := by
    rintro k b _ _ hb hk ⟨rfl, rfl⟩
    have hk : k < 16 := hk
    exact ⟨_, _, weighCount_apply hV hm hlt hsize hb (by omega), rfl, rfl⟩
  obtain ⟨total, m', hrun, rfl, rfl⟩ := Running.countTo_ends
    (fun k total m' => total = BitVec.ofInt 64 (weight bs k) ∧ m' = m) hturn (i := 0) (s := 0) (k := 0) rfl
    (Nat.zero_le _) ⟨rfl, rfl⟩
  exact hrun

/-! ## The exports -/

variable (hm : V.Holds bs m) (hlt : bs.size < UInt64.size) (hsize : 768 ≤ bs.size)

include hm hlt hsize

theorem countAndWeigh_ends {n : I32} (hn : n.toInt ≤ 256) :
    ∃ m' bs', countAndWeigh n m = (.ok (BitVec.ofInt 64 (weight bs' 16)), m') ∧ V.Holds bs' m' ∧
      Added (occurrences bs n.toInt.toNat) bs bs' := by
  obtain ⟨m', hcount, bs', hm', hadded⟩ := count_eq_ok hV hm hlt hsize hn
  have hsize' := hadded.size_eq
  refine ⟨m', bs', ?_, hm', hadded⟩
  rw [countAndWeigh, Outcome.bind_of_ok hcount]
  exact weigh_apply hV hm' (by omega) (by omega)

theorem countAndWeigh_traps {n : I32} (hn : bs.size < n.toInt) :
    ∃ m' bs', countAndWeigh n m = (.error (.trap .outOfBounds), m') ∧ V.Holds bs' m' ∧
      bs'.size = bs.size := by
  obtain ⟨m', hcount, bs', hm', hsize'⟩ := count_eq_error hV hm hlt hsize hn
  exact ⟨m', bs', Outcome.bind_of_error hcount, hm', hsize'⟩

theorem reset_ends : ∃ m' bs', reset m = (.ok (), m') ∧ V.Holds bs' m' ∧ Cleared bs bs' := by
  have hin : countsBase.toNat + (buckets * 2).toNat ≤ bs.size := by
    change 256 + 32 ≤ bs.size
    omega
  obtain ⟨m', hfill, hm'⟩ := hV.fill_eq_ok hm hlt hin 0
  exact ⟨m', _, hfill, hm', cleared_fill hsize⟩

end Loops

/-! ## On every path -/

section Paths

variable {maxPages : Nat} {policy : Policy} {layout : Layout} {path : AccessPath layout}
  {m : Memory maxPages ⟨policy, layout⟩}

/-- Calls in a row, with the answer of each. -/
def calls (path : AccessPath layout) (ns : List I32) (m : Memory maxPages ⟨policy, layout⟩) :
    List (Outcome I64) × Memory maxPages ⟨policy, layout⟩ :=
  runAll (fun n m => path.compute (countAndWeigh n) m) ns m

variable (hpath : path.Tested policy) (hm : m.Valid) (hlt : m.contents.size < UInt64.size)
  (hsize : 768 ≤ m.contents.size)

include hpath hm hlt hsize

theorem compute_countAndWeigh {n : I32} (hn : n.toInt ≤ 256) :
    ∃ m', path.compute (countAndWeigh n) m = (.ok (BitVec.ofInt 64 (weight m'.contents 16)), m') ∧
      m'.Valid ∧ Added (occurrences m.contents n.toInt.toNat) m.contents m'.contents :=
  AccessPath.compute_of_tested hpath hm fun hV _ hg => countAndWeigh_ends hV hg hlt hsize hn

/-- **Calls in a row** add up what each of them counts. -/
theorem calls_added {ns : List I32} (hns : ∀ n ∈ ns, n.toInt ≤ 256) :
    (calls path ns m).2.Valid ∧
      Added (fun v => (ns.map fun n => occurrences m.contents n.toInt.toNat v).sum) m.contents
        (calls path ns m).2.contents := by
  induction ns generalizing m with
  | nil => exact ⟨hm, .refl _⟩
  | cons n ns ih =>
    obtain ⟨hn, hns⟩ := List.forall_mem_cons.mp hns
    obtain ⟨m₁, hrun, hm₁, hadded⟩ := compute_countAndWeigh hpath hm hlt hsize hn
    have hsize₁ := hadded.size_eq
    obtain ⟨hvalid, hrest⟩ := ih hm₁ (by omega) (by omega) hns
    have hcalls : (calls path (n :: ns) m).2 = (calls path ns m₁).2 := by
      rw [calls, runAll_cons, hrun]
      rfl
    rw [hcalls]
    refine ⟨hvalid, (hadded.trans hrest).congr fun v _ => ?_⟩
    rw [List.map_cons, List.sum_cons]
    congr 2
    refine List.map_congr_left fun k hk => hadded.occurrences_eq ?_ v
    have hk := hns k hk
    omega

theorem compute_countAndWeigh_traps {n : I32} (hn : m.contents.size < n.toInt) :
    ∃ m', path.compute (countAndWeigh n) m = (.error (.trap .outOfBounds), m') ∧ m'.Valid ∧
      m'.contents.size = m.contents.size :=
  AccessPath.compute_of_tested hpath hm fun hV _ hg => countAndWeigh_traps hV hg hlt hsize hn

theorem compute_reset :
    ∃ m', path.compute reset m = (.ok (), m') ∧ m'.Valid ∧ Cleared m.contents m'.contents :=
  AccessPath.compute_of_tested hpath hm fun hV _ hg => reset_ends hV hg hlt hsize

omit hlt hsize in
/-- **On every path that tests accesses** a call adds what it counts to the counters and returns their
weighted sum. Beyond the end of the memory it traps. -/
theorem countAndWeigh_tested (hpages : 1 ≤ m.pages) {S : Nat} (hS : m.extent = .ok S) :
    (∀ n : I32, n.toInt ≤ 256 → ∃ total m', path.compute (countAndWeigh n) m = (.ok total, m') ∧
      m'.Valid ∧ Added (occurrences m.contents n.toInt.toNat) m.contents m'.contents ∧
      total.toInt = ∑ v ∈ Finset.range 16, (v : Int) * (counter m'.contents v).toInt) ∧
    (∀ (ns : List I32) (n : I32), (∀ k ∈ ns ++ [n], k.toInt ≤ 256) →
      let c := fun v => ((ns ++ [n]).map fun k => occurrences m.contents k.toInt.toNat v).sum
      ∃ total m', path.compute (countAndWeigh n) (calls path ns m).2 = (.ok total, m') ∧
        Added c m.contents m'.contents ∧
        total.toInt = ∑ v ∈ Finset.range 16,
          (v : Int) * (counter m.contents v + BitVec.ofNat 16 (c v)).toInt) ∧
    (∀ n : I32, S < n.toInt → (path.compute (countAndWeigh n) m).1 = .error (.trap .outOfBounds)) ∧
    ∃ m', path.compute reset m = (.ok (), m') ∧ m'.Valid ∧ Cleared m.contents m'.contents := by
  obtain ⟨rfl, hlt⟩ := addressable_eq_ok hS
  have hactive : 65536 ≤ m.activeSize := Nat.mul_le_mul_left 65536 hpages
  rw [← hm.size_contents] at hlt hactive ⊢
  have hsize : 768 ≤ m.contents.size := Nat.le_trans (by decide) hactive
  refine ⟨fun n hn => ?_, fun ns n hns => ?_, fun n hn => ?_, compute_reset hpath hm hlt hsize⟩
  · obtain ⟨m', hrun, hvalid, hadded⟩ := compute_countAndWeigh hpath hm hlt hsize hn
    exact ⟨_, m', hrun, hvalid, hadded, toInt_weight _ (by decide)⟩
  · obtain ⟨hbefore, hlast⟩ := List.forall_mem_append.mp hns
    have hn := hlast n (List.mem_singleton_self n)
    obtain ⟨hvalid, hadded⟩ := calls_added hpath hm hlt hsize hbefore
    have hsize' := hadded.size_eq
    obtain ⟨m', hrun, -, hadded'⟩ := compute_countAndWeigh hpath hvalid (by omega) (by omega) hn
    have hall : Added (fun v => ((ns ++ [n]).map fun k => occurrences m.contents k.toInt.toNat v).sum)
        m.contents m'.contents := by
      refine (hadded.trans hadded').congr fun v _ => ?_
      rw [hadded.occurrences_eq (by omega), List.map_append, List.sum_append, List.map_singleton,
        List.sum_singleton]
    refine ⟨_, m', hrun, hall, ?_⟩
    rw [toInt_weight _ (by decide)]
    refine Finset.sum_congr rfl fun v hv => ?_
    rw [hall.counter_eq v (by have := Finset.mem_range.mp hv; omega)]
  · obtain ⟨m', hrun, -⟩ := compute_countAndWeigh_traps hpath hm hlt hsize hn
    rw [hrun]

omit hpath hm hlt hsize

theorem occurrences_of_const {b : Byte} (h : ∀ x < n, bs[x]? = some b) (hv : v < 256) :
    occurrences bs n v = if v = b.toNat then n else 0 := by
  have hvalue : b = BitVec.ofNat 8 v ↔ v = b.toNat := by
    rw [← BitVec.toNat_inj, BitVec.toNat_ofNat, Nat.mod_eq_of_lt hv]
    exact eq_comm
  rw [occurrences]
  split_ifs with hvb
  · rw [List.countP_eq_length.mpr, List.length_range]
    intro i hi
    rw [h i (List.mem_range.mp hi), ← hvalue.mpr hvb, decide_eq_true_eq]
  · rw [List.countP_eq_zero]
    intro i hi
    rw [h i (List.mem_range.mp hi), decide_eq_true_eq]
    exact fun heq => hvb (hvalue.mp (Option.some.inj heq))

/-- A page full of sevens is counted twice through a segment base, without any check of its own. -/
theorem countAndWeigh_tested_of_sevens :
    let m : Memory 1 ⟨.unchecked, .little⟩ := ⟨Array.replicate (pageSize * 1) 7, 1⟩
    AccessPath.segment.Tested .unchecked ∧ m.Valid ∧ 1 ≤ m.pages ∧ m.extent = .ok 65536 ∧
      (AccessPath.segment.compute (countAndWeigh 8) (calls .segment [8] m).2).1 = .ok 215992 ∧
      (AccessPath.segment.compute (countAndWeigh 65537) m).1 = .error (.trap .outOfBounds) := by
  intro m
  have hpath : AccessPath.segment.Tested .unchecked := trivial
  have hm : m.Valid := ⟨Array.size_replicate, Nat.le_refl _⟩
  have hS : m.extent = .ok 65536 := rfl
  obtain ⟨-, hcalls, htrap, -⟩ := countAndWeigh_tested hpath hm (Nat.le_refl 1) hS
  refine ⟨hpath, hm, Nat.le_refl 1, hS, ?_, htrap 65537 (by decide)⟩
  have hcontents : ∀ g : Memory 1 ⟨.unchecked, .little⟩, g.contents = g.storage.extract 0 g.sliceSize :=
    fun _ => rfl
  have hbyte : ∀ x < 65536, m.contents[x]? = some 7 := by
    intro x hx
    have hpage : pageSize = 65536 := rfl
    have hactive : m.activeSize = pageSize * 1 := rfl
    have hstorage : m.storage = Array.replicate (pageSize * 1) 7 := rfl
    rw [hcontents, hm.sliceSize_eq, hstorage, Array.extract_replicate, Array.getElem?_replicate,
      if_pos (by omega)]
  have hsum : ∀ bs : Contents, (∀ x < 65536, bs[x]? = some 7) →
      ∑ v ∈ Finset.range 16, (v : Int) * (counter bs v + BitVec.ofNat 16
        (([8] ++ [8]).map fun k : I32 => occurrences bs k.toInt.toNat v).sum).toInt = 215992 := by
    intro bs hbs
    have hterm : ∀ v ∈ Finset.range 16, (v : Int) * (counter bs v +
        BitVec.ofNat 16 (occurrences bs 8 v + (occurrences bs 8 v + 0))).toInt =
        v * (0x0707 + BitVec.ofNat 16 (if v = 7 then 16 else 0)).toInt := by
      intro v hv
      have hv : v < 256 := Nat.lt_trans (Finset.mem_range.mp hv) (by decide)
      have hcounter : counter bs v = 0x0707 := counter_of_const fun j hj => hbs _ (by omega)
      have hcount : occurrences bs 8 v = if v = 7 then 8 else 0 :=
        occurrences_of_const (fun x hx => hbs x (by omega)) hv
      rw [hcounter, hcount]
      split_ifs <;> rfl
    exact (Finset.sum_congr rfl hterm).trans (by decide)
  have hshort : ∀ k ∈ [(8 : I32)] ++ [8], k.toInt ≤ 256 := by
    rintro k (- | ⟨_, - | ⟨_, ⟨⟩⟩⟩) <;> decide
  obtain ⟨total, m', hrun, -, htotal⟩ := hcalls [8] 8 hshort
  rw [hrun, show total = 215992 from BitVec.toInt_inj.mp (htotal.trans (hsum _ hbyte))]

end Paths

end Histogram

end WasmSandbox.Guest
