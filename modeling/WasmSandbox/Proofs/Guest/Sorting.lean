import Mathlib.Tactic.Common
import WasmSandbox.Guest.Sorting
import WasmSandbox.Proofs.Memory.Words

/-!
# The sorting module computes the plain sum

* `Sorting.Ready`: what every call keeps: a valid memory of two pages.
* `Sorting.words`: the first words of a memory, as signed numbers.
* `Sorting.Written`: one word has been written, and no other byte.
* `Sorting.Ready.fill_eq_ok`, `Sorting.Ready.insert_eq_ok`, `Sorting.Ready.sort_eq_ok`,
  `Sorting.Ready.sum_eq_ok`: what the guest functions do to the words. `Sorting.Filled`, `Sorting.Gap`,
  `Sorting.Ordered` and `Sorting.Summed` are what their loops carry along.
* **`Sorting.Reachable.call_plain`**: after any calls, a call returns what the plain computation returns
  if its words fit in the memory, and traps otherwise.
-/

namespace WasmSandbox.Guest

namespace Sorting

/-! ## Words of the memory -/

structure Ready (m : Memory 2 {}) : Prop where
  valid : m.Valid
  pages_eq : m.pages = 2

/-- The number with index `k`. -/
def word (m : Memory 2 {}) (k : Nat) : Int32 := .ofBitVec (m.contents.wordAt .w32 (4 * k))

/-- The first `n` numbers. -/
def words (m : Memory 2 {}) (n : Nat) : List Int32 := (List.range n).map (word m)

/-- The number with index `k` has been written, and no other byte. -/
structure Written (m : Memory 2 {}) (k : Nat) (v : Int32) (m' : Memory 2 {}) : Prop where
  ready : Ready m'
  self : word m' k = v
  outside : ∀ x, x < 4 * k ∨ 4 * k + 4 ≤ x → m'.contents[x]? = m.contents[x]?

variable {m m' : Memory 2 {}}

@[simp] theorem length_words (m : Memory 2 {}) (n : Nat) : (words m n).length = n := by
  rw [words, List.length_map, List.length_range]

theorem words_succ (m : Memory 2 {}) (n : Nat) : words m (n + 1) = words m n ++ [word m n] := by
  rw [words, List.range_succ, List.map_append]
  rfl

theorem getElem_words {n k : Nat} (h : k < (words m n).length) : (words m n)[k] = word m k := by
  simp [words]

theorem words_congr {n : Nat} (h : ∀ k < n, word m' k = word m k) : words m' n = words m n :=
  List.map_congr_left fun k hk => h k (List.mem_range.mp hk)

theorem word_congr {k : Nat}
    (h : ∀ x, 4 * k ≤ x → x < 4 * k + 4 → m'.contents[x]? = m.contents[x]?) :
    word m' k = word m k :=
  congrArg Int32.ofBitVec (Contents.wordAt_congr h)

theorem Written.word_ne {k : Nat} {v : Int32} (h : Written m k v m') {t : Nat} (ht : t ≠ k) :
    word m' t = word m t :=
  word_congr fun x hx hx' => h.outside x (by omega)

/-! ## Loads and stores -/

theorem toNat_wordAddress {i : I32} {k : Nat} (hi : i.toInt = k) (hk : k ≤ 32768) :
    (wordAddress i).toNat = 4 * k := by
  have hn := I32.toNat_of_toInt_eq hi
  rw [wordAddress, I32.toNat_address, BitVec.toNat_mul, hn]
  simp
  omega

namespace Ready

variable (hm : Ready m)

include hm

theorem activeSize_eq : m.activeSize = 131072 := by
  rw [Memory.activeSize, hm.pages_eq]
  rfl

theorem activeSize_lt : m.activeSize < UInt64.size := by
  rw [hm.activeSize_eq]
  decide

theorem of_size (hvalid : m'.Valid) (hsize : m'.contents.size = m.contents.size) : Ready m' := by
  refine ⟨hvalid, ?_⟩
  rw [← hvalid.pages_contents, Contents.pages, hsize, hm.valid.size_contents, hm.activeSize_eq]
  rfl

theorem wordAddress_add_le {i : I32} {k : Nat} (hi : i.toInt = k) (hk : k < 32768) :
    (wordAddress i).toNat + Width.w32.bytes ≤ m.activeSize := by
  rw [hm.activeSize_eq, toNat_wordAddress hi (Nat.le_of_lt hk)]
  change 4 * k + 4 ≤ 131072
  omega

theorem loadWord {i : I32} {k : Nat} (hi : i.toInt = k) (hk : k < 32768) :
    Running.loadWord .w32 (wordAddress i) m = (.ok (word m k).toBitVec, m) := by
  have hload := hm.valid.loadWord_eq_ok hm.activeSize_lt (hm.wordAddress_add_le hi hk)
  rw [toNat_wordAddress hi (Nat.le_of_lt hk)] at hload
  exact congrArg (·, m) hload

theorem storeWord {i : I32} {k : Nat} (hi : i.toInt = k) (hk : k < 32768) (v : I32) :
    ∃ m', Running.storeWord .w32 (wordAddress i) v m = (.ok (), m') ∧ Written m k (.ofBitVec v) m' := by
  have hin := hm.wordAddress_add_le hi hk
  obtain ⟨m', hstore, hvalid, hcontents⟩ := hm.valid.storeWord_eq_ok hm.activeSize_lt hin v
  rw [toNat_wordAddress hi (Nat.le_of_lt hk)] at hin hcontents
  rw [← hm.valid.size_contents] at hin
  refine ⟨m', hstore, hm.of_size hvalid ?_, ?_, fun x hx => ?_⟩
  · rw [hcontents, Patch.size_write]
  · rw [word, hcontents]
    exact congrArg Int32.ofBitVec (Contents.wordAt_write .w32 v hin)
  · rw [hcontents]
    exact Contents.getElem?_write_of_outside .w32 v hx

theorem storeWord_error {i : I32} (hi : i.toInt = 32768) (v : I32) :
    ∃ m', Running.storeWord .w32 (wordAddress i) v m = (.error (.trap .outOfBounds), m') ∧ Ready m' := by
  have haddr := toNat_wordAddress hi (Nat.le_refl _)
  have hout : ¬ (wordAddress i).toNat + Width.w32.bytes ≤ m.activeSize := by
    rw [hm.activeSize_eq, haddr]
    decide
  obtain ⟨m', hstore, hvalid, hcontents⟩ := hm.valid.storeWord_eq_error hm.activeSize_lt hout v
  exact ⟨m', hstore, hm.of_size hvalid (congrArg Array.size hcontents)⟩

end Ready

/-! ## Filling -/

theorem numbers_succ (n : Nat) (state : I32) :
    numbers (n + 1) (.ofBitVec state) =
      .ofBitVec (number (nextState state)) :: numbers n (.ofBitVec (nextState state)) := rfl

theorem Ready.put_eq_ok (hm : Ready m) {i : I32} {k : Nat} (hi : i.toInt = k) (hk : k < 32768)
    (state : I32) :
    ∃ m', put i state m = (.ok (nextState state), m') ∧
      Written m k (.ofBitVec (number (nextState state))) m' := by
  obtain ⟨m', hstore, hw⟩ := hm.storeWord hi hk (number (nextState state))
  refine ⟨m', ?_, hw⟩
  rw [put, Outcome.bind_of_ok hstore]
  rfl

/-- The first `k` of `n` words have been filled: they and the numbers that the state still stands for are
the numbers of the generator. -/
structure Filled (n : Nat) (seed : I32) (k : Nat) (state : I32) (m : Memory 2 {}) : Prop where
  ready : Ready m
  all : words m k ++ numbers (n - k) (.ofBitVec state) = numbers n (.ofBitVec seed)

theorem Filled.put_eq_ok {n k : Nat} {seed state i : I32} (h : Filled n seed k state m) (hi : i.toInt = k)
    (hkn : k < n) (hk : k < 32768) :
    ∃ state' m', put i state m = (.ok state', m') ∧ Filled n seed (k + 1) state' m' := by
  obtain ⟨m', hrun, hw⟩ := h.ready.put_eq_ok hi hk state
  refine ⟨nextState state, m', hrun, hw.ready, ?_⟩
  have hall := h.all
  have hleft : n - k = n - (k + 1) + 1 := by omega
  have hbefore : words m' k = words m k := words_congr fun t ht => hw.word_ne (Nat.ne_of_lt ht)
  rw [hleft, numbers_succ] at hall
  rw [words_succ, hw.self, hbefore, List.append_assoc]
  exact hall

/-- **Filling writes the numbers of the generator.** -/
theorem Ready.fill_eq_ok (hm : Ready m) {n : I32} (hn : n.toInt ≤ 32768) (seed : I32) :
    ∃ m', fill n seed m = (.ok (), m') ∧ Ready m' ∧
      words m' n.toInt.toNat = numbers n.toInt.toNat (.ofBitVec seed) := by
  have hput : ∀ (k : Nat) (i state : I32) (m₁ : Memory 2 {}), i.toInt = k → k < n.toInt.toNat →
      Filled n.toInt.toNat seed k state m₁ →
      ∃ state' m', put i state m₁ = (.ok state', m') ∧ Filled n.toInt.toNat seed (k + 1) state' m' :=
    fun k i state m₁ hi hkn h => h.put_eq_ok hi hkn (by omega)
  obtain ⟨state, m', hrun, hready, hall⟩ := Running.countTo_ends (Filled n.toInt.toNat seed) hput
    (i := 0) (k := 0) rfl (Nat.zero_le _) ⟨hm, rfl⟩
  rw [Nat.sub_self, numbers, List.append_nil] at hall
  refine ⟨m', ?_, hready, hall⟩
  rw [fill, Outcome.bind_of_ok hrun]
  rfl

/-- **Filling more words than there are traps.** -/
theorem Ready.fill_eq_error (hm : Ready m) {n : I32} (hn : 32768 < n.toInt) (seed : I32) :
    ∃ m', fill n seed m = (.error (.trap .outOfBounds), m') ∧ Ready m' := by
  have hput : ∀ (k : Nat) (i state : I32) (m₁ : Memory 2 {}), i.toInt = k → k < 32768 → Ready m₁ →
      ∃ state' m', put i state m₁ = (.ok state', m') ∧ Ready m' := by
    intro k i state m₁ hi hk hm₁
    obtain ⟨m', hrun, hw⟩ := hm₁.put_eq_ok hi hk state
    exact ⟨nextState state, m', hrun, hw.ready⟩
  have hstop : 32768 ≤ n.toInt.toNat := by omega
  obtain ⟨i, state, m₁, hi, hm₁, hrun⟩ := Running.countTo_reaches (fun _ _ => Ready) hstop hput
    (i := 0) (k := 0) (s := seed) rfl (by omega) hm
  obtain ⟨m', hstore, hm'⟩ := hm₁.storeWord_error hi (number (nextState state))
  have hfail : put i state m₁ = (.error (.trap .outOfBounds), m') := Outcome.bind_of_error hstore
  have hloop := hrun.trans (Running.countTo_error (by omega) hfail)
  exact ⟨m', Outcome.bind_of_error hloop, hm'⟩

/-! ## Sorting -/

/-- The words below index `k` of a memory, with those from the gap on shifted up by one; they exceed the
key. Nothing behind index `k` has changed. -/
structure Gap (m : Memory 2 {}) (k gap : Nat) (key : Int32) (m' : Memory 2 {}) : Prop where
  ready : Ready m'
  below : ∀ t < gap, word m' t = word m t
  above : ∀ t < k, gap ≤ t → word m' (t + 1) = word m t
  exceeds : ∀ t < k, gap ≤ t → key ≤ word m t
  outside : ∀ x, 4 * (k + 1) ≤ x → m'.contents[x]? = m.contents[x]?

theorem Gap.down {k gap : Nat} {key : Int32} {m₁ : Memory 2 {}} (h : Gap m k (gap + 1) key m₁)
    (hgap : gap < k) (hkey : key ≤ word m gap) (hw : Written m₁ (gap + 1) (word m gap) m') :
    Gap m k gap key m' := by
  refine ⟨hw.ready, fun t ht => ?_, fun t ht hle => ?_, fun t ht hle => ?_, fun x hx => ?_⟩
  · rw [hw.word_ne (by omega), h.below t (by omega)]
  · rcases Nat.eq_or_lt_of_le hle with rfl | hlt
    · exact hw.self
    · rw [hw.word_ne (by omega), h.above t ht hlt]
  · rcases Nat.eq_or_lt_of_le hle with rfl | hlt
    · exact hkey
    · exact h.exceeds t ht hlt
  · rw [hw.outside x (by omega), h.outside x hx]

/-- **Shifting stops at the first word that does not exceed the key**, counted down. -/
theorem Gap.shift_eq_ok {k gap : Nat} {key : Int32} {m₁ : Memory 2 {}} (hk : k < 32768)
    (h : Gap m k gap key m₁) (hgap : gap ≤ k) {j : I32} (hj : j.toInt + 1 = gap) :
    ∃ (j' : I32) (gap' : Nat) (m' : Memory 2 {}), shift key.toBitVec j m₁ = (.ok j', m') ∧
      j'.toInt + 1 = gap' ∧ gap' ≤ k ∧ Gap m k gap' key m' ∧
      ∀ t, t + 1 = gap' → word m t ≤ key := by
  -- The induction is on the number of words below the gap.
  induction gap generalizing j m₁ with
  | zero =>
    have hstop : ¬ 0 ≤ j.toInt := by omega
    refine ⟨j, 0, m₁, ?_, hj, hgap, h, fun t ht => absurd ht (Nat.succ_ne_zero t)⟩
    rw [shift, if_neg hstop]
    rfl
  | succ gap ih =>
    have hindex : j.toInt = gap := by omega
    have hgo : 0 ≤ j.toInt := by omega
    have hload := h.ready.loadWord hindex (by omega)
    rw [h.below gap (Nat.lt_succ_self gap)] at hload
    by_cases hle : word m gap ≤ key
    · have hstop : (word m gap).toBitVec.toInt ≤ key.toBitVec.toInt := Int32.le_iff_toInt_le.mp hle
      refine ⟨j, gap + 1, m₁, ?_, hj, hgap, h, fun t ht => ?_⟩
      · rw [shift, if_pos hgo, Outcome.bind_of_ok hload, if_pos hstop]
        rfl
      · rw [Nat.succ.inj ht]
        exact hle
    · have hon : ¬ (word m gap).toBitVec.toInt ≤ key.toBitVec.toInt :=
        fun hle' => hle (Int32.le_iff_toInt_le.mpr hle')
      obtain ⟨⟨above, habove⟩, hnext⟩ := I32.next_eq_ok (i := j) (by omega)
      obtain ⟨⟨below, hbelow⟩, hprevious⟩ := I32.previous_eq_ok hgo
      have hindex' : above.toInt = (gap + 1 : Nat) := by omega
      obtain ⟨m₂, hstore, hw⟩ := h.ready.storeWord hindex' (by omega) (word m gap).toBitVec
      have hkey : key ≤ word m gap := (Int32.le_total _ _).resolve_left hle
      have hdown := h.down (Nat.lt_of_succ_le hgap) hkey hw
      obtain ⟨j', gap', m', hrun, hrest⟩ := ih hdown (by omega) (j := below) (by omega)
      refine ⟨j', gap', m', ?_, hrest⟩
      rw [← hrun, shift, if_pos hgo, Outcome.bind_of_ok hload, if_neg hon, hnext, hprevious,
        Outcome.lift_ok_bind, Outcome.bind_of_ok hstore, Outcome.lift_ok_bind]

theorem Gap.words_of_written {k gap : Nat} {key : Int32} {m₁ : Memory 2 {}} (h : Gap m k gap key m₁)
    (hgap : gap ≤ k) (hw : Written m₁ gap key m') :
    words m' (k + 1) = (words m k).take gap ++ key :: (words m k).drop gap := by
  have hlen : ((words m k).take gap).length = gap := by
    rw [List.length_take, length_words, Nat.min_eq_left hgap]
  apply List.ext_getElem
  · rw [List.length_append, hlen, List.length_cons, List.length_drop, length_words, length_words]
    omega
  · intro t ht _
    rw [length_words] at ht
    rw [getElem_words]
    rcases Nat.lt_trichotomy t gap with hlt | rfl | hgt
    · rw [List.getElem_append_left (by omega), List.getElem_take, getElem_words, hw.word_ne (by omega),
        h.below t hlt]
    · rw [List.getElem_append_right (by omega)]
      simp only [hlen, Nat.sub_self, List.getElem_cons_zero]
      exact hw.self
    · obtain ⟨r, rfl⟩ := Nat.exists_eq_add_of_lt hgt
      rw [List.getElem_append_right (by omega)]
      have hr : gap + r + 1 - gap = r + 1 := by omega
      simp only [hlen, hr, List.getElem_cons_succ, List.getElem_drop, getElem_words]
      rw [hw.word_ne (by omega), h.above (gap + r) (by omega) (by omega)]

theorem pairwise_insert {l : List Int32} {gap : Nat} {key : Int32} (hl : l.Pairwise (· ≤ ·))
    (hbelow : ∀ a ∈ l.take gap, a ≤ key) (habove : ∀ b ∈ l.drop gap, key ≤ b) :
    (l.take gap ++ key :: l.drop gap).Pairwise (· ≤ ·) := by
  refine List.pairwise_append.mpr ⟨hl.take, List.pairwise_cons.mpr ⟨habove, hl.drop⟩, fun a ha b hb => ?_⟩
  rcases List.mem_cons.mp hb with rfl | hb
  · exact hbelow a ha
  · exact Int32.le_trans (hbelow a ha) (habove b hb)

theorem word_le_of_pairwise {n t u : Nat} (h : (words m n).Pairwise (· ≤ ·)) (htu : t < u) (hu : u < n) :
    word m t ≤ word m u := by
  have ht : t < (words m n).length := by rw [length_words]; omega
  have hu' : u < (words m n).length := by rwa [length_words]
  have hle := List.pairwise_iff_getElem.mp h t u ht hu' htu
  rwa [getElem_words, getElem_words] at hle

/-- The first `n` words have been put in order, and no byte behind them has changed. -/
structure Ordered (m : Memory 2 {}) (n : Nat) (m' : Memory 2 {}) : Prop where
  ready : Ready m'
  sorted : (words m' n).Pairwise (· ≤ ·)
  perm : (words m' n).Perm (words m n)
  outside : ∀ x, 4 * n ≤ x → m'.contents[x]? = m.contents[x]?

theorem Ordered.one (hm : Ready m) : Ordered m 1 m :=
  ⟨hm, List.pairwise_singleton .., .refl _, fun _ _ => rfl⟩

theorem Ordered.zero (hm : Ready m) : Ordered m 0 m := ⟨hm, .nil, .refl _, fun _ _ => rfl⟩

theorem Ordered.succ {n : Nat} {m₁ : Memory 2 {}} (h : Ordered m n m₁) (h' : Ordered m₁ (n + 1) m') :
    Ordered m (n + 1) m' := by
  have hword : word m₁ n = word m n := word_congr fun x hx _ => h.outside x hx
  have hperm : (words m₁ (n + 1)).Perm (words m (n + 1)) := by
    rw [words_succ, words_succ, hword]
    exact h.perm.append_right _
  refine ⟨h'.ready, h'.sorted, h'.perm.trans hperm, fun x hx => ?_⟩
  rw [h'.outside x hx, h.outside x (by omega)]

theorem Gap.ordered {k gap : Nat} {m₁ : Memory 2 {}} (h : Gap m k gap (word m k) m₁) (hgap : gap ≤ k)
    (hsorted : (words m k).Pairwise (· ≤ ·)) (hlow : ∀ t < gap, word m t ≤ word m k)
    (hw : Written m₁ gap (word m k) m') : Ordered m (k + 1) m' := by
  have hwords := h.words_of_written hgap hw
  refine ⟨hw.ready, ?_, ?_, fun x hx => ?_⟩
  · rw [hwords]
    refine pairwise_insert hsorted (fun a ha => ?_) (fun b hb => ?_)
    · obtain ⟨t, ht, rfl⟩ := List.mem_take_iff_getElem.mp ha
      rw [getElem_words]
      exact hlow t (by omega)
    · obtain ⟨t, ht, rfl⟩ := List.mem_drop_iff_getElem.mp hb
      rw [length_words] at ht
      rw [getElem_words]
      exact h.exceeds (gap + t) (by omega) (Nat.le_add_right ..)
  · have hsplit : ((words m k).take gap ++ word m k :: (words m k).drop gap).Perm
        (word m k :: ((words m k).take gap ++ (words m k).drop gap)) := List.perm_middle
    rw [List.take_append_drop] at hsplit
    rw [hwords, words_succ]
    exact hsplit.trans (List.perm_append_singleton ..).symm
  · rw [hw.outside x (by omega), h.outside x hx]

/-- **Inserting** puts one more word in its place. -/
theorem Ready.insert_eq_ok (hm : Ready m) {i : I32} {k : Nat} (hi : i.toInt = k) (hk : k < 32768)
    (hsorted : (words m k).Pairwise (· ≤ ·)) :
    ∃ m', insert i m = (.ok (), m') ∧ Ordered m (k + 1) m' := by
  have hload := hm.loadWord hi hk
  obtain ⟨⟨below, hbelow⟩, hprevious⟩ := I32.previous_eq_ok (i := i) (by omega)
  have hstart : Gap m k k (word m k) m :=
    ⟨hm, fun _ _ => rfl, fun t ht hle => absurd ht (by omega), fun t ht hle => absurd ht (by omega),
      fun _ _ => rfl⟩
  obtain ⟨j, gap, m₁, hshift, hj, hgap, hg, hle⟩ :=
    hstart.shift_eq_ok hk (Nat.le_refl k) (j := below) (by omega)
  obtain ⟨⟨above, habove⟩, hnext⟩ := I32.next_eq_ok (i := j) (by omega)
  have hindex : above.toInt = gap := by omega
  obtain ⟨m', hstore, hw⟩ := hg.ready.storeWord hindex (by omega) (word m k).toBitVec
  have hlow : ∀ t < gap, word m t ≤ word m k := by
    intro t ht
    rcases Nat.eq_or_lt_of_le (Nat.succ_le_of_lt ht) with hlast | hbefore
    · exact hle t hlast
    · have hnear := word_le_of_pairwise hsorted (t := t) (u := gap - 1) (by omega) (by omega)
      exact Int32.le_trans hnear (hle (gap - 1) (by omega))
  refine ⟨m', ?_, hg.ordered hgap hsorted hlow hw⟩
  rw [insert, Outcome.bind_of_ok hload, hprevious, Outcome.lift_ok_bind, Outcome.bind_of_ok hshift, hnext,
    Outcome.lift_ok_bind, hstore]

/-- **Sorting** puts the words in order. -/
theorem Ready.sort_eq_ok (hm : Ready m) {n : I32} (hn : n.toInt ≤ 32768) :
    ∃ m', sort n m = (.ok (), m') ∧ Ordered m n.toInt.toNat m' := by
  have hinsert : ∀ (k : Nat) (i : I32) (u : Unit) (m₁ : Memory 2 {}), i.toInt = k → k < n.toInt.toNat →
      Ordered m k m₁ → ∃ u' m', insert i m₁ = (.ok u', m') ∧ Ordered m (k + 1) m' := by
    intro k i u m₁ hi hk h
    obtain ⟨m', hrun, h'⟩ := h.ready.insert_eq_ok hi (by omega) h.sorted
    exact ⟨(), m', hrun, h.succ h'⟩
  by_cases hpos : 1 ≤ n.toInt.toNat
  · obtain ⟨u, m', hrun, h⟩ := Running.countTo_ends (fun k _ => Ordered m k) hinsert (i := 1) (k := 1)
      rfl hpos (.one hm)
    exact ⟨m', hrun, h⟩
  · have hzero : n.toInt.toNat = 0 := by omega
    have hend : ¬ (1 : I32).toInt < n.toInt := by
      change ¬ 1 < n.toInt
      omega
    rw [hzero]
    exact ⟨m, Running.countTo_done hend, .zero hm⟩

/-! ## Summing -/

theorem ofBitVec_add_mul (acc v : I32) {i : I32} {k : Nat} (hi : i.toInt = k) :
    Int32.ofBitVec (acc + v * i) = .ofBitVec acc + .ofBitVec v * Int32.ofNat k := by
  have hk : BitVec.ofNat 32 k = i := by
    rw [← I32.toNat_of_toInt_eq hi, BitVec.ofNat_toNat, BitVec.setWidth_eq]
  rw [← hk]
  rfl

/-- The first `k` of `n` words have been summed: the sum so far, and the words that are left, make the
whole sum. -/
structure Summed (m : Memory 2 {}) (n k : Nat) (acc : I32) (m' : Memory 2 {}) : Prop where
  same : m' = m
  all : weightedSum k ((words m n).drop k) (.ofBitVec acc) = weightedSum 0 (words m n) 0

theorem Summed.weigh_eq_ok {n k : Nat} {acc i : I32} (hm : Ready m) (h : Summed m n k acc m')
    (hi : i.toInt = k) (hkn : k < n) (hk : k < 32768) :
    ∃ acc', weigh i acc m' = (.ok acc', m) ∧ Summed m n (k + 1) acc' m := by
  obtain ⟨rfl, hall⟩ := h
  have hload := hm.loadWord hi hk
  refine ⟨acc + (word m' k).toBitVec * i, Outcome.bind_of_ok hload, rfl, ?_⟩
  have hlen : k < (words m' n).length := by rwa [length_words]
  rw [List.drop_eq_getElem_cons hlen, getElem_words, weightedSum] at hall
  rw [ofBitVec_add_mul acc _ hi]
  exact hall

/-- **Summing** weighs the words by their positions. -/
theorem Ready.sum_eq_ok (hm : Ready m) {n : I32} (hn : n.toInt ≤ 32768) :
    sum n m = (.ok (weightedSum 0 (words m n.toInt.toNat) 0).toBitVec, m) := by
  have hweigh : ∀ (k : Nat) (i acc : I32) (m₁ : Memory 2 {}), i.toInt = k → k < n.toInt.toNat →
      Summed m n.toInt.toNat k acc m₁ →
      ∃ acc' m', weigh i acc m₁ = (.ok acc', m') ∧ Summed m n.toInt.toNat (k + 1) acc' m' := by
    intro k i acc m₁ hi hkn h
    obtain ⟨acc', hrun, h'⟩ := h.weigh_eq_ok hm hi hkn (by omega)
    exact ⟨acc', m, hrun, h'⟩
  obtain ⟨acc, m', hrun, rfl, hall⟩ := Running.countTo_ends (Summed m n.toInt.toNat) hweigh
    (i := 0) (k := 0) (s := 0) rfl (Nat.zero_le _) ⟨rfl, rfl⟩
  have hnil : (words m' n.toInt.toNat).drop n.toInt.toNat = [] :=
    List.drop_eq_nil_of_le (Nat.le_of_eq (length_words ..))
  rw [hnil, weightedSum] at hall
  rw [sum, hrun, ← hall]
  rfl

/-! ## The module -/

/-- The instances that calls lead to, whether they succeed or not. -/
inductive Reachable : Sorting → Prop where
  | instantiate {s : Sorting} (h : instantiate = .ok s) : Reachable s
  | call {s : Sorting} (h : Reachable s) (n seed : I32) : Reachable (s.fillSortSum n seed).2

theorem ready_of_instantiate {s : Sorting} (h : instantiate = .ok s) : Ready s.memory := by
  have hs : instantiate = .ok ⟨⟨Array.replicate (pageSize * 2) 0, 2⟩⟩ := rfl
  obtain rfl := Except.ok.inj (hs.symm.trans h)
  exact ⟨⟨Array.size_replicate, Nat.le_refl 2⟩, rfl⟩

theorem eq_mergeSort_of_perm {l l' : List Int32} (hsorted : l'.Pairwise (· ≤ ·)) (hperm : l'.Perm l) :
    l' = l.mergeSort fun a b => decide (a ≤ b) := by
  have hmerged : (l.mergeSort fun a b => decide (a ≤ b)).Pairwise (· ≤ ·) := by
    have htrans : ∀ a b c : Int32, decide (a ≤ b) → decide (b ≤ c) → decide (a ≤ c) := by
      intro a b c hab hbc
      exact decide_eq_true (Int32.le_trans (of_decide_eq_true hab) (of_decide_eq_true hbc))
    have htotal : ∀ a b : Int32, decide (a ≤ b) || decide (b ≤ a) := by
      intro a b
      simpa using Int32.le_total a b
    exact (List.pairwise_mergeSort htrans htotal l).imp of_decide_eq_true
  refine List.Perm.eq_of_pairwise (fun a b _ _ hab hba => Int32.le_antisymm hab hba) hsorted hmerged ?_
  exact hperm.trans (List.mergeSort_perm ..).symm

theorem Ready.call_eq_ok {s : Sorting} (hm : Ready s.memory) {n : I32} (hn : n.toInt ≤ 32768)
    (seed : I32) :
    ∃ m₁ m₂, fill n seed s.memory = (.ok (), m₁) ∧
      words m₁ n.toInt.toNat = numbers n.toInt.toNat (.ofBitVec seed) ∧
      sort n m₁ = (.ok (), m₂) ∧ Ordered m₁ n.toInt.toNat m₂ ∧
      s.fillSortSum n seed = (.ok (plain n seed), ⟨m₂⟩) := by
  obtain ⟨m₁, hfill, hm₁, hwords⟩ := hm.fill_eq_ok hn seed
  obtain ⟨m₂, hsort, hordered⟩ := hm₁.sort_eq_ok hn
  have hsum := hordered.ready.sum_eq_ok hn
  refine ⟨m₁, m₂, hfill, hwords, hsort, hordered, ?_⟩
  rw [eq_mergeSort_of_perm hordered.sorted hordered.perm, hwords] at hsum
  rw [fillSortSum, Outcome.bind_of_ok hfill, Outcome.bind_of_ok hsort, hsum]
  rfl

theorem Ready.call_eq_error {s : Sorting} (hm : Ready s.memory) {n : I32} (hn : 32768 < n.toInt)
    (seed : I32) :
    ∃ m', s.fillSortSum n seed = (.error (.trap .outOfBounds), ⟨m'⟩) ∧ Ready m' := by
  obtain ⟨m', hfill, hm'⟩ := hm.fill_eq_error hn seed
  refine ⟨m', ?_, hm'⟩
  rw [fillSortSum, Outcome.bind_of_error hfill]

theorem Reachable.ready {s : Sorting} (h : s.Reachable) : Ready s.memory := by
  induction h with
  | instantiate h => exact ready_of_instantiate h
  | call _ n seed ih =>
    by_cases hn : n.toInt ≤ 32768
    · obtain ⟨m₁, m₂, -, -, -, hordered, hcall⟩ := ih.call_eq_ok hn seed
      rw [hcall]
      exact hordered.ready
    · obtain ⟨m', hcall, hm'⟩ := ih.call_eq_error (Int.lt_of_not_ge hn) seed
      rw [hcall]
      exact hm'

/-- **The module computes the plain sum**, whatever calls were made before, if its words fit in the
memory, and traps otherwise. Sorting leaves a permutation in order. -/
theorem Reachable.call_plain {s : Sorting} (h : s.Reachable) (n seed : I32) :
    (n.toInt ≤ 32768 → (s.fillSortSum n seed).1 = .ok (plain n seed) ∧
      ∃ m₁ m₂, fill n seed s.memory = (.ok (), m₁) ∧
        words m₁ n.toInt.toNat = numbers n.toInt.toNat (.ofBitVec seed) ∧
        sort n m₁ = (.ok (), m₂) ∧ (s.fillSortSum n seed).2.memory = m₂ ∧
        (words m₂ n.toInt.toNat).Pairwise (· ≤ ·) ∧
        (words m₂ n.toInt.toNat).Perm (words m₁ n.toInt.toNat) ∧
        ∀ x, 4 * n.toInt.toNat ≤ x → m₂.contents[x]? = m₁.contents[x]?) ∧
    (32768 < n.toInt → (s.fillSortSum n seed).1 = .error (.trap .outOfBounds)) := by
  have hm := h.ready
  refine ⟨fun hn => ?_, fun hn => ?_⟩
  · obtain ⟨m₁, m₂, hfill, hwords, hsort, hordered, hcall⟩ := hm.call_eq_ok hn seed
    refine ⟨congrArg Prod.fst hcall, m₁, m₂, hfill, hwords, hsort, ?_, hordered.sorted, hordered.perm,
      hordered.outside⟩
    rw [hcall]
  · obtain ⟨m', hcall, -⟩ := hm.call_eq_error hn seed
    rw [hcall]

/-- A call that fills the memory to its end after one that has trapped, and another one that traps. -/
theorem Reachable.call_plain_after_trap :
    let s : Sorting := ⟨⟨Array.replicate (pageSize * 2) 0, 2⟩⟩
    let trapped := (s.fillSortSum 40000 7).2
    s.Reachable ∧ trapped.Reachable ∧ (s.fillSortSum 40000 7).1 = .error (.trap .outOfBounds) ∧
      (trapped.fillSortSum 32768 9).1 = .ok (plain 32768 9) ∧
      (trapped.fillSortSum (-5) 9).1 = .ok (plain (-5) 9) ∧
      (trapped.fillSortSum 32769 9).1 = .error (.trap .outOfBounds) := by
  intro s trapped
  have hs : s.Reachable := .instantiate rfl
  have htrapped : trapped.Reachable := hs.call 40000 7
  refine ⟨hs, htrapped, ?_, ?_, ?_, ?_⟩
  · exact (Reachable.call_plain hs 40000 7).2 (by decide)
  · exact ((Reachable.call_plain htrapped 32768 9).1 (by decide)).1
  · exact ((Reachable.call_plain htrapped (-5) 9).1 (by decide)).1
  · exact (Reachable.call_plain htrapped 32769 9).2 (by decide)

end Sorting

end WasmSandbox.Guest
