import WasmSandbox.Memory.Linear

/-!
# Loops over an index

* `I32.next`, `I32.previous`: the index after and before an index. An index is a signed word, and a step
  that leaves the word is a breach.
* `Running.countTo`: a body run for each index from one up to a bound, which is excluded.
* `Running.countTo_reaches`, `Running.countTo_ends`: an assertion that the body carries from each index
  to the next is carried by the loop.
-/

namespace WasmSandbox

namespace I32

/-- The index after an index. -/
def next (i : I32) : Outcome { j : I32 // j.toInt = i.toInt + 1 } :=
  if h : (i + 1).toInt = i.toInt + 1 then .ok ⟨i + 1, h⟩ else .error (.breach .arithmetic)

def previous (i : I32) : Outcome { j : I32 // j.toInt = i.toInt - 1 } :=
  if h : (i - 1).toInt = i.toInt - 1 then .ok ⟨i - 1, h⟩ else .error (.breach .arithmetic)

theorem toNat_of_toInt_eq {i : I32} {k : Nat} (hi : i.toInt = k) : i.toNat = k := by
  rw [BitVec.toInt_eq_toNat_cond] at hi
  split at hi <;> omega

theorem next_eq_ok {i : I32} (h : i.toInt < 0x7fffffff) : ∃ j, i.next = .ok j := by
  have hi := BitVec.le_toInt i
  have hnext : (i + 1).toInt = i.toInt + 1 := by
    rw [BitVec.toInt_add]
    exact Int.bmod_eq_of_le (by simp; omega) (by simp; omega)
  exact ⟨⟨i + 1, hnext⟩, dif_pos hnext⟩

theorem previous_eq_ok {i : I32} (h : 0 ≤ i.toInt) : ∃ j, i.previous = .ok j := by
  have hprevious : (i - 1).toInt = i.toInt - 1 := I32.toInt_sub_of_nonneg h (by decide)
  exact ⟨⟨i - 1, hprevious⟩, dif_pos hprevious⟩

end I32

namespace Running

section CountTo

variable {M S : Type}

/-- Run the body for each index from `i` on that lies below `n`. -/
def countTo (n : I32) (body : I32 → S → Running M S) (i : I32) (s : S) : Running M S :=
  if i.toInt < n.toInt then do
    let s ← body i s
    let j ← i.next
    countTo n body j s
  else return s
termination_by (n.toInt - i.toInt).toNat
decreasing_by
  have := j.property
  omega

variable {n i : I32} {body : I32 → S → Running M S} {s : S} {m : M}

theorem countTo_done (h : ¬ i.toInt < n.toInt) : countTo n body i s m = (.ok s, m) := by
  rw [countTo, if_neg h]
  rfl

theorem countTo_step (h : i.toInt < n.toInt) {s' : S} {m' : M} (hbody : body i s m = (.ok s', m')) :
    ∃ j : I32, j.toInt = i.toInt + 1 ∧ countTo n body i s m = countTo n body j s' m' := by
  have hn := BitVec.toInt_lt (x := n)
  obtain ⟨j, hj⟩ := I32.next_eq_ok (i := i) (by omega)
  refine ⟨j, j.property, ?_⟩
  rw [countTo, if_pos h, Outcome.bind_of_ok hbody, hj, Outcome.lift_ok_bind]

theorem countTo_error (h : i.toInt < n.toInt) {e : Fault} {m' : M}
    (hbody : body i s m = (.error e, m')) : countTo n body i s m = (.error e, m') := by
  rw [countTo, if_pos h, Outcome.bind_of_error hbody]

/-- **What the body carries from each index to the next, the loop carries to any index on its way.** -/
theorem countTo_reaches (P : Nat → S → M → Prop) {stop : Nat} (hstop : stop ≤ n.toInt.toNat)
    (hbody : ∀ (k : Nat) (i : I32) (s : S) (m : M), i.toInt = k → k < stop → P k s m →
      ∃ s' m', body i s m = (.ok s', m') ∧ P (k + 1) s' m')
    {k : Nat} (hi : i.toInt = k) (hk : k ≤ stop) (h : P k s m) :
    ∃ (j : I32) (s' : S) (m' : M), j.toInt = stop ∧ P stop s' m' ∧
      countTo n body i s m = countTo n body j s' m' := by
  -- The induction is on the number of indices that are left.
  obtain ⟨left, hleft⟩ := Nat.exists_eq_add_of_le hk
  induction left generalizing k i s m with
  | zero =>
    rw [Nat.add_zero] at hleft
    subst hleft
    exact ⟨i, s, m, hi, h, rfl⟩
  | succ left ih =>
    have hlt : i.toInt < n.toInt := by omega
    obtain ⟨s₁, m₁, hrun, h₁⟩ := hbody k i s m hi (by omega) h
    obtain ⟨i₁, hi₁, hstep⟩ := countTo_step hlt hrun
    have hk₁ : i₁.toInt = (k + 1 : Nat) := by omega
    obtain ⟨j, s', m', hj, h', hrest⟩ := ih hk₁ (by omega) h₁ (by omega)
    exact ⟨j, s', m', hj, h', hstep.trans hrest⟩

theorem countTo_ends (P : Nat → S → M → Prop)
    (hbody : ∀ (k : Nat) (i : I32) (s : S) (m : M), i.toInt = k → k < n.toInt.toNat → P k s m →
      ∃ s' m', body i s m = (.ok s', m') ∧ P (k + 1) s' m')
    {k : Nat} (hi : i.toInt = k) (hk : k ≤ n.toInt.toNat) (h : P k s m) :
    ∃ s' m', countTo n body i s m = (.ok s', m') ∧ P n.toInt.toNat s' m' := by
  obtain ⟨j, s', m', hj, h', hrun⟩ := countTo_reaches P (Nat.le_refl _) hbody hi hk h
  have hend : ¬ j.toInt < n.toInt := by omega
  exact ⟨s', m', hrun.trans (countTo_done hend), h'⟩

end CountTo

end Running

end WasmSandbox
