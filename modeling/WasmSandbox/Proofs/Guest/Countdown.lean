import Mathlib.Algebra.Ring.Int.Parity
import Mathlib.Tactic.Common
import Mathlib.Tactic.Ring
import WasmSandbox.Guest.Countdown
import WasmSandbox.Proofs.Table.Indirect
import WasmSandbox.Proofs.TailCall.Direct

/-!
# Counting down computes closed forms

* `Label.closedForm`: the word that a chain of tail calls leaves in slot 0. A tail call hands it on, and
  at zero it is the answer.
* `Countdown.Yields`: a frame on the way to a closed form. One turn keeps it, or ends with it.
* `Countdown.trampoline_own`: every chain of the module ends with its closed form.
* `Countdown.links`, `Countdown.instantiate_reachable`: the closures that the slots of the table hold.
* **`Countdown.closed_forms`**: the exports of the module on all words.
-/

namespace WasmSandbox.Guest.Countdown

/-! ## Chains -/

/-- The word that a chain of tail calls leaves in slot 0, by the stack that it starts on. -/
def Label.closedForm (s : SlotStack) : Label → BitVec 64
  | .even => if Even s.first.toNat then 1 else 0
  | .odd => if Odd s.first.toNat then 1 else 0
  | .sumTo => s.slot 1 SlotStack.one_lt_slotCount + BitVec.ofNat 64 (s.first.toNat * (s.first.toNat + 1) / 2)

theorem Label.first_finish (label : Label) {s : SlotStack} (h : s.first = 0) :
    (label.finish s).first = label.closedForm s := by
  cases label with
  | even =>
    rw [closedForm, h]
    exact s.slot_set_self (by decide) 1
  | odd =>
    rw [closedForm, h]
    exact s.slot_set_self (by decide) 0
  | sumTo =>
    rw [closedForm, h]
    exact (s.slot_set_self (by decide) _).trans (BitVec.add_zero _).symm

theorem Label.closedForm_handOver (label : Label) {s : SlotStack} (h : s.first ≠ 0) :
    label.next.closedForm (label.handOver s) = label.closedForm s := by
  have hfirst := label.first_handOver s
  obtain ⟨k, hk⟩ : ∃ k, s.first.toNat = k + 1 := Nat.exists_eq_add_one.mpr (by bv_omega)
  have hprevious : (s.first - 1).toNat = k := by bv_omega
  cases label with
  -- The other function answers for the number below as this one does for the number.
  | even =>
    rw [next, closedForm, closedForm, hfirst, hprevious, hk]
    exact if_congr (Nat.even_add_one.trans Nat.not_even_iff_odd).symm rfl rfl
  | odd =>
    rw [next, closedForm, closedForm, hfirst, hprevious, hk]
    exact if_congr (Nat.odd_add_one.trans Nat.not_odd_iff_even).symm rfl rfl
  | sumTo =>
    have hslot : (sumTo.handOver s).slot 1 = s.slot 1 + s.first := SlotStack.slot_set_self ⟨_⟩ _ _
    have hword : s.first = BitVec.ofNat 64 (k + 1) := by rw [← hk, BitVec.ofNat_toNat, BitVec.setWidth_eq]
    have hform : (k + 1) * (k + 1 + 1) / 2 = k + 1 + k * (k + 1) / 2 := by
      rw [show (k + 1) * (k + 1 + 1) = 2 * (k + 1) + k * (k + 1) by ring]
      exact Nat.mul_add_div Nat.two_pos (k + 1) _
    rw [next, closedForm, closedForm, hfirst, hprevious, hslot, hk, hform, BitVec.ofNat_add, ← hword,
      BitVec.add_assoc]

/-- A frame on the way to the word: the scheduled call has it as its closed form, or it is in slot 0 and
nothing is scheduled. -/
def Yields (e : Entry Outcome Unit) (w : BitVec 64) (frame : Frame Outcome Label Unit Unit) : Prop :=
  (∃ label, frame.next = some ⟨.own label, e, ()⟩ ∧ label.closedForm frame.stack = w) ∨
    frame.next = none ∧ frame.stack.first = w

/-- A run that has ended with the word in slot 0. -/
def Ends (w : BitVec 64) (r : Outcome Unit × Machine Unit) : Prop := r.1 = .ok () ∧ r.2.stack.first = w

section Yields

variable {e : Entry Outcome Unit} {w : BitVec 64} {frame : Frame Outcome Label Unit Unit}

theorem Yields.turn (h : Yields e w frame) :
    (∃ frame', TailCall.advance family frame = .inl frame' ∧ Yields e w frame') ∨
      ∃ r, TailCall.advance family frame = .inr r ∧ Ends w r := by
  obtain ⟨⟨s, ⟨⟩⟩, next⟩ := frame
  obtain ⟨label, rfl, hform⟩ | ⟨rfl, hfirst⟩ := h
  · have hrun := run_own e s label
    by_cases hzero : s.first = 0
    · rw [if_pos hzero] at hrun
      exact .inl ⟨_, TailCall.advance_of_ok hrun, .inr ⟨rfl, (label.first_finish hzero).trans hform⟩⟩
    · rw [if_neg hzero] at hrun
      exact .inl ⟨_, TailCall.advance_of_ok hrun,
        .inl ⟨label.next, rfl, (label.closedForm_handOver hzero).trans hform⟩⟩
  · exact .inr ⟨_, TailCall.advance_none, rfl, hfirst⟩

theorem Yields.next {frame' : Frame Outcome Label Unit Unit} (h : Yields e w frame)
    (hturn : TailCall.advance family frame = .inl frame') : Yields e w frame' := by
  obtain ⟨_, hs, hnext⟩ | ⟨_, hs, -⟩ := h.turn
  · cases hs.symm.trans hturn
    exact hnext
  · cases hs.symm.trans hturn

theorem Yields.last {r : Outcome Unit × Machine Unit} (h : Yields e w frame)
    (hturn : TailCall.advance family frame = .inr r) : Ends w r := by
  obtain ⟨_, hs, -⟩ | ⟨_, hs, hends⟩ := h.turn
  · cases hs.symm.trans hturn
  · cases hs.symm.trans hturn
    exact hends

end Yields

/-- **Every chain of the module ends with its closed form.** -/
theorem trampoline_own (label : Label) (e : Entry Outcome Unit) (s : SlotStack) (h) :
    Ends (label.closedForm s)
      ((⟨.own label, e, ()⟩ : TailCall Outcome Label Unit).trampoline family ⟨s, ()⟩ h) := by
  have hfirst : Yields e (label.closedForm s) ⟨⟨s, ()⟩, some ⟨.own label, e, ()⟩⟩ := .inl ⟨label, rfl, rfl⟩
  exact repeatUntil_of_invariant (fun _ _ h => h.next) (fun _ _ h => h.last) h hfirst

/-! ## Exports -/

theorem tailCall_own {params : List NumType} {args : Values params} {s : SlotStack}
    (hstore : SlotM.store params args {} = (.ok (), s)) (result : NumType) (label : Label)
    (e : Entry Outcome Unit) :
    tailCall params args result (some ⟨.own label, e, ()⟩) =
      .ok (result.ofSlot (label.closedForm s)) := by
  have hends := trampoline_own label e s (halts _)
  rw [tailCall, hstore]
  simp only [Option.elim_some, run]
  rcases hrun : TailCall.trampoline family ⟨.own label, e, ()⟩ ⟨s, ()⟩ (halts _) with ⟨r, s'⟩
  rw [hrun] at hends
  obtain ⟨rfl, hfirst⟩ : r = .ok () ∧ s'.stack.first = label.closedForm s := hends
  simp only
  rw [SlotStack.get_of_lt s'.stack result (by decide), ← hfirst]
  rfl

theorem store_one (n : I64) : ∃ s, SlotM.store [.i64] (n, ()) {} = (.ok (), s) ∧ s.first = n :=
  ⟨_, rfl, SlotStack.slot_set_self {} _ n⟩

theorem store_two (n acc : I64) :
    ∃ s, SlotM.store [.i64, .i64] (n, acc, ()) {} = (.ok (), s) ∧ s.first = n ∧ s.slot 1 = acc := by
  refine ⟨_, rfl, ?_, SlotStack.slot_set_self _ _ acc⟩
  exact (SlotStack.slot_set_of_ne _ _ _ (by decide) acc).trans (SlotStack.slot_set_self {} _ n)

theorem tailCall_predicate {label : Label} {n : I64} {p : Prop} [Decidable p]
    (hform : ∀ s : SlotStack, s.first = n → label.closedForm s = if p then 1 else 0)
    (e : Entry Outcome Unit) :
    tailCall [.i64] (n, ()) .i32 (some ⟨.own label, e, ()⟩) = .ok (if p then 1 else 0) := by
  obtain ⟨s, hstore, hfirst⟩ := store_one n
  rw [tailCall_own hstore, hform s hfirst]
  split_ifs <;> rfl

theorem even_toNat_iff (n : I64) : Even n.toNat ↔ Even n.toInt := by
  rw [Int.even_iff, Nat.even_iff, BitVec.toInt_eq_toNat_cond]
  split_ifs <;> omega

theorem odd_toNat_iff (n : I64) : Odd n.toNat ↔ Odd n.toInt := by
  rw [← Nat.not_even_iff_odd, ← Int.not_even_iff_odd, even_toNat_iff]

theorem tailCall_even (e : Entry Outcome Unit) (n : I64) :
    tailCall [.i64] (n, ()) .i32 (some ⟨.own .even, e, ()⟩) = .ok (if Even n.toInt then 1 else 0) := by
  refine tailCall_predicate (fun s hs => ?_) e
  rw [Label.closedForm, hs]
  exact if_congr (even_toNat_iff n) rfl rfl

theorem tailCall_odd (e : Entry Outcome Unit) (n : I64) :
    tailCall [.i64] (n, ()) .i32 (some ⟨.own .odd, e, ()⟩) = .ok (if Odd n.toInt then 1 else 0) := by
  refine tailCall_predicate (fun s hs => ?_) e
  rw [Label.closedForm, hs]
  exact if_congr (odd_toNat_iff n) rfl rfl

theorem sumTo_eq (n acc : I64) :
    sumTo n acc = .ok (acc + BitVec.ofNat 64 (n.toNat * (n.toNat + 1) / 2)) := by
  obtain ⟨s, hstore, hfirst, hsecond⟩ := store_two n acc
  rw [sumTo, tailCall_own hstore, Label.closedForm, hfirst, hsecond]
  rfl

theorem tailCall_ofFunc (f : Func Outcome Unit predicate) (n : I64) :
    tailCall [.i64] (n, ()) .i32 (some (.ofFunc f ())) = (f () (n, ())).map Prod.fst := by
  obtain ⟨s, hstore, hload, -⟩ := @SlotM.store_spec [.i64] (by decide) (n, ()) {}
  obtain ⟨h, hrun⟩ := TailCall.trampoline_ofFunc family f () ⟨s, ()⟩
  rw [f.callOnStack_eq (s := ⟨s, ()⟩) () hload] at hrun
  rw [tailCall, hstore]
  simp only [Option.elim_some, run, hrun]
  cases hf : f () (n, ()) with
  | error e => rfl
  | ok r =>
    obtain ⟨v, ⟨⟩⟩ := r
    have hresult : SlotM.store [.i32] (v, ()) s = (.ok (), ⟨s.slots.set 0 (NumType.i32.toSlot v)⟩) := rfl
    simp only [Effect.lift_apply, Machine.onStack_apply (s := ⟨s, ()⟩) hresult]
    rw [SlotStack.get_of_lt _ .i32 (by decide), SlotStack.slot_set_self, NumType.ofSlot_toSlot]
    rfl

/-! ## The table -/

/-- The closures that the slots hold. -/
def links : Slots (Closure Outcome Label Unit) :=
  [some ⟨predicate, evenFunc, (), some .even⟩, some ⟨predicate, oddFunc, (), some .odd⟩,
    some ⟨predicate, zeroFunc, (), none⟩]

theorem instantiate_reachable : ∃ c, instantiate = .ok c ∧ c.table.Reachable links := by
  have hcreate : Table.create 3 =
      .ok (⟨Vector.replicate 3 none, 3⟩ : Table (FuncRef Outcome Label Unit) 3) := rfl
  exact ⟨_, rfl, (Table.Reachable.create hcreate).initElements 0 links⟩

section Dispatch

variable {c : Countdown} (h : c.table.Reachable links)

include h

theorem dispatch_eq (n : I64) (op : I32) :
    c.dispatch n op =
      match op.toNat with
      | 0 => isEven n
      | 1 => isOdd n
      | 2 => .ok (if n = 0 then 1 else 0)
      | _ => .error (.trap .tableOutOfBounds) := by
  rw [dispatch, h.returnCallIndirect_eq]
  rcases op.toNat with _ | _ | _ | k
  · exact (tailCall_even _ n).trans (tailCall_even _ n).symm
  · exact (tailCall_odd _ n).trans (tailCall_odd _ n).symm
  · exact tailCall_ofFunc zeroFunc n
  · rfl

theorem dispatchMistyped_eq (op : I32) :
    c.dispatchMistyped op =
      .error (.trap (if op.toNat < 3 then .indirectCallTypeMismatch else .tableOutOfBounds)) := by
  rw [dispatchMistyped, h.returnCallIndirect_eq]
  rcases op.toNat with _ | _ | _ | k
  · rfl
  · rfl
  · rfl
  · rfl

end Dispatch

/-- **The module computes closed forms on all words**, directly and through its table, and its chains of tail
calls end. -/
theorem closed_forms :
    (∀ frame, Halts (TailCall.advance family) frame) ∧
    (∀ n, isEven n = .ok (if Even n.toInt then 1 else 0)) ∧
    (∀ n, isOdd n = .ok (if Odd n.toInt then 1 else 0)) ∧
    (∀ n acc, sumTo n acc = .ok (acc + BitVec.ofNat 64 (n.toNat * (n.toNat + 1) / 2))) ∧
    ∃ c, instantiate = .ok c ∧ ∀ op,
      (∀ n, c.dispatch n op =
        match op.toNat with
        | 0 => isEven n
        | 1 => isOdd n
        | 2 => .ok (if n = 0 then 1 else 0)
        | _ => .error (.trap .tableOutOfBounds)) ∧
      c.dispatchMistyped op =
        .error (.trap (if op.toNat < 3 then .indirectCallTypeMismatch else .tableOutOfBounds)) := by
  obtain ⟨c, hc, hlinks⟩ := instantiate_reachable
  exact ⟨halts, tailCall_even _, tailCall_odd _, sumTo_eq, c, hc,
    fun op => ⟨fun n => dispatch_eq hlinks n op, dispatchMistyped_eq hlinks op⟩⟩

end WasmSandbox.Guest.Countdown
