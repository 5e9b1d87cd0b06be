import Mathlib.Tactic.Common
import WasmSandbox.Table.Func
import WasmSandbox.TailCall.Trampoline

/-!
# Tail calls agree with direct calls

* **`SlotM.store_spec`**: values that are stored can be loaded again, and the slots after them keep what
  they held.
* `Func.callOnStack_eq`: a call through the slots is the call itself, between loading and storing.
* `TailCall.trampoline_ofFunc`: the run of a function without a step of its own is one call.
* **`Func.tail_call_eq`**: the run of a tail call, scheduled directly or through a table, ends as the
  function does, with its results in the first slots or with the stack untouched.
-/

namespace WasmSandbox

/-! ## Storing and loading -/

namespace SlotM

theorem get_apply (t : NumType) {i : Nat} (h : i < slotCount) (s : SlotStack) :
    get t i s = (.ok (t.ofSlot (s.slot i h)), s) := by
  rw [get, SlotStack.get_of_lt _ _ h]
  rfl

theorem set_apply (t : NumType) {i : Nat} (h : i < slotCount) (v : t.Value) (s : SlotStack) :
    set t i v s = (.ok (), ⟨s.slots.set i (t.toSlot v)⟩) := by
  rw [set, SlotStack.set_of_lt _ _ h]

theorem storeFrom_spec {ts : List NumType} {i : Nat} (hi : i + ts.length ≤ slotCount)
    (vs : Values ts) (s : SlotStack) :
    ∃ s', storeFrom i ts vs s = (.ok (), s') ∧ loadFrom i ts s' = (.ok vs, s') ∧
      ∀ j (hj : j < slotCount), j < i ∨ i + ts.length ≤ j → s'.slot j hj = s.slot j hj := by
  induction ts generalizing i s with
  | nil => exact ⟨s, rfl, rfl, fun _ _ _ => rfl⟩
  | cons t ts ih =>
    obtain ⟨v, vs⟩ := vs
    rw [List.length_cons] at hi
    have hlt : i < slotCount := by omega
    obtain ⟨s', hstore, hload, hframe⟩ :=
      ih (i := i + 1) (by omega) vs ⟨s.slots.set i (t.toSlot v)⟩
    have hv : s'.slot i hlt = t.toSlot v := by
      rw [hframe i hlt (.inl (Nat.lt_succ_self i))]
      exact s.slot_set_self hlt _
    refine ⟨s', ?_, ?_, ?_⟩
    · rw [storeFrom, Outcome.bind_apply, set_apply t hlt]
      exact hstore
    · rw [loadFrom, Outcome.bind_apply, get_apply t hlt]
      simp only
      rw [Outcome.bind_apply, hload, hv, NumType.ofSlot_toSlot]
      rfl
    · intro j hj hout
      rw [List.length_cons] at hout
      rw [hframe j hj (by omega)]
      exact s.slot_set_of_ne hlt hj (by omega) _

/-- **Values that are stored in the first slots can be loaded again**, and the slots after them keep
what they held. -/
theorem store_spec {ts : List NumType} (hts : ts.length ≤ slotCount) (vs : Values ts)
    (s : SlotStack) :
    ∃ s', store ts vs s = (.ok (), s') ∧ load ts s' = (.ok vs, s') ∧
      ∀ j (hj : j < slotCount), ts.length ≤ j → s'.slot j hj = s.slot j hj := by
  obtain ⟨s', hstore, hload, hframe⟩ := storeFrom_spec (i := 0) (by omega) vs s
  exact ⟨s', hstore, hload, fun j hj hout => hframe j hj (.inr (by omega))⟩

end SlotM

/-! ## The default step -/

section Default

variable {m : Type → Type} {ι C W : Type} {σ : Signature} [MonadLiftT m (Effect W)]

/-- A call whose arguments lie in the first slots is the call itself, followed by storing its
results. -/
theorem Func.callOnStack_eq (f : Func m C σ) (c : C) {args : Values σ.params} {s : Machine W}
    (hload : SlotM.load σ.params s.stack = (.ok args, s.stack)) :
    f.callOnStack c s =
      match (liftM (f c args) : Effect W (Values σ.results)) s.world with
      | (.ok r, world) => Machine.onStack (SlotM.store σ.results r) { s with world }
      | (.error e, world) => (.error e, { s with world }) := by
  rw [callOnStack, Outcome.bind_of_ok (Machine.onStack_apply hload)]
  rcases hf : (liftM (f c args) : Effect W (Values σ.results)) s.world with ⟨e | r, world⟩
  · exact Outcome.bind_of_error (Machine.onWorld_apply hf)
  · exact Outcome.bind_of_ok (Machine.onWorld_apply hf)

/-- The default step takes one turn, and then nothing is left to run. -/
theorem TailCall.trampoline_ofFunc (family : StepFamily m ι C W) (f : Func m C σ) (c : C)
    (s : Machine W) : ∃ h, (ofFunc f c).trampoline family s h = f.callOnStack c s := by
  have hrun : (ofFunc f c).run family ⟨s, none⟩ =
      ((f.callOnStack c s).1, ⟨(f.callOnStack c s).2, none⟩) := by
    rw [run_ofFunc]
    rfl
  rcases hcall : f.callOnStack c s with ⟨e | _, s'⟩
  · rw [hcall] at hrun
    have hs := advance_of_error hrun
    exact ⟨.of_inr hs, repeatUntil_inr hs _⟩
  · rw [hcall] at hrun
    have hs := advance_of_ok hrun
    exact ⟨.of_inl hs (.of_inr advance_none), (repeatUntil_inl hs _).trans (repeatUntil_inr advance_none _)⟩

end Default

/-! ## Slots of a table -/

section Slots

variable {m : Type → Type} {ι C : Type} {σ : Signature}

theorem Table.lookup_ofFunc {f : Func m C σ} {c : C} {maxSize : Nat}
    {t : Table (FuncRef m ι C) maxSize} {i : BitVec 32}
    (h : t.slots[i.toNat]? = some (some (.ofFunc f c))) :
    t.lookup i σ.funcType = .ok (.ofFunc f c) := by
  rw [lookup, h]
  exact if_pos rfl

theorem Table.callIndirect_ofFunc {f : Func m C σ} {c : C} {maxSize : Nat}
    {t : Table (FuncRef m ι C) maxSize} {i : BitVec 32}
    (h : t.slots[i.toNat]? = some (some (.ofFunc f c))) : t.callIndirect i σ = .ok ⟨f, c⟩ := by
  rw [callIndirect, lookup_ofFunc h]
  simp only [FuncRef.ofFunc, Entry.restore_erase]

theorem Table.returnCallIndirect_ofFunc {f : Func m C σ} {c : C} {maxSize : Nat}
    {t : Table (FuncRef m ι C) maxSize} {i : BitVec 32}
    (h : t.slots[i.toNat]? = some (some (.ofFunc f c))) (next : Option (TailCall m ι C)) :
    t.returnCallIndirect i σ next = (.ok (), some (.ofFunc f c)) := by
  rw [returnCallIndirect, lookup_ofFunc h]
  rfl

end Slots

/-! ## Tail calls and direct calls -/

/-- **A tail call ends as the direct call does**, whatever the stack held, with its results in the first
slots or, if the function fails, with the stack untouched. -/
theorem Func.tail_call_eq {ι C W : Type} {σ : Signature} (family : StepFamily Outcome ι C W)
    (f : Func Outcome C σ) (c : C) (args : Values σ.params) (s₀ : SlotStack) (w : W) :
    ∃ s, SlotM.store σ.params args s₀ = (.ok (), s) ∧
    ∃ h : Halts (TailCall.advance family) ⟨⟨s, w⟩, some (TailCall.ofFunc f c)⟩,
    ∃ r s', (TailCall.ofFunc f c).trampoline family ⟨s, w⟩ h = (r, ⟨s', w⟩) ∧
      (r = .ok () ↔ ∃ results, f c args = .ok results) ∧
      (∀ results, f c args = .ok results → SlotM.load σ.results s' = (.ok results, s') ∧
        ∀ j (hj : j < slotCount), σ.results.length ≤ j → s'.slot j hj = s.slot j hj) ∧
      (∀ e, f c args = .error e → r = .error e ∧ s' = s) ∧
      (∀ (maxSize : Nat) (t : Table (FuncRef Outcome ι C) maxSize) (i : BitVec 32),
        t.slots[i.toNat]? = some (some (.ofFunc f c)) →
          (∀ next, t.returnCallIndirect i σ next = (.ok (), some (.ofFunc f c))) ∧
          (t.callIndirect i σ >>= fun callee => callee.func callee.owner args) =
            (r >>= fun _ => (SlotM.load σ.results s').1)) := by
  have hparams : σ.params.length ≤ slotCount := Nat.le_trans σ.params_le (by decide)
  have hresults : σ.results.length ≤ slotCount := Nat.le_trans σ.results_le (by decide)
  obtain ⟨s, hstore, hload, -⟩ := SlotM.store_spec hparams args s₀
  obtain ⟨h, hrun⟩ := TailCall.trampoline_ofFunc family f c ⟨s, w⟩
  rw [f.callOnStack_eq (s := ⟨s, w⟩) c hload] at hrun
  refine ⟨s, hstore, h, ?_⟩
  cases hf : f c args with
  | ok results =>
    obtain ⟨s', hstore', hload', hframe⟩ := SlotM.store_spec hresults results s
    have hend : (TailCall.ofFunc f c).trampoline family ⟨s, w⟩ h = (.ok (), ⟨s', w⟩) := by
      rw [hrun, hf]
      exact Machine.onStack_apply hstore'
    refine ⟨.ok (), s', hend, ⟨fun _ => ⟨results, rfl⟩, fun _ => rfl⟩, ?_, nofun, ?_⟩
    · rintro _ ⟨⟩
      exact ⟨hload', hframe⟩
    · intro maxSize t i ht
      refine ⟨Table.returnCallIndirect_ofFunc ht, ?_⟩
      rw [Table.callIndirect_ofFunc ht, hload']
      exact hf
  | error e =>
    have hend : (TailCall.ofFunc f c).trampoline family ⟨s, w⟩ h = (.error e, ⟨s, w⟩) := by
      rw [hrun, hf]
      rfl
    refine ⟨.error e, s, hend, ⟨nofun, nofun⟩, nofun, ?_, ?_⟩
    · rintro _ ⟨⟩
      exact ⟨rfl, rfl⟩
    · intro maxSize t i ht
      refine ⟨Table.returnCallIndirect_ofFunc ht, ?_⟩
      rw [Table.callIndirect_ofFunc ht]
      exact hf

/-- A long and a short value are swapped over a stack that is not clean, from a slot of a table. -/
theorem Func.tail_call_eq_of_swap :
    let σ : Signature := { params := [.i64, .f32], results := [.f32, .i64] }
    let swap : Func Outcome Unit σ := fun _ (x, y, _) => .ok (y, x, ())
    let t : Table (FuncRef Outcome Empty Unit) 1 := ⟨#v[some (.ofFunc swap ())], 1⟩
    let family : StepFamily Outcome Empty Unit Nat := fun label => label.elim
    let args : Values σ.params := (-1, F32.ofWord 0x7fa00001, ())
    ∃ s, SlotM.store σ.params args ⟨Vector.replicate slotCount 5⟩ = (.ok (), s) ∧
      ∃ h : Halts (TailCall.advance family) ⟨⟨s, 3⟩, some (.ofFunc swap ())⟩,
      ∃ s', TailCall.trampoline family (.ofFunc swap ()) ⟨s, 3⟩ h = (.ok (), ⟨s', 3⟩) ∧
        SlotM.load σ.results s' = (.ok (F32.ofWord 0x7fa00001, -1, ()), s') ∧
        t.returnCallIndirect 0 σ none = (.ok (), some (.ofFunc swap ())) := by
  intro σ swap t family args
  obtain ⟨s, hstore, h, r, s', hrun, hok, hresults, -, htable⟩ :=
    Func.tail_call_eq family swap () args ⟨Vector.replicate slotCount 5⟩ 3
  cases hok.mpr ⟨_, rfl⟩
  exact ⟨s, hstore, h, s', hrun, (hresults _ rfl).1, (htable 1 t 0 rfl).1 none⟩

end WasmSandbox
