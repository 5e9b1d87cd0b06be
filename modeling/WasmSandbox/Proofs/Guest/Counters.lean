import Mathlib.Data.BitVec
import Mathlib.Tactic.Common
import WasmSandbox.Guest.Counters
import WasmSandbox.Iteration
import WasmSandbox.Proofs.Memory.Soundness
import WasmSandbox.Proofs.Memory.Words
import WasmSandbox.Proofs.Table.Indirect

/-!
# Linked counters stay apart

* `Counter.Shows`: the first word of the memory is the count, and the rest of it is zero. Bumping keeps it
  so, since its store never traps.
* `App.links`, `App.instantiate_reachable`: the closures that the slots of the linked module hold.
* `LinkedOp.target`: the call that a step comes to; `LinkedOp.exec_eq`: the step makes that call.
* `Counters.Moves`: a step adds to one counter and keeps both as `Counter.Shows` says.
  `LinkedOp.exec_moves`: every step does so; `LinkedOp.run_shows`: what a run of them adds.
* **`App.run_linked`**: after every run each counter shows the sum of what has reached it, by either
  route, and no step touches a counter that it is not directed at.
-/

namespace WasmSandbox.Guest

/-! ## One counter -/

namespace Counter

/-- The first word of the memory is the count, and all other bytes are zero. -/
structure Shows (c : Counter) : Prop where
  valid : c.memory.Valid
  size_eq : c.memory.contents.size = 65536
  word_eq : c.memory.contents.wordAt .w32 0 = c.count
  rest_eq : ∀ x, 4 ≤ x → x < 65536 → c.memory.contents[x]? = some 0

theorem instantiate_eq_ok : ∃ c, instantiate = .ok c ∧ c.Shows ∧ c.count = 0 := by
  obtain ⟨m, hcreate⟩ : ∃ m : Memory 1 {}, Memory.create 1 = .ok m := ⟨_, rfl⟩
  have hcontents : m.contents = Array.replicate 65536 0 := Memory.contents_of_create hcreate
  refine ⟨⟨m, 0⟩, ?_, ⟨Memory.valid_of_create hcreate, ?_, ?_, ?_⟩, rfl⟩
  · rw [instantiate, hcreate]
    rfl
  · rw [hcontents, Array.size_replicate]
  · rw [hcontents, Contents.wordAt, Array.extract_replicate]
    rfl
  · intro x _ hx
    rw [hcontents, Array.getElem?_replicate, if_pos hx]

variable {c : Counter} (h : c.Shows)

include h

theorem Shows.activeSize_eq : c.memory.activeSize = 65536 := by
  rw [← h.valid.size_contents, h.size_eq]

theorem Shows.activeSize_lt : c.memory.activeSize < UInt64.size := by
  rw [h.activeSize_eq]
  decide

theorem Shows.extent_eq : c.memory.extent = .ok 65536 := by
  rw [h.valid.extent_eq, h.size_eq]
  rfl

theorem Shows.first_add_le : (0 : Address).toNat + Width.w32.bytes ≤ c.memory.activeSize := by
  rw [h.activeSize_eq]
  decide

/-- **Bumping always succeeds**, and shows the new count. -/
theorem Shows.bump_eq_ok (amount : I32) :
    ∃ c', c.bump amount = (.ok (c.count + amount), c') ∧ c'.Shows ∧ c'.count = c.count + amount := by
  have hin := h.first_add_le
  obtain ⟨m, hstore, hvalid, hcontents⟩ :=
    h.valid.storeWord_eq_ok h.activeSize_lt hin (c.count + amount)
  rw [← h.valid.size_contents] at hin
  refine ⟨⟨m, c.count + amount⟩, ?_, ⟨hvalid, ?_, ?_, ?_⟩, rfl⟩
  · rw [bump, hstore]
  · rw [hcontents, Patch.size_write, h.size_eq]
  · rw [hcontents]
    exact Contents.wordAt_write .w32 (c.count + amount) hin
  · intro x hx hlt
    rw [hcontents, ← h.rest_eq x hx hlt]
    exact Contents.getElem?_write_of_outside .w32 (c.count + amount) (.inr hx)

theorem Shows.peek_zero : c.peek 0 = .ok c.count := by
  rw [← h.word_eq]
  exact h.valid.loadWord_eq_ok h.activeSize_lt h.first_add_le

theorem Shows.peek_sound (addr : I32) : (c.peek addr).Sound := by
  have hlt := h.activeSize_lt
  rw [← h.valid.size_contents] at hlt
  rw [peek, h.valid.loadWord_eq]
  exact Contents.loadWord_sound hlt .w32 addr.address

theorem Shows.load_rest {x : Address} (hx : 4 ≤ x.toNat) (hlt : x.toNat < 65536) :
    c.memory.load .u8 x = .ok (.u8 0) := by
  have hin : x.toNat + Load.u8.width.bytes ≤ c.memory.activeSize := h.activeSize_eq ▸ hlt
  rw [h.valid.load_eq_ok h.activeSize_lt hin]
  exact congrArg (Except.ok ∘ Scalar.u8) (Contents.wordAt_w8 (h.rest_eq _ hx hlt))

end Counter

/-! ## Two counters -/

namespace Counters

variable {cs : Counters} {side : Side} {amount : I32}

theorem instantiate_eq_ok :
    ∃ cs, instantiate = .ok cs ∧ ∀ side, (cs.get side).Shows ∧ (cs.get side).count = 0 := by
  obtain ⟨c, hc, hshows⟩ := Counter.instantiate_eq_ok
  refine ⟨⟨c, c⟩, ?_, fun side => ?_⟩
  · rw [instantiate, hc]
    rfl
  · cases side <;> exact hshows

theorem bump_eq {r : Outcome I32} {c : Counter} (h : (cs.get side).bump amount = (r, c)) :
    ∃ cs', bump side amount cs = (r, cs') ∧ cs'.get side = c ∧
      ∀ other, side ≠ other → cs'.get other = cs.get other := by
  obtain ⟨left, right⟩ := cs
  cases side with
  | left =>
    refine ⟨⟨c, right⟩, ?_, rfl, fun other hother => ?_⟩
    · change left.bump amount = (r, c) at h
      rw [bump, h]
    · cases other with
      | left => exact absurd rfl hother
      | right => rfl
  | right =>
    refine ⟨⟨left, c⟩, ?_, rfl, fun other hother => ?_⟩
    · change right.bump amount = (r, c) at h
      rw [bump, h]
    · cases other with
      | left => rfl
      | right => exact absurd rfl hother

end Counters

/-- What a step adds to the counter of a side, by the call that it comes to. -/
def Side.increment (side : Side) : Except Trap CounterCall → I32
  | .ok (.bump called amount) => if called = side then amount else 0
  | .ok (.peek ..) | .error _ => 0

/-- A step that comes to a call, or traps, adds what that says, touches no other counter, and leaves both
as they were unless it ends with a value. -/
structure Counters.Moves (cs : Counters) (target : Except Trap CounterCall)
    (step : Outcome I32 × Counters) : Prop where
  sound : step.1.Sound
  shows : ∀ side, (step.2.get side).Shows
  count_eq : ∀ side, (step.2.get side).count = (cs.get side).count + side.increment target
  other_eq : ∀ side, (∀ call, target = .ok call → call.side ≠ side) → step.2.get side = cs.get side
  error_eq : ∀ e, step.1 = .error e → step.2 = cs

section Moves

variable {cs : Counters} (hcs : ∀ side, (cs.get side).Shows)

include hcs

theorem Counters.Moves.of_idle {target : Except Trap CounterCall}
    (htarget : ∀ side : Side, side.increment target = 0) {r : Outcome I32} (hr : r.Sound) :
    cs.Moves target (r, cs) where
  sound := hr
  shows := hcs
  count_eq side := (htarget side).symm ▸ (BitVec.add_zero _).symm
  other_eq _ _ := rfl
  error_eq _ _ := rfl

theorem CounterCall.exec_moves (call : CounterCall) : cs.Moves (.ok call) (call.exec cs) := by
  cases call with
  | bump called amount =>
    obtain ⟨c, hbump, hshows, hcount⟩ := (hcs called).bump_eq_ok amount
    obtain ⟨cs', hexec, rfl, hother⟩ := Counters.bump_eq hbump
    rw [exec, hexec]
    refine ⟨.ok _, fun side => ?_, fun side => ?_, fun side hside => hother side (hside _ rfl), nofun⟩
    · by_cases hside : called = side
      · exact hside ▸ hshows
      · exact hother side hside ▸ hcs side
    · rw [Side.increment]
      split_ifs with hside
      · exact hside ▸ hcount
      · rw [hother side hside]
        exact (BitVec.add_zero _).symm
  | peek called addr => exact .of_idle hcs (fun _ => rfl) ((hcs called).peek_sound addr)

end Moves

/-! ## Slots of the linked module -/

namespace App

/-- The closures that the slots hold. -/
def links (imports : Imports) : Slots (Closure CountersM Empty Side) :=
  [some ⟨wordFunc, bumpFunc, imports.left, none⟩, some ⟨wordFunc, bumpFunc, imports.right, none⟩,
    some ⟨wordFunc, peekFunc, imports.left, none⟩, none]

/-- The elements of the segment, as elements that resolve to closures. -/
def closureElements : List (ClosureElem CountersM Empty Imports Side) :=
  [.func bumpFunc Imports.left none, .func bumpFunc Imports.right none,
    .global fun imports => some ⟨wordFunc, peekFunc, imports.left, none⟩, .null]

theorem instantiate_reachable (imports : Imports) :
    ∃ app, instantiate imports = .ok app ∧ app.table.Reachable (links imports) := by
  have hcreate : Table.create 4 =
      .ok (⟨Vector.replicate 4 none, 4⟩ : Table (FuncRef CountersM Empty Side) 4) := rfl
  exact ⟨_, rfl, (Table.Reachable.create hcreate).init imports closureElements 0 0 4⟩

variable {imports : Imports} {app : App}

theorem bumpVia_eq_func {slot : I32} {f : Func CountersM Side wordFunc} {owner : Side}
    (hslot : app.table.callIndirect slot wordFunc = .ok ⟨f, owner⟩) (amount : I32) :
    app.bumpVia slot amount = do return (← f owner (amount, ())).1 := by
  rw [bumpVia, hslot]
  rfl

theorem bumpVia_eq_throw {slot : I32} {e : Fault}
    (hslot : app.table.callIndirect slot wordFunc = .error e) (amount : I32) :
    app.bumpVia slot amount = throw e := by
  rw [bumpVia, hslot]
  rfl

theorem bumpFunc_eq (side : Side) (amount : I32) :
    (do return (← bumpFunc side (amount, ())).1 : CountersM I32) = Counters.bump side amount := by
  rw [bumpFunc, bind_assoc]
  simp only [pure_bind, bind_pure]

theorem peekFunc_eq (side : Side) (addr : I32) :
    (do return (← peekFunc side (addr, ())).1 : CountersM I32) = Counters.peek side addr := by
  rw [peekFunc, bind_assoc]
  simp only [pure_bind, bind_pure]

variable (h : app.table.Reachable (links imports)) (amount : I32)

include h

theorem bumpVia_zero : app.bumpVia 0 amount = Counters.bump imports.left amount := by
  rw [bumpVia_eq_func (h.callIndirect_eq 0 wordFunc), bumpFunc_eq]

theorem bumpVia_one : app.bumpVia 1 amount = Counters.bump imports.right amount := by
  rw [bumpVia_eq_func (h.callIndirect_eq 1 wordFunc), bumpFunc_eq]

theorem bumpVia_two : app.bumpVia 2 amount = Counters.peek imports.left amount := by
  rw [bumpVia_eq_func (h.callIndirect_eq 2 wordFunc), peekFunc_eq]

theorem bumpVia_three : app.bumpVia 3 amount = throw (.trap .undefinedElement) :=
  bumpVia_eq_throw (h.callIndirect_eq 3 wordFunc) amount

theorem bumpVia_of_le {slot : I32} (hslot : 4 ≤ slot.toNat) :
    app.bumpVia slot amount = throw (.trap .tableOutOfBounds) := by
  have hnone : (links imports)[slot.toNat]? = none := List.getElem?_eq_none hslot
  have hcall := h.callIndirect_eq slot wordFunc
  rw [hnone] at hcall
  exact bumpVia_eq_throw hcall amount

end App

/-! ## Steps and runs -/

namespace LinkedOp

/-- The call that a step comes to, or the trap that it ends with instead. -/
def target (imports : App.Imports) : LinkedOp → Except Trap CounterCall
  | direct call => .ok call
  | via slot amount =>
    match slot.toNat with
    | 0 => .ok (.bump imports.left amount)
    | 1 => .ok (.bump imports.right amount)
    | 2 => .ok (.peek imports.left amount)
    | 3 => .error .undefinedElement
    | _ => .error .tableOutOfBounds

variable {imports : App.Imports} {app : App} (h : app.table.Reachable (App.links imports))

include h

/-- **A step makes the call that it comes to.** -/
theorem exec_eq (op : LinkedOp) :
    op.exec app =
      match op.target imports with
      | .ok call => call.exec
      | .error t => throw (.trap t) := by
  cases op with
  | direct call => rfl
  | via slot amount =>
    rw [exec, target]
    have hslot {n : Nat} (hn : slot.toNat = n) : slot = BitVec.ofNat 32 n := by
      rw [← hn, BitVec.ofNat_toNat, BitVec.setWidth_eq]
    rcases hn : slot.toNat with _ | _ | _ | _ | n
    · exact hslot hn ▸ App.bumpVia_zero h amount
    · exact hslot hn ▸ App.bumpVia_one h amount
    · exact hslot hn ▸ App.bumpVia_two h amount
    · exact hslot hn ▸ App.bumpVia_three h amount
    · exact App.bumpVia_of_le h amount (by omega)

variable {cs : Counters} (hcs : ∀ side, (cs.get side).Shows)

include hcs

theorem exec_moves (op : LinkedOp) : cs.Moves (op.target imports) (op.exec app cs) := by
  rw [exec_eq h op]
  cases op.target imports with
  | ok call => exact call.exec_moves hcs
  | error t => exact .of_idle hcs (fun _ => rfl) (.trap t)

/-- **A run** adds up what its steps add. -/
theorem run_shows (ops : List LinkedOp) :
    ∀ side, ((runAll (exec app) ops cs).2.get side).Shows ∧
      ((runAll (exec app) ops cs).2.get side).count =
        (cs.get side).count + (ops.map fun op => side.increment (op.target imports)).sum := by
  induction ops generalizing cs with
  | nil => exact fun side => ⟨hcs side, (BitVec.add_zero _).symm⟩
  | cons op ops ih =>
    intro side
    have hmoves := exec_moves h hcs op
    obtain ⟨hshows, hcount⟩ := ih hmoves.shows side
    rw [runAll_cons]
    refine ⟨hshows, hcount.trans ?_⟩
    rw [hmoves.count_eq, List.map_cons, List.sum_cons, BitVec.add_assoc]

end LinkedOp

/-- **Linked counters stay apart.** Whatever is asked, directly or through slots, a counter is the sum of
all that was added to it, and its memory shows it. -/
theorem App.run_linked (imports : App.Imports) :
    ∃ cs₀ app, Counters.instantiate = .ok cs₀ ∧ App.instantiate imports = .ok app ∧
      (∀ x, app.bumpVia 0 x = Counters.bump imports.left x ∧
        app.bumpVia 1 x = Counters.bump imports.right x ∧
        app.bumpVia 2 x = Counters.peek imports.left x ∧
        app.bumpVia 3 x = throw (.trap .undefinedElement) ∧
        ∀ slot, slot ∉ [0, 1, 2, 3] → app.bumpVia slot x = throw (.trap .tableOutOfBounds)) ∧
      ∀ ops : List LinkedOp, let cs := (runAll (LinkedOp.exec app) ops cs₀).2
        (∀ side,
          (cs.get side).count = (ops.map fun op => side.increment (op.target imports)).sum ∧
          (cs.get side).peek 0 = .ok (cs.get side).count ∧
          (cs.get side).memory.extent = .ok 65536 ∧
          (∀ x : Address, 4 ≤ x.toNat → x.toNat < 65536 →
            (cs.get side).memory.load .u8 x = .ok (.u8 0)) ∧
          ∀ x, (Counters.bump side x cs).1 = .ok ((cs.get side).count + x)) ∧
        ∀ op : LinkedOp,
          (∀ side, (∀ call, op.target imports = .ok call → call.side ≠ side) →
            (op.exec app cs).2.get side = cs.get side) ∧
          ∀ e, (op.exec app cs).1 = .error e → (∃ t, e = .trap t) ∧ (op.exec app cs).2 = cs := by
  obtain ⟨cs₀, hcs₀, hnew⟩ := Counters.instantiate_eq_ok
  obtain ⟨app, happ, h⟩ := App.instantiate_reachable imports
  refine ⟨cs₀, app, hcs₀, happ, fun x => ?_, fun ops => ?_⟩
  · refine ⟨bumpVia_zero h x, bumpVia_one h x, bumpVia_two h x, bumpVia_three h x, fun slot hslot => ?_⟩
    simp only [List.mem_cons, List.not_mem_nil, or_false, not_or] at hslot
    exact bumpVia_of_le h x (by bv_omega)
  · have hrun := LinkedOp.run_shows h (fun side => (hnew side).1) ops
    generalize (runAll (LinkedOp.exec app) ops cs₀).2 = cs at hrun
    refine ⟨fun side => ?_, fun op => ?_⟩
    · obtain ⟨hshows, hcount⟩ := hrun side
      refine ⟨?_, hshows.peek_zero, hshows.extent_eq, fun x => hshows.load_rest, fun x => ?_⟩
      · rw [hcount, (hnew side).2]
        exact BitVec.zero_add _
      · obtain ⟨c, hbump, -⟩ := hshows.bump_eq_ok x
        obtain ⟨cs', hexec, -⟩ := Counters.bump_eq hbump
        rw [hexec]
    · have hmoves := LinkedOp.exec_moves h (fun side => (hrun side).1) op
      refine ⟨hmoves.other_eq, fun e he => ⟨?_, hmoves.error_eq e he⟩⟩
      have hsound := hmoves.sound
      rw [he] at hsound
      cases hsound with
      | trap t => exact ⟨t, rfl⟩

end WasmSandbox.Guest
