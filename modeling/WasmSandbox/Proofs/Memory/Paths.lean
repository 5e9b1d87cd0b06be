import WasmSandbox.Iteration
import WasmSandbox.Proofs.Memory.Policies
import WasmSandbox.Proofs.Memory.Reference

/-!
# The access path cannot be observed

* `Segment.locate_eq`: an access relative to a segment base tests the exact range under every policy.
* `Segment.perform_eq`: an operation through a segment base is the memory's own, if the policy tests
  ranges or the operation is in bounds.
* `Segment.load_apply`, `Segment.store_apply`: what loads and stores through a segment base do.
* `AccessPath.perform_eq_own`: so is an operation on any path.
* `AccessPath.run`, `AccessPath.RunsInBounds`: a sequence of guest operations on one memory.
* **`AccessPath.run_paths`**: the three paths give the same answers and leave the same memory.
-/

namespace WasmSandbox

variable {maxPages : Nat} {policy : Policy}

/-! ## Segments -/

namespace Segment

variable {m : Memory maxPages ⟨policy, .little⟩} (hm : m.Valid)

include hm

theorem locate_eq (addr : Address) (w : Width) :
    (Segment.mk m).locate addr w.bytes = do
      let size ← addressable m.contents.size
      inRange addr.toNat w.bytes size
      return addr.toNat := by
  have hw : (BitVec.ofNat 64 w.bytes).toNat = w.bytes := by cases w <;> rfl
  rw [locate, hm.extent_eq]
  cases hs : addressable m.contents.size with
  | error e => rfl
  | ok size =>
    obtain ⟨rfl, -⟩ := addressable_eq_ok hs
    rw [Outcome.ok_bind, Outcome.ok_bind, Policy.lift_check, hw, hm.size_contents]
    by_cases h : addr.toNat + w.bytes ≤ m.activeSize
    · have hstorage : addr.toNat + w.bytes ≤ m.storage.size := Nat.le_trans h hm.activeSize_le
      rw [inRange_of_le h, Outcome.ok_bind, Outcome.ok_bind, if_pos hstorage]
    · rw [inRange_of_not_le h, Outcome.error_bind, Outcome.error_bind]

/-- A policy that tests ranges, or an access in bounds, leaves no difference between the memory's own
path and the segment base. -/
theorem locate_eq_own {addr : Address} {w : Width}
    (h : policy.Enforcing ∨ addr.toNat + w.bytes ≤ m.sliceSize) :
    (Segment.mk m).locate addr w.bytes = m.locate addr w.bytes := by
  rw [locate_eq hm, hm.locate_eq]
  cases hs : addressable m.contents.size with
  | error e => rfl
  | ok size =>
    obtain ⟨rfl, -⟩ := addressable_eq_ok hs
    rw [Outcome.ok_bind, Outcome.ok_bind]
    rcases h with henf | hin
    · rw [henf.miss_eq]
      rfl
    · rw [hm.sliceSize_eq, ← hm.size_contents] at hin
      rw [inRange_of_le hin, inRange_of_le hin]
      rfl

theorem loadWord_eq {addr : Address} {w : Width}
    (h : policy.Enforcing ∨ addr.toNat + w.bytes ≤ m.sliceSize) :
    (Segment.mk m).loadWord w addr = m.loadWord w addr := by
  rw [loadWord, locate_eq_own hm h, Memory.loadWord]
  rfl

theorem storeWord_eq {addr : Address} {w : Width} (v : BitVec w.bits)
    (h : policy.Enforcing ∨ addr.toNat + w.bytes ≤ m.sliceSize) :
    (Segment.mk m).storeWord w addr v = wrap (m.storeWord w addr v) := by
  rw [storeWord, locate_eq_own hm h, Memory.storeWord]
  rfl

/-- **An operation through a segment base is the memory's own.** -/
theorem perform_eq {op : GuestOp} (h : policy.Enforcing ∨ op.InBounds m) :
    AccessPath.segment.perform m op = m.perform op := by
  cases op with
  | load k addr =>
    have hword := loadWord_eq hm h
    have hload : LinearMemory.load (Segment.mk m) k addr = m.load k addr := by
      rw [Memory.load, ← hword]
      cases k <;> rfl
    change (Except.map Answer.scalar (LinearMemory.load (Segment.mk m) k addr), m) = _
    rw [hload]
    rfl
  | store k addr =>
    have hword := storeWord_eq hm k.word h
    have hstore : LinearMemory.store (Segment.mk m) k addr = wrap (m.store k addr) := by
      rw [Memory.store, ← hword]
      cases k <;> rfl
    rw [AccessPath.perform, LinearMemory.perform, hstore]
    rfl
  | size | grow delta | fill dst value len | copy dst src len | init data dst src len => rfl

variable (hmax : pageSize * maxPages < UInt64.size)

include hmax

theorem locate_apply (addr : Address) (w : Width) :
    (Segment.mk m).locate addr w.bytes =
      if addr.toNat + w.bytes ≤ m.activeSize then .ok addr.toNat
      else .error (.trap .outOfBounds) := by
  have hlt := hm.size_contents_lt hmax
  rw [locate_eq hm, addressable, if_pos hlt, Outcome.ok_bind, hm.size_contents]
  by_cases h : addr.toNat + w.bytes ≤ m.activeSize
  · rw [inRange_of_le h, if_pos h]
    rfl
  · rw [inRange_of_not_le h, if_neg h]
    rfl

/-- **What a load through a segment base does**, under every policy. -/
theorem load_apply (k : Load) (addr : Address) :
    AccessPath.segment.perform m (.load k addr) =
      if addr.toNat + k.width.bytes ≤ m.activeSize then
        (.ok (.scalar (k.decode (k.width.ofBytes
          (m.storage.extract addr.toNat (addr.toNat + k.width.bytes)).toList))), m)
      else (.error (.trap .outOfBounds), m) := by
  have hload : LinearMemory.load (Segment.mk m) k addr =
      ((Segment.mk m).loadWord k.width addr).map k.decode := by
    cases k <;> rfl
  have hword := locate_apply hm hmax addr k.width
  change (Except.map Answer.scalar (LinearMemory.load (Segment.mk m) k addr), m) = _
  rw [hload, loadWord, hword]
  by_cases h : addr.toNat + k.width.bytes ≤ m.activeSize
  · rw [if_pos h, if_pos h]
    rfl
  · rw [if_neg h, if_neg h]
    rfl

theorem store_apply (k : Store) (addr : Address) :
    AccessPath.segment.perform m (.store k addr) =
      if addr.toNat + k.width.bytes ≤ m.activeSize then
        (.ok .unit, { m with storage := Patch.write ⟨addr.toNat, k.width.toBytes k.word⟩ m.storage })
      else (.error (.trap .outOfBounds), m) := by
  have hstore : LinearMemory.store (Segment.mk m) k addr =
      (Segment.mk m).storeWord k.width addr k.word := by
    cases k <;> rfl
  have hword := locate_apply hm hmax addr k.width
  rw [AccessPath.perform, LinearMemory.perform, hstore, storeWord, hword]
  by_cases h : addr.toNat + k.width.bytes ≤ m.activeSize
  · rw [if_pos h, if_pos h]
    rfl
  · rw [if_neg h, if_neg h]
    rfl

end Segment

/-! ## Sequences of guest operations -/

namespace AccessPath

variable {layout : Layout}

theorem perform_eq_own (path : AccessPath layout) {m : Memory maxPages ⟨policy, layout⟩} (hm : m.Valid)
    {op : GuestOp} (h : policy.Enforcing ∨ op.InBounds m) : path.perform m op = m.perform op := by
  cases path with
  | own => rfl
  | interface => exact Memory.perform_interface op
  | segment => exact Segment.perform_eq hm h

/-- Run guest operations on a memory that is reached in some way, with the answer of each. An operation
that fails does not end the run. -/
def run (path : AccessPath layout) (ops : List GuestOp) (m : Memory maxPages ⟨policy, layout⟩) :
    List (Outcome Answer) × Memory maxPages ⟨policy, layout⟩ :=
  runAll (fun op m => path.perform m op) ops m

/-- Each operation is in bounds when its turn comes. -/
def RunsInBounds (path : AccessPath layout) (ops : List GuestOp)
    (m : Memory maxPages ⟨policy, layout⟩) : Prop :=
  RunsWithin (fun op m => path.perform m op) (fun op m => op.InBounds m) ops m

theorem run_interface (ops : List GuestOp) (m : Memory maxPages ⟨policy, layout⟩) :
    AccessPath.interface.run ops m = AccessPath.own.run ops m := by
  have hperform : (fun op (m : Memory maxPages ⟨policy, layout⟩) => AccessPath.interface.perform m op) =
      fun op m => AccessPath.own.perform m op := by
    funext op m
    exact Memory.perform_interface op
  rw [run, run, hperform]

theorem run_segment {m : Memory maxPages ⟨policy, .little⟩} (hm : m.Valid) (ops : List GuestOp)
    (h : policy.Enforcing ∨ RunsInBounds .own ops m) :
    AccessPath.segment.run ops m = AccessPath.own.run ops m := by
  have hstep : ∀ (op : GuestOp) (m m' : Memory maxPages ⟨policy, .little⟩),
      policy.Enforcing ∨ op.InBounds m → m' = m ∧ m.Valid →
      (AccessPath.own.perform m op).1 = (AccessPath.segment.perform m' op).1 ∧
        (AccessPath.segment.perform m' op).2 = (AccessPath.own.perform m op).2 ∧
        (AccessPath.own.perform m op).2.Valid := by
    rintro op m _ hop ⟨rfl, hm⟩
    rw [AccessPath.segment.perform_eq_own hm hop]
    exact ⟨rfl, rfl, (hm.perform_refines op).valid⟩
  obtain ⟨hanswers, hend⟩ := runAll_related id id _ hstep (RunsWithin.of_or h) ⟨rfl, hm⟩
  rw [List.map_id, List.map_id] at hanswers
  exact Prod.ext hanswers.symm hend.1

/-- **The access path cannot be observed**, if the policy tests ranges or the accesses stay in bounds.
Through a segment base, exactly those in bounds succeed under every policy. -/
theorem run_paths (maxPages : Nat) (policy : Policy) :
    (∀ (layout : Layout) (m : Memory maxPages ⟨policy, layout⟩) (ops : List GuestOp),
      AccessPath.interface.run ops m = AccessPath.own.run ops m) ∧
    ∀ m : Memory maxPages ⟨policy, .little⟩, m.Valid →
      (∀ ops : List GuestOp, policy.Enforcing ∨ RunsInBounds .own ops m →
        AccessPath.segment.run ops m = AccessPath.own.run ops m) ∧
      (pageSize * maxPages < UInt64.size →
        (∀ (k : Load) (addr : Address), AccessPath.segment.perform m (.load k addr) =
          if addr.toNat + k.width.bytes ≤ m.activeSize then
            (.ok (.scalar (k.decode (k.width.ofBytes
              (m.storage.extract addr.toNat (addr.toNat + k.width.bytes)).toList))), m)
          else (.error (.trap .outOfBounds), m)) ∧
        ∀ (k : Store) (addr : Address), AccessPath.segment.perform m (.store k addr) =
          if addr.toNat + k.width.bytes ≤ m.activeSize then
            (.ok .unit,
              { m with storage := Patch.write ⟨addr.toNat, k.width.toBytes k.word⟩ m.storage })
          else (.error (.trap .outOfBounds), m)) := by
  refine ⟨fun layout m ops => run_interface ops m, fun m hm => ⟨fun ops h => run_segment hm ops h,
    fun hmax => ⟨fun k addr => ?_, fun k addr => ?_⟩⟩⟩
  · exact Segment.load_apply hm hmax k addr
  · exact Segment.store_apply hm hmax k addr

/-- Accesses that end where the active region of an unchecked memory ends, a fill that does not, and a
load that a segment base stops. -/
theorem run_paths_at_the_end :
    let m : Memory 1 ⟨.unchecked, .little⟩ := ⟨Array.replicate (pageSize * 1) 0, 1⟩
    let ops : List GuestOp := [.load .u64 65528, .store (.u32 7) 65532, .fill 65530 1 100]
    m.Valid ∧ RunsInBounds .own ops m ∧ pageSize * 1 < UInt64.size ∧
      AccessPath.interface.run ops m = AccessPath.own.run ops m ∧
      AccessPath.segment.run ops m = AccessPath.own.run ops m ∧
      AccessPath.segment.perform m (.load .u32 65533) = (.error (.trap .outOfBounds), m) := by
  intro m ops
  have hm : m.Valid := ⟨Array.size_replicate, Nat.le_refl _⟩
  have hsize : m.sliceSize = 65536 := hm.sliceSize_eq
  have hin : RunsInBounds .own ops m := by
    refine ⟨?_, ?_, trivial, trivial⟩
    · change 65528 + 8 ≤ m.sliceSize
      exact Nat.le_of_eq hsize.symm
    · change 65532 + 4 ≤ m.sliceSize
      exact Nat.le_of_eq hsize.symm
  have hmax : pageSize * 1 < UInt64.size := by decide
  obtain ⟨hinterface, hsegment⟩ := run_paths 1 .unchecked
  obtain ⟨hruns, haccess⟩ := hsegment m hm
  obtain ⟨hload, -⟩ := haccess hmax
  refine ⟨hm, hin, hmax, hinterface .little m ops, hruns ops (.inr hin), (hload .u32 65533).trans ?_⟩
  rw [if_neg (by change ¬ 65533 + 4 ≤ 65536; decide)]

end AccessPath

end WasmSandbox
