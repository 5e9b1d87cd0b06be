import Mathlib.Tactic.Common
import WasmSandbox.Memory.Script
import WasmSandbox.Proofs.Memory.Writes

/-!
# The policy cannot be observed

* `Memory.withPolicy`, `MemoryPair.withPolicy`: the same memories under another policy.
* `PairOp.RunsInBounds`: no load and no store of a script leaves the active region.
* `AccessPath.perform_withPolicy`: an operation does the same under another policy, if it stays in
  bounds or if both policies end an access out of bounds alike.
* `PairOp.run_withPolicy`: so does a script.
* **`PairOp.run_policies`**: an explicit check and a guard region accept the same accesses, and no
  script tells them apart; a script in bounds needs neither.
-/

namespace WasmSandbox

/-! ## Another policy -/

section WithPolicy

variable {maxPages max₁ max₂ : Nat} {policy : Policy} {layout : Layout}

/-- The same memory under another policy. -/
def Memory.withPolicy (q : Policy) (m : Memory maxPages ⟨policy, layout⟩) :
    Memory maxPages ⟨q, layout⟩ := ⟨m.storage, m.pages⟩

def MemoryPair.withPolicy (q : Policy) (p : MemoryPair max₁ max₂ ⟨policy, layout⟩) :
    MemoryPair max₁ max₂ ⟨q, layout⟩ := ⟨p.first.withPolicy q, p.second.withPolicy q⟩

/-- The operation is no access, or its access lies within the active region. -/
def GuestOp.InBounds (m : Memory maxPages ⟨policy, layout⟩) : GuestOp → Prop
  | .load k addr => addr.toNat + k.width.bytes ≤ m.sliceSize
  | .store k addr => addr.toNat + k.width.bytes ≤ m.sliceSize
  | _ => True

def MemoryOp.InBounds (m : Memory maxPages ⟨policy, layout⟩) : MemoryOp → Prop
  | .guest op => op.InBounds m
  | _ => True

def PairOp.InBounds (p : MemoryPair max₁ max₂ ⟨policy, layout⟩) : PairOp → Prop
  | .first op => op.InBounds p.first
  | .second op => op.InBounds p.second
  | _ => True

/-- Each operation of a script is in bounds when its turn comes. -/
def PairOp.RunsInBounds (path : AccessPath layout) (ops : List PairOp)
    (p : MemoryPair max₁ max₂ ⟨policy, layout⟩) : Prop :=
  RunsWithin (exec path) (fun op p => op.InBounds p) ops p

/-! ## Operations on one memory -/

namespace Memory

variable {m : Memory maxPages ⟨policy, layout⟩} {q : Policy}

@[simp] theorem withPolicy_pages : (m.withPolicy q).pages = m.pages := rfl

@[simp] theorem withPolicy_extent : (m.withPolicy q).extent = m.extent := rfl

@[simp] theorem withPolicy_sliceSize : (m.withPolicy q).sliceSize = m.sliceSize := rfl

theorem withPolicy_patch (p : Outcome (Patch Byte)) :
    (m.withPolicy q).patch p = Prod.map id (withPolicy q) (m.patch p) := by
  cases p <;> rfl

theorem sliceSize_le : m.sliceSize ≤ m.activeSize := by
  unfold sliceSize
  split_ifs
  · exact Nat.le_refl _
  · exact Nat.zero_le _

theorem withPolicy_locate {addr : Address} {w : Width}
    (h : policy.miss = q.miss ∨ addr.toNat + w.bytes ≤ m.sliceSize) :
    (m.withPolicy q).locate addr w.bytes = m.locate addr w.bytes := by
  rw [locate, locate, withPolicy_extent, withPolicy_sliceSize, extent, addressable]
  by_cases hactive : m.activeSize < UInt64.size
  · have hsize : m.sliceSize < UInt64.size := Nat.lt_of_le_of_lt sliceSize_le hactive
    rw [if_pos hactive, Outcome.ok_bind, Outcome.ok_bind, Config.locate_eq _ _ _ hsize,
      Config.locate_eq _ _ _ hsize]
    rcases h with hmiss | hin
    · rw [hmiss]
    · have hw : (BitVec.ofNat 64 w.bytes).toNat = w.bytes := by cases w <;> rfl
      rw [hw, if_pos hin, if_pos hin]
  · rw [if_neg hactive, Outcome.error_bind, Outcome.error_bind]

theorem withPolicy_loadWord {addr : Address} {w : Width}
    (h : policy.miss = q.miss ∨ addr.toNat + w.bytes ≤ m.sliceSize) :
    (m.withPolicy q).loadWord w addr = m.loadWord w addr := by
  rw [loadWord, loadWord, withPolicy_locate h]
  rfl

theorem withPolicy_storeWord {addr : Address} {w : Width} (v : BitVec w.bits)
    (h : policy.miss = q.miss ∨ addr.toNat + w.bytes ≤ m.sliceSize) :
    (m.withPolicy q).storeWord w addr v = Prod.map id (withPolicy q) (m.storeWord w addr v) := by
  rw [storeWord, withPolicy_locate h, withPolicy_patch, storeWord]

theorem withPolicy_growth {pages' : Nat} (hle : m.pages ≤ pages') :
    growth pages' (m.withPolicy q) = Prod.map id (withPolicy q) (growth pages' m) := by
  rw [m.growth_eq hle, (m.withPolicy q).growth_eq hle]
  exact withPolicy_patch _

theorem withPolicy_grow (delta : I32) :
    (m.withPolicy q).grow delta = Prod.map id (withPolicy q) (m.grow delta) := by
  simp only [grow, withPolicy_pages, withPolicy_growth (Nat.le_add_right ..)]
  by_cases hnew : m.pages + delta.toNat ≤ maxPages
  · rw [if_pos hnew, if_pos hnew]
    rcases growth (m.pages + delta.toNat) m with ⟨_ | _, _⟩ <;> rfl
  · rw [if_neg hnew, if_neg hnew]
    rfl

/-- The bulk operations check their ranges under every policy. -/
theorem withPolicy_fill (dst : I32) (value : Byte) (len : I32) :
    (m.withPolicy q).fill dst value len = Prod.map id (withPolicy q) (m.fill dst value len) :=
  withPolicy_patch _

theorem withPolicy_copy (dst src len : I32) :
    (m.withPolicy q).copy dst src len = Prod.map id (withPolicy q) (m.copy dst src len) :=
  withPolicy_patch _

theorem withPolicy_copyFrom {otherPages : Nat} {o : Memory otherPages ⟨policy, layout⟩}
    (dst src len : I32) :
    (m.withPolicy q).copyFrom (o.withPolicy q) dst src len =
      Prod.map id (withPolicy q) (m.copyFrom o dst src len) :=
  withPolicy_patch _

theorem withPolicy_init (data : List Byte) (dst src len : I32) :
    (m.withPolicy q).init data dst src len =
      Prod.map id (withPolicy q) (m.init data dst src len) := by
  rw [init_eq, init_eq]
  exact withPolicy_patch _

theorem withPolicy_initData (offset : I32) (data : List Byte) :
    (m.withPolicy q).initData offset data = Prod.map id (withPolicy q) (m.initData offset data) := by
  unfold initData
  split_ifs
  · exact withPolicy_init ..
  · rfl

theorem withPolicy_hostWrite (start : Nat) (bs : List Byte) :
    (m.withPolicy q).hostWrite start bs = Prod.map id (withPolicy q) (m.hostWrite start bs) :=
  withPolicy_patch _

theorem perform_interface (op : GuestOp) : LinearMemory.perform m op = m.perform op := by
  cases op with
  | load k addr => cases k <;> rfl
  | store k addr => cases k <;> rfl
  | size | grow delta | fill dst value len | copy dst src len | init data dst src len => rfl

theorem withPolicy_perform {op : GuestOp} (h : policy.miss = q.miss ∨ op.InBounds m) :
    (m.withPolicy q).perform op = Prod.map id (withPolicy q) (m.perform op) := by
  cases op with
  | load k addr =>
    rw [perform, load, withPolicy_loadWord h]
    rfl
  | store k addr =>
    rw [perform, store, withPolicy_storeWord _ h]
    rfl
  | size => rfl
  | grow delta =>
    rw [perform, withPolicy_grow]
    rfl
  | fill dst value len =>
    rw [perform, withPolicy_fill]
    rfl
  | copy dst src len =>
    rw [perform, withPolicy_copy]
    rfl
  | init data dst src len =>
    rw [perform, withPolicy_init]
    rfl

end Memory

/-! ## Segments -/

namespace Segment

variable {g : Segment maxPages policy} {q : Policy}

def withPolicy (q : Policy) (g : Segment maxPages policy) : Segment maxPages q :=
  ⟨g.memory.withPolicy q⟩

theorem withPolicy_wrap {α : Type} (x : α × Memory maxPages ⟨policy, .little⟩) :
    wrap (Prod.map id (Memory.withPolicy q) x) = Prod.map id (withPolicy q) (wrap x) := rfl

theorem withPolicy_storeWord (w : Width) (addr : Address) (v : BitVec w.bits) :
    (g.withPolicy q).storeWord w addr v = Prod.map id (withPolicy q) (g.storeWord w addr v) := by
  rw [storeWord, withPolicy, Memory.withPolicy_patch, withPolicy_wrap]
  rfl

/-- A segment tests the range of an access itself, whatever the policy. -/
theorem withPolicy_perform (op : GuestOp) :
    LinearMemory.perform (g.withPolicy q) op =
      Prod.map id (withPolicy q) (LinearMemory.perform g op) := by
  cases op with
  | load k addr => cases k <;> rfl
  | store k addr =>
    have hword (w : Width) (v : BitVec w.bits) :
        Answer.ofUnit ((g.withPolicy q).storeWord w addr v) =
          Prod.map id (withPolicy q) (Answer.ofUnit (g.storeWord w addr v)) := by
      rw [withPolicy_storeWord]
      rfl
    cases k <;> exact hword ..
  | size => rfl
  | grow delta =>
    change Answer.ofWord (wrap ((g.memory.withPolicy q).grow delta)) = _
    rw [Memory.withPolicy_grow]
    rfl
  | fill dst value len =>
    change Answer.ofUnit (wrap ((g.memory.withPolicy q).fill dst value len)) = _
    rw [Memory.withPolicy_fill]
    rfl
  | copy dst src len =>
    change Answer.ofUnit (wrap ((g.memory.withPolicy q).copy dst src len)) = _
    rw [Memory.withPolicy_copy]
    rfl
  | init data dst src len =>
    change Answer.ofUnit (wrap ((g.memory.withPolicy q).init data dst src len)) = _
    rw [Memory.withPolicy_init]
    rfl

end Segment

/-! ## Scripts -/

variable {q : Policy}

theorem AccessPath.withPolicy_perform (path : AccessPath layout)
    {m : Memory maxPages ⟨policy, layout⟩} {op : GuestOp}
    (h : policy.miss = q.miss ∨ op.InBounds m) :
    path.perform (m.withPolicy q) op = Prod.map id (Memory.withPolicy q) (path.perform m op) := by
  cases path with
  | own => exact Memory.withPolicy_perform h
  | interface =>
    rw [perform, perform, Memory.perform_interface, Memory.perform_interface]
    exact Memory.withPolicy_perform h
  | segment =>
    have hseg := Segment.withPolicy_perform (g := ⟨m⟩) (q := q) op
    rw [Segment.withPolicy] at hseg
    rw [perform, hseg]
    rfl

/-- **An operation does the same under another policy**, if it is in bounds or fails alike. -/
theorem MemoryOp.withPolicy_exec (path : AccessPath layout) {m : Memory maxPages ⟨policy, layout⟩}
    {op : MemoryOp} (h : policy.miss = q.miss ∨ op.InBounds m) :
    op.exec path (m.withPolicy q) = Prod.map id (Memory.withPolicy q) (op.exec path m) := by
  cases op with
  | guest op => exact path.withPolicy_perform h
  | initData offset data =>
    rw [exec, Memory.withPolicy_initData]
    rfl
  | pageCount | activeSize | runs | hostRead start n => rfl
  | hostWrite start bs =>
    rw [exec, Memory.withPolicy_hostWrite]
    rfl

theorem PairOp.withPolicy_exec (path : AccessPath layout)
    {p : MemoryPair max₁ max₂ ⟨policy, layout⟩} {op : PairOp}
    (h : policy.miss = q.miss ∨ op.InBounds p) :
    op.exec path (p.withPolicy q) = Prod.map id (MemoryPair.withPolicy q) (op.exec path p) := by
  cases op with
  | first op =>
    have hop := MemoryOp.withPolicy_exec (m := p.first) path h
    rw [MemoryPair.withPolicy]
    simp only [exec, hop]
    rfl
  | second op =>
    have hop := MemoryOp.withPolicy_exec (m := p.second) .own h
    rw [MemoryPair.withPolicy]
    simp only [exec, hop]
    rfl
  | copyFrom dst src len =>
    rw [MemoryPair.withPolicy]
    simp only [exec, Memory.withPolicy_copyFrom]
    rfl
  | copyTo dst src len =>
    rw [MemoryPair.withPolicy]
    simp only [exec, Memory.withPolicy_copyFrom]
    rfl

/-- **A script does the same under another policy**, if it stays in bounds or if both policies end an
access out of bounds alike. -/
theorem PairOp.withPolicy_run (path : AccessPath layout) {ops : List PairOp}
    {p : MemoryPair max₁ max₂ ⟨policy, layout⟩}
    (h : policy.miss = q.miss ∨ RunsInBounds path ops p) :
    run path ops (p.withPolicy q) = Prod.map id (MemoryPair.withPolicy q) (run path ops p) := by
  have hstep : ∀ (op : PairOp) (p : MemoryPair max₁ max₂ ⟨policy, layout⟩)
      (p' : MemoryPair max₁ max₂ ⟨q, layout⟩), policy.miss = q.miss ∨ op.InBounds p →
      p' = p.withPolicy q → (op.exec path p).1 = (op.exec path p').1 ∧
        (op.exec path p').2 = (op.exec path p).2.withPolicy q := by
    rintro op p _ hop rfl
    rw [withPolicy_exec path hop]
    exact ⟨rfl, rfl⟩
  obtain ⟨hanswers, hend⟩ := runAll_related id id _ hstep (RunsWithin.of_or h) rfl
  rw [List.map_id, List.map_id] at hanswers
  exact Prod.ext hanswers.symm hend

/-! ## The three policies -/

/-- **The policy cannot be observed.** A check and a guard region accept the accesses whose range lies
within the active region. A script in bounds needs neither. -/
theorem PairOp.run_policies (layout : Layout) :
    (∀ addr len size : Address,
      (∀ policy : Policy, policy.Enforcing → Config.locate ⟨policy, layout⟩ addr len size.toNat =
        if addr.toNat + len.toNat ≤ size.toNat then
          .ok (layout.start size.toNat addr.toNat len.toNat)
        else .error (.trap .outOfBounds)) ∧
      (addr.toNat + len.toNat ≤ size.toNat →
        layout.start size.toNat addr.toNat len.toNat + len.toNat ≤ size.toNat)) ∧
    (∀ (path : AccessPath layout) (p : MemoryPair max₁ max₂ ⟨.bounds, layout⟩) (ops : List PairOp)
      (n : Nat), run path (ops.take n) (p.withPolicy .guard) =
        Prod.map id (MemoryPair.withPolicy .guard) (run path (ops.take n) p)) ∧
    (∀ (path : AccessPath layout) (p : MemoryPair max₁ max₂ ⟨.unchecked, layout⟩)
      (ops : List PairOp), RunsInBounds path ops p → ∀ n : Nat,
        run path (ops.take n) (p.withPolicy .bounds) =
          Prod.map id (MemoryPair.withPolicy .bounds) (run path (ops.take n) p)) := by
  refine ⟨fun addr len size => ⟨fun policy hp => ?_, layout.start_add_le⟩, ?_, ?_⟩
  · rw [Config.locate_eq _ _ _ size.isLt, hp.miss_eq]
  · intro path p ops n
    exact withPolicy_run path (.inl rfl)
  · intro path p ops h n
    exact withPolicy_run path (.inr (h.take n))

/-- Accesses that end where the active region ends, and a fill that does not. -/
theorem PairOp.run_policies_at_the_end :
    let p : MemoryPair 1 0 ⟨.unchecked, .reversed⟩ :=
      ⟨⟨Array.replicate (pageSize * 1) 0, 1⟩, ⟨#[], 0⟩⟩
    let ops : List PairOp := [.first (.guest (.load .u64 65528)),
      .first (.guest (.store (.u32 7) 65532)), .first (.guest (.fill 65530 1 100))]
    RunsInBounds .own ops p ∧
      run .own (ops.take 3) (p.withPolicy .bounds) =
        Prod.map id (MemoryPair.withPolicy .bounds) (run .own (ops.take 3) p) ∧
      Config.locate ⟨.guard, .reversed⟩ 0 0 0 = .ok 0 ∧
      Config.locate ⟨.guard, .reversed⟩ 1 0 0 = .error (.trap .outOfBounds) := by
  intro p ops
  have hsize : p.first.sliceSize = 65536 := by
    rw [Memory.sliceSize, Memory.activeSize, Array.size_replicate, if_pos (Nat.le_refl _)]
    rfl
  have hin : RunsInBounds .own ops p := by
    refine ⟨?_, ?_, trivial, trivial⟩
    · change 65528 + 8 ≤ p.first.sliceSize
      exact Nat.le_of_eq hsize.symm
    · change 65532 + 4 ≤ p.first.sliceSize
      exact Nat.le_of_eq hsize.symm
  obtain ⟨hlocate, -, hrun⟩ := @run_policies 1 0 .reversed
  exact ⟨hin, hrun .own p ops hin 3, (hlocate 0 0 0).1 .guard (by decide),
    (hlocate 1 0 0).1 .guard (by decide)⟩

end WithPolicy

end WasmSandbox
