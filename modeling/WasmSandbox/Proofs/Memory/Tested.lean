import WasmSandbox.Proofs.Memory.Paths
import WasmSandbox.Proofs.Memory.Words

/-!
# Computations on memories whose accesses are tested

A compiled function knows a memory by the interface only. Where every access is tested, the contents are all
that it can see, so what it does has to be proved only once.

* `LinearMemory.View`, `View.Holds`: memories of some type, as the contents that they stand for.
* `View.Tested`: accesses and fills are those of the contents, and an access out of bounds traps.
* `Memory.view_tested`, `Segment.view_tested`: a memory under a policy that tests ranges, and a segment
  under every policy.
* `AccessPath.compute`, `AccessPath.Tested`: run a computation on a memory that is reached in some way, and
  the ways that test every access.
* **`AccessPath.compute_of_tested`**: what a computation does from some contents on whatever tested memory
  it does on every such path.
-/

namespace WasmSandbox

namespace LinearMemory

/-- The contents that memories of some type stand for, and which of them are valid. -/
structure View (M : Type) where
  Valid : M → Prop
  contents : M → Contents

namespace View

variable {M : Type} {α : Type}

/-- A valid memory with the given contents. -/
structure Holds (V : View M) (bs : Contents) (m : M) : Prop where
  valid : V.Valid m
  contents_eq : V.contents m = bs

/-- An operation answers as one on contents, and leaves a memory that holds what that leaves. -/
structure Refines (V : View M) (x : Outcome α × M) (y : Outcome α × Contents) : Prop where
  outcome : x.1 = y.1
  holds : V.Holds y.2 x.2

variable [LinearMemory M]

/-- Accesses and fills do what they do on contents. An access out of bounds traps. -/
structure Tested (V : View M) : Prop where
  loadWord_eq : ∀ {bs : Contents} {m : M}, V.Holds bs m → ∀ (w : Width) (addr : Address),
    LinearMemory.loadWord m w addr = Contents.loadWord (.trap .outOfBounds) bs w addr
  storeWord_refines : ∀ {bs : Contents} {m : M}, V.Holds bs m →
    ∀ (w : Width) (addr : Address) (v : BitVec w.bits),
      V.Refines (LinearMemory.storeWord m w addr v)
        (Contents.storeWord (.trap .outOfBounds) bs w addr v)
  fill_refines : ∀ {bs : Contents} {m : M}, V.Holds bs m → ∀ (dst : I32) (value : Byte) (len : I32),
    V.Refines (LinearMemory.fill m dst value len) (bs.fill dst value len)

/-! ## What a computation sees -/

namespace Tested

variable {V : View M} (hV : V.Tested) {bs : Contents} {m : M} (hm : V.Holds bs m)
  (hlt : bs.size < UInt64.size)

include hV hm hlt

theorem loadWord_eq_ok {w : Width} {addr : Address} (h : addr.toNat + w.bytes ≤ bs.size) :
    Running.loadWord w addr m = (.ok (bs.wordAt w addr.toNat), m) := by
  have hload := hV.loadWord_eq hm w addr
  rw [Contents.loadWord, addressable, if_pos hlt, Outcome.ok_bind, inRange_of_le h] at hload
  exact congrArg (·, m) hload

theorem loadWord_eq_error {w : Width} {addr : Address} (h : ¬ addr.toNat + w.bytes ≤ bs.size) :
    Running.loadWord w addr m = (.error (.trap .outOfBounds), m) := by
  have hload := hV.loadWord_eq hm w addr
  rw [Contents.loadWord, addressable, if_pos hlt, Outcome.ok_bind, inRange_of_not_le h] at hload
  exact congrArg (·, m) hload

theorem storeWord_eq_ok {w : Width} {addr : Address} (h : addr.toNat + w.bytes ≤ bs.size)
    (v : BitVec w.bits) :
    ∃ m', Running.storeWord w addr v m = (.ok (), m') ∧
      V.Holds (Patch.write ⟨addr.toNat, w.toBytes v⟩ bs) m' := by
  have hr := hV.storeWord_refines hm w addr v
  rw [Contents.storeWord, addressable, if_pos hlt, Outcome.ok_bind, inRange_of_le h] at hr
  exact ⟨_, Prod.ext hr.outcome rfl, hr.holds⟩

theorem fill_eq_ok {dst len : I32} (h : dst.toNat + len.toNat ≤ bs.size) (value : Byte) :
    ∃ m', Running.fill dst value len m = (.ok (), m') ∧
      V.Holds ((Patch.fill dst.toNat len.toNat value).write bs) m' := by
  have hr := hV.fill_refines hm dst value len
  rw [Contents.fill, addressable, if_pos hlt, Outcome.ok_bind, inRange_of_le h] at hr
  exact ⟨_, Prod.ext hr.outcome rfl, hr.holds⟩

end Tested

end View

end LinearMemory

/-! ## Memories and segments -/

open LinearMemory (View)

section Views

variable {maxPages : Nat} {policy : Policy} {layout : Layout}

/-- A memory by its active bytes. -/
def Memory.view (maxPages : Nat) (config : Config) : View (Memory maxPages config) :=
  ⟨Memory.Valid, Memory.contents⟩

/-- A memory that is reached through a segment base, by its active bytes. -/
def Segment.view (maxPages : Nat) (policy : Policy) : View (Segment maxPages policy) :=
  ⟨fun g => g.memory.Valid, fun g => g.memory.contents⟩

theorem Refines.view {α : Type} {config : Config} {x : Outcome α × Memory maxPages config}
    {y : Outcome α × Contents} (h : Refines x y) : (Memory.view maxPages config).Refines x y :=
  ⟨h.outcome, h.valid, h.contents⟩

theorem Memory.view_tested (henf : policy.Enforcing) :
    (Memory.view maxPages ⟨policy, layout⟩).Tested where
  loadWord_eq := by
    rintro _ m ⟨hm, rfl⟩ w addr
    rw [← henf.miss_eq]
    exact Valid.loadWord_eq hm w addr
  storeWord_refines := by
    rintro _ m ⟨hm, rfl⟩ w addr v
    rw [← henf.miss_eq]
    exact (Valid.storeWord_refines hm w addr v).view
  fill_refines := by
    rintro _ m ⟨hm, rfl⟩ dst value len
    exact (Valid.fill_refines hm dst value len).view

theorem Memory.Valid.withPolicy {m : Memory maxPages ⟨policy, layout⟩} (hm : m.Valid) (q : Policy) :
    (m.withPolicy q).Valid := ⟨hm.size_storage, hm.pages_le⟩

theorem Segment.holds_of_withPolicy {q : Policy} {bs : Contents} {g : Segment maxPages policy}
    (h : (Segment.view maxPages q).Holds bs (g.withPolicy q)) : (Segment.view maxPages policy).Holds bs g :=
  ⟨Memory.Valid.withPolicy h.valid policy, h.contents_eq⟩

theorem Segment.view_tested : (Segment.view maxPages policy).Tested where
  loadWord_eq := by
    rintro _ ⟨m⟩ ⟨hm, rfl⟩ w addr
    have hb := hm.withPolicy .bounds
    exact (Segment.loadWord_eq hb (.inl (by decide))).trans (hb.loadWord_eq w addr)
  storeWord_refines := by
    rintro _ ⟨m⟩ ⟨hm, rfl⟩ w addr v
    have hb := hm.withPolicy .bounds
    have hr := hb.storeWord_refines w addr v
    have hown : (Segment.mk (m.withPolicy .bounds)).storeWord w addr v =
        wrap ((m.withPolicy .bounds).storeWord w addr v) :=
      Segment.storeWord_eq hb v (.inl (by decide))
    have hstore := hown.symm.trans (withPolicy_storeWord (g := ⟨m⟩) w addr v)
    have hbounds : (Segment.view maxPages .bounds).Refines
        (wrap ((m.withPolicy .bounds).storeWord w addr v))
        (Contents.storeWord (.trap .outOfBounds) m.contents w addr v) :=
      ⟨hr.outcome, hr.valid, hr.contents⟩
    rw [hstore] at hbounds
    exact ⟨hbounds.outcome, holds_of_withPolicy hbounds.holds⟩
  fill_refines := by
    rintro _ ⟨m⟩ ⟨hm, rfl⟩ dst value len
    have hr := hm.fill_refines dst value len
    exact ⟨hr.outcome, hr.valid, hr.contents⟩

end Views

/-! ## Paths -/

namespace AccessPath

variable {maxPages : Nat} {policy : Policy} {layout : Layout} {α : Type}

/-- Run a computation on a memory that is reached in some way. -/
def compute (x : {M : Type} → [LinearMemory M] → Running M α) : {layout : Layout} →
    AccessPath layout → Memory maxPages ⟨policy, layout⟩ →
      Outcome α × Memory maxPages ⟨policy, layout⟩
  | _, own, m | _, interface, m => x m
  | _, segment, m =>
    match x (Segment.mk m) with
    | (r, g) => (r, g.memory)

/-- Every access on the path is tested: by the policy, or by the segment itself. -/
def Tested (policy : Policy) : {layout : Layout} → AccessPath layout → Prop
  | _, own | _, interface => policy.Enforcing
  | _, segment => True

/-- **What a computation does on tested memories, it does on every tested path.** Its outcome is to depend on
the contents that it leaves. -/
theorem compute_of_tested {path : AccessPath layout} (hpath : path.Tested policy)
    {m : Memory maxPages ⟨policy, layout⟩} (hm : m.Valid)
    {x : {M : Type} → [LinearMemory M] → Running M α} {r : Contents → Outcome α} {post : Contents → Prop}
    (h : ∀ {M : Type} [LinearMemory M] {V : View M}, V.Tested → ∀ {g : M}, V.Holds m.contents g →
      ∃ g' bs, x g = (r bs, g') ∧ V.Holds bs g' ∧ post bs) :
    ∃ m', path.compute x m = (r m'.contents, m') ∧ m'.Valid ∧ post m'.contents := by
  cases path with
  | own | interface =>
    obtain ⟨m', _, hrun, ⟨hvalid, rfl⟩, hpost⟩ := h (Memory.view_tested hpath) ⟨hm, rfl⟩
    exact ⟨m', hrun, hvalid, hpost⟩
  | segment =>
    obtain ⟨g, _, hrun, ⟨hvalid, rfl⟩, hpost⟩ := h Segment.view_tested (g := Segment.mk m) ⟨hm, rfl⟩
    refine ⟨g.memory, ?_, hvalid, hpost⟩
    rw [compute, hrun]
    rfl

end AccessPath

end WasmSandbox
