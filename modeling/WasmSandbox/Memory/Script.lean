import WasmSandbox.Iteration
import WasmSandbox.Memory.Runs
import WasmSandbox.Memory.Segment

/-!
# Scripts on memories

* `GuestOp`: the operations of the interface of a linear memory; `Memory.perform` runs one by the
  memory's own operations and `LinearMemory.perform` through the interface.
* `AccessPath`: the ways to reach a memory; a segment base needs the layout `little`.
* `MemoryOp`: guest operations and those of the host.
* `MemoryPair`, `PairOp`: two memories of one configuration, and operations on either and between them.
* `PairOp.run`: a script of such operations, run in order, with the answer of each.
-/

namespace WasmSandbox

/-- The operations of the interface of a linear memory. -/
inductive GuestOp where
  | load (k : Load) (addr : Address)
  | store (k : Store) (addr : Address)
  | size
  | grow (delta : I32)
  | fill (dst : I32) (value : Byte) (len : I32)
  | copy (dst src len : I32)
  | init (data : List Byte) (dst src len : I32)

inductive Answer where
  | unit
  | scalar (v : Scalar)
  | word (v : I32)
  | count (n : Nat)
  | bytes (bs : Option (List Byte))
  | runs (rs : List Run)

namespace Answer

def ofUnit {M : Type} : Outcome Unit × M → Outcome Answer × M
  | (r, m) => (r.map fun _ => unit, m)

def ofWord {M : Type} : Outcome I32 × M → Outcome Answer × M
  | (r, m) => (r.map word, m)

end Answer

/-- Run a guest operation through the interface. -/
def LinearMemory.perform {M : Type} [LinearMemory M] (m : M) : GuestOp → Outcome Answer × M
  | .load k addr => ((load m k addr).map .scalar, m)
  | .store k addr => Answer.ofUnit (store m k addr)
  | .size => (.ok (.word (size m)), m)
  | .grow delta => Answer.ofWord (grow m delta)
  | .fill dst value len => Answer.ofUnit (fill m dst value len)
  | .copy dst src len => Answer.ofUnit (copy m dst src len)
  | .init data dst src len => Answer.ofUnit (init m data dst src len)

/-- Run a guest operation by the memory's own operations. -/
def Memory.perform {maxPages : Nat} {config : Config} (m : Memory maxPages config) :
    GuestOp → Outcome Answer × Memory maxPages config
  | .load k addr => ((m.load k addr).map .scalar, m)
  | .store k addr => Answer.ofUnit (m.store k addr)
  | .size => (.ok (.word m.size), m)
  | .grow delta => Answer.ofWord (m.grow delta)
  | .fill dst value len => Answer.ofUnit (m.fill dst value len)
  | .copy dst src len => Answer.ofUnit (m.copy dst src len)
  | .init data dst src len => Answer.ofUnit (m.init data dst src len)

/-- The ways to reach a memory of a layout. -/
inductive AccessPath : Layout → Type where
  /-- The memory's own operations. -/
  | own {layout : Layout} : AccessPath layout
  /-- The interface of a linear memory. -/
  | interface {layout : Layout} : AccessPath layout
  /-- The interface, relative to a segment base. -/
  | segment : AccessPath .little

/-- Run a guest operation on a memory that is reached in some way. -/
def AccessPath.perform {maxPages : Nat} {policy : Policy} :
    {layout : Layout} → AccessPath layout → Memory maxPages ⟨policy, layout⟩ → GuestOp →
      Outcome Answer × Memory maxPages ⟨policy, layout⟩
  | _, own, m, op => m.perform op
  | _, interface, m, op => LinearMemory.perform m op
  | _, segment, m, op =>
    match LinearMemory.perform (Segment.mk m) op with
    | (r, g) => (r, g.memory)

/-- Operations on one memory, those of the host included. -/
inductive MemoryOp where
  | guest (op : GuestOp)
  | initData (offset : I32) (data : List Byte)
  | pageCount
  | activeSize
  | runs
  | hostRead (start n : Nat)
  | hostWrite (start : Nat) (bs : List Byte)

/-- Run an operation on a memory; guest operations reach it in the given way. -/
def MemoryOp.exec {maxPages : Nat} {policy : Policy} {layout : Layout} (path : AccessPath layout)
    (m : Memory maxPages ⟨policy, layout⟩) :
    MemoryOp → Outcome Answer × Memory maxPages ⟨policy, layout⟩
  | guest op => path.perform m op
  | initData offset data => Answer.ofUnit (m.initData offset data)
  | pageCount => (.ok (.count m.pages), m)
  | activeSize => (m.extent.map .count, m)
  | runs => (.ok (.runs m.runs), m)
  | hostRead start n => (.ok (.bytes (m.hostRead start n)), m)
  | hostWrite start bs => Answer.ofUnit (m.hostWrite start bs)

structure MemoryPair (max₁ max₂ : Nat) (config : Config) where
  first : Memory max₁ config
  second : Memory max₂ config

/-- Two memories of zeros, with their initial numbers of pages. -/
def MemoryPair.create {max₁ max₂ : Nat} {config : Config} (initial₁ initial₂ : Nat) :
    Except SizeError (MemoryPair max₁ max₂ config) := do
  return ⟨← Memory.create initial₁, ← Memory.create initial₂⟩

inductive PairOp where
  | first (op : MemoryOp)
  | second (op : MemoryOp)
  /-- Copy into the first memory from the second. -/
  | copyFrom (dst src len : I32)
  /-- Copy into the second memory from the first. -/
  | copyTo (dst src len : I32)

/-- Run an operation on two memories; guest operations reach the first in the given way, and the
second by its own operations. -/
def PairOp.exec {max₁ max₂ : Nat} {policy : Policy} {layout : Layout} (path : AccessPath layout) :
    PairOp → MemoryPair max₁ max₂ ⟨policy, layout⟩ →
      Outcome Answer × MemoryPair max₁ max₂ ⟨policy, layout⟩
  | first op, ⟨a, b⟩ =>
    match op.exec path a with
    | (r, a) => (r, ⟨a, b⟩)
  | second op, ⟨a, b⟩ =>
    match op.exec .own b with
    | (r, b) => (r, ⟨a, b⟩)
  | copyFrom dst src len, ⟨a, b⟩ =>
    match Answer.ofUnit (a.copyFrom b dst src len) with
    | (r, a) => (r, ⟨a, b⟩)
  | copyTo dst src len, ⟨a, b⟩ =>
    match Answer.ofUnit (b.copyFrom a dst src len) with
    | (r, b) => (r, ⟨a, b⟩)

/-- Run a script. An operation that fails does not end it. -/
def PairOp.run {max₁ max₂ : Nat} {policy : Policy} {layout : Layout} (path : AccessPath layout)
    (ops : List PairOp) (p : MemoryPair max₁ max₂ ⟨policy, layout⟩) :
    List (Outcome Answer) × MemoryPair max₁ max₂ ⟨policy, layout⟩ :=
  runAll (exec path) ops p

end WasmSandbox
