import WasmSandbox.Memory.Linear

/-!
# Access relative to a segment base

* `Segment max policy`: a memory whose storage begins at the base of an address segment, so that a
  guest address is an offset from that base.

Loads and stores check the active region first, under every policy, and then access the whole storage
in little-endian order; for that the layout has to be `little`. The other operations are those of the
memory.
-/

namespace WasmSandbox

/-- A memory that is reached through a segment base. -/
structure Segment (maxPages : Nat) (policy : Policy) where
  memory : Memory maxPages ⟨policy, .little⟩

namespace Segment

variable {maxPages : Nat} {policy : Policy}

/-- The offset of an access of `n` bytes that lies within the active region. -/
def locate (g : Segment maxPages policy) (addr : Address) (n : Nat) : Outcome Nat := do
  let active ← g.memory.extent
  Policy.bounds.check addr (BitVec.ofNat 64 n) active
  if addr.toNat + n ≤ g.memory.storage.size then return addr.toNat
  else throw (.breach .unchecked)

def loadWord (g : Segment maxPages policy) (w : Width) (addr : Address) :
    Outcome (BitVec w.bits) := do
  let start ← g.locate addr w.bytes
  return w.ofBytes (g.memory.storage.extract start (start + w.bytes)).toList

/-- Go on with the memory that an operation leaves. -/
def wrap {α : Type} : α × Memory maxPages ⟨policy, .little⟩ → α × Segment maxPages policy
  | (a, m) => (a, ⟨m⟩)

def storeWord (g : Segment maxPages policy) (w : Width) (addr : Address) (v : BitVec w.bits) :
    Outcome Unit × Segment maxPages policy :=
  wrap <| g.memory.patch <| do
    let start ← g.locate addr w.bytes
    return ⟨start, w.toBytes v⟩

instance : LinearMemory (Segment maxPages policy) where
  size g := g.memory.size
  grow g delta := wrap (g.memory.grow delta)
  loadWord := loadWord
  storeWord := storeWord
  fill g dst value len := wrap (g.memory.fill dst value len)
  copy g dst src len := wrap (g.memory.copy dst src len)
  init g data dst src len := wrap (g.memory.init data dst src len)

end Segment

end WasmSandbox
