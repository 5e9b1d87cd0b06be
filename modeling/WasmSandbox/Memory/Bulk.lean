import WasmSandbox.Memory.Basic

/-!
# Bulk operations

* `Memory.fill`, `Memory.copy`, `Memory.copyFrom`, `Memory.init`, `Memory.initData`: the bulk memory
  instructions and the loading of an active data segment.

Bulk operations check their ranges under every policy, and before they write, also when the range is
empty.
-/

namespace WasmSandbox

/-- The first index of the slice of `len` bytes from `start` on, out of `size` bytes. -/
def sliceStart (start len : Address) (size : Nat) : Outcome Nat :=
  if start.toNat + len.toNat ≤ size then .ok start.toNat else .error (.trap .outOfBounds)

namespace Memory

variable {maxPages : Nat} {config : Config}

def fill (m : Memory maxPages config) (dst : I32) (value : Byte) (len : I32) :
    Outcome Unit × Memory maxPages config :=
  m.patch <| do
    let active ← m.extent
    Policy.bounds.check dst.address len.address active
    let start := config.layout.hostIndex active dst.address len.address
    let start ← sliceStart start len.address m.sliceSize
    return Patch.fill start len.toNat value

/-- Copy `len` bytes within the memory. The ranges may overlap. -/
def copy (m : Memory maxPages config) (dst src len : I32) :
    Outcome Unit × Memory maxPages config :=
  m.patch <| do
    let active ← m.extent
    Policy.bounds.check dst.address len.address active
    Policy.bounds.check src.address len.address active
    let target := (config.layout.hostIndex active dst.address len.address).toNat
    let source := (config.layout.hostIndex active src.address len.address).toNat
    let stop ← addressable (source + len.toNat)
    if m.sliceSize < stop ∨ m.sliceSize < target + len.toNat then throw (.breach .sliceRange)
    return ⟨target, (m.storage.extract source stop).toList⟩

/-- Copy `len` bytes from another memory of the same configuration. -/
def copyFrom {sourcePages : Nat} (m : Memory maxPages config) (other : Memory sourcePages config)
    (dst src len : I32) : Outcome Unit × Memory maxPages config :=
  m.patch <| do
    let active ← m.extent
    let otherActive ← other.extent
    Policy.bounds.check dst.address len.address active
    Policy.bounds.check src.address len.address otherActive
    let source ← sliceStart (config.layout.hostIndex otherActive src.address len.address)
      len.address other.sliceSize
    let start ← sliceStart (config.layout.hostIndex active dst.address len.address)
      len.address m.sliceSize
    return ⟨start, (other.storage.extract source (source + len.toNat)).toList⟩

/-- The first index of the target of a part of a data segment, and that part. -/
def initTarget (m : Memory maxPages config) (data : List Byte) (dst src len : I32) :
    Outcome (Nat × List Byte) := do
  let active ← m.extent
  Policy.bounds.check src.address len.address data.length
  Policy.bounds.check dst.address len.address active
  let first ← sliceStart src.address len.address data.length
  let start ← sliceStart (config.layout.hostIndex active dst.address len.address)
    len.address m.sliceSize
  return (start, (data.drop first).take len.toNat)

/-- Copy bytes in guest order over `n` bytes of the storage. A reversed memory turns them around in
place. -/
def placePart (start n : Nat) (part : List Byte) : Effect (Memory maxPages config) Unit := do
  write fun _ => if part.length = n then .ok ⟨start, part⟩ else .error (.breach .sliceLength)
  match config.layout with
  | .little => return
  | .reversed => write fun m => .ok ⟨start, (m.storage.extract start (start + n)).toList.reverse⟩

/-- Copy `len` bytes of a data segment, from index `src` of the segment on. -/
def init (m : Memory maxPages config) (data : List Byte) (dst src len : I32) :
    Outcome Unit × Memory maxPages config :=
  match m.initTarget data dst src len with
  | .ok (start, part) => placePart start len.toNat part m
  | .error e => (.error e, m)

def initData (m : Memory maxPages config) (offset : I32) (data : List Byte) :
    Outcome Unit × Memory maxPages config :=
  if data.length < UInt32.size then m.init data offset 0 (BitVec.ofNat 32 data.length)
  else (.error (.trap .outOfBounds), m)

end Memory

end WasmSandbox
