import WasmSandbox.Memory.Config
import WasmSandbox.Patch

/-!
# Linear memory

* `Memory max cfg`: storage for `max` pages, of which the first `pages` are active.
* `Memory.create`: a zeroed memory.
* `Memory.grow`: make more pages active. A reversed memory keeps its contents at the top of the active
  region, so growing moves them up.
* `Memory.hostBytes`, `Memory.hostRead`, `Memory.hostWrite`: the active region as the host sees it.
-/

namespace WasmSandbox

abbrev pageSize : Nat := 65536

/-- A linear memory of at most `maxPages` pages. -/
structure Memory (maxPages : Nat) (config : Config) where
  storage : Array Byte
  pages : Nat

/-- A size, if it fits in 64 bits. -/
def addressable (n : Nat) : Outcome Nat :=
  if n < UInt64.size then .ok n else .error (.breach .arithmetic)

namespace Memory

variable {maxPages : Nat} {config : Config}

/-- A memory of zeros with `initial` active pages. -/
def create (initial : Nat) : Except SizeError (Memory maxPages config) :=
  if initial ≤ maxPages then .ok ⟨Array.replicate (pageSize * maxPages) 0, initial⟩
  else .error (.memoryPages initial maxPages)

/-- The number of active bytes. -/
def activeSize (m : Memory maxPages config) : Nat := pageSize * m.pages

/-- The number of active bytes, computed in 64 bits. -/
def extent (m : Memory maxPages config) : Outcome Nat := addressable m.activeSize

/-- The number of bytes in the slice over the active region, which is empty if the storage is too
short for the region. -/
def sliceSize (m : Memory maxPages config) : Nat :=
  if m.activeSize ≤ m.storage.size then m.activeSize else 0

def size (m : Memory maxPages config) : I32 := BitVec.ofNat 32 m.pages

/-- Write a patch, unless computing it failed. -/
def patch (m : Memory maxPages config) :
    Outcome (Patch Byte) → Outcome Unit × Memory maxPages config
  | .ok p => (.ok (), { m with storage := p.write m.storage })
  | .error e => (.error e, m)

/-- Write a patch that is computed from the memory as it is. -/
def write (f : Memory maxPages config → Outcome (Patch Byte)) : Effect (Memory maxPages config) Unit :=
  fun m => m.patch (f m)

/-! ## Growing -/

/-- Set a slice of the storage to zero. -/
def zeroSlice (start stop : Nat) : Effect (Memory maxPages config) Unit :=
  write fun m =>
    if start ≤ stop ∧ stop ≤ m.storage.size then .ok (Patch.fill start (stop - start) 0)
    else .error (.breach .sliceRange)

/-- Move the first `n` bytes of the storage up. The ranges may overlap. -/
def moveUp (n distance : Nat) : Effect (Memory maxPages config) Unit :=
  write fun m =>
    if distance + n ≤ m.storage.size then .ok ⟨distance, (m.storage.extract 0 n).toList⟩
    else .error (.breach .sliceRange)

/-- Make the new bytes of `pages'` pages zeros. In a reversed memory they lie below the old bytes. -/
def growth (pages' : Nat) : Effect (Memory maxPages config) Unit := do
  let old ← addressable (pageSize * (← get).pages)
  let new ← addressable (pageSize * pages')
  match config.layout with
  | .little => zeroSlice old new
  | .reversed =>
    moveUp old (new - old)
    zeroSlice 0 (new - old)

/-- The instruction `memory.grow`: the previous number of pages, or -1 if there may not be that many
pages. -/
def grow (m : Memory maxPages config) (delta : I32) : Outcome I32 × Memory maxPages config :=
  let old := m.pages
  let new := old + delta.toNat
  if new ≤ maxPages then
    match growth new m with
    | (.ok (), m') => (.ok (BitVec.ofNat 32 old), { m' with pages := new })
    | (.error e, m') => (.error e, m')
  else (.ok (-1), m)

/-! ## The host's view -/

/-- The active bytes in host order. -/
def hostBytes (m : Memory maxPages config) : Array Byte := m.storage.extract 0 m.sliceSize

/-- `n` active bytes from a host index on. -/
def hostRead (m : Memory maxPages config) (start n : Nat) : Option (List Byte) :=
  if start + n ≤ m.sliceSize then some (m.storage.extract start (start + n)).toList else none

/-- Write bytes from a host index on, all of them into the active region. -/
def hostWrite (m : Memory maxPages config) (start : Nat) (bs : List Byte) :
    Outcome Unit × Memory maxPages config :=
  m.patch <|
    if start + bs.length ≤ m.sliceSize then .ok ⟨start, bs⟩ else .error (.breach .sliceRange)

end Memory

end WasmSandbox
