import WasmSandbox.Guest.Loop

/-!
# Counting bytes

* `Histogram.countAndWeigh`, `Histogram.reset`: functions that run on every linear memory. They count
  the bytes of a prefix in 16-bit words from address 256 on, and weigh the counts of the first sixteen
  byte values.
* `Histogram.instantiate`: the memory of a new instance, one page that may grow to two, with eight bytes
  of data.
-/

namespace WasmSandbox.Guest

namespace Histogram

abbrev countsBase : I32 := 256

/-- How many byte values are weighed and reset. -/
abbrev buckets : I32 := 16

/-- The address of the count of a byte value. -/
def countAddress (value : I32) : Address := I32.address (countsBase + value * 2)

section Functions

variable {M : Type} [LinearMemory M]

/-- Count the byte at address `i`. -/
def countByte (i : I32) : Running M Unit := do
  let value : BitVec 8 ← Running.loadWord .w8 (I32.address i)
  let slot := countAddress (value.setWidth 32)
  let c : BitVec 16 ← Running.loadWord .w16 slot
  Running.storeWord .w16 slot ((c.setWidth 32 + 1#32).setWidth 16)

/-- Count the first `n` bytes. -/
def count (n : I32) : Running M Unit := Running.countTo n (fun i _ => countByte i) 0 ()

/-- Add the count of byte value `b`, read as signed and multiplied by the value. -/
def weighCount (b : I32) (total : I64) : Running M I64 := do
  let c : BitVec 16 ← Running.loadWord .w16 (countAddress b)
  return total + c.signExtend 64 * b.signExtend 64

def weigh : Running M I64 := Running.countTo buckets weighCount 0 0

/-- Count the first `n` bytes, and weigh the counts. -/
def countAndWeigh (n : I32) : Running M I64 := do
  count n
  weigh

/-- Set the counts that are weighed to zero. -/
def reset : Running M Unit := Running.fill countsBase 0 (buckets * 2)

end Functions

def data : List Byte := [3, 1, 4, 1, 5, 9, 2, 6]

/-- The memory of a new instance. -/
def instantiate : Outcome (Memory 2 {}) := do
  let memory : Memory 2 {} ← (Memory.create 1).mapError SizeError.fault
  match memory.initData 0 data with
  | (.ok (), memory) => return memory
  | (.error e, _) => throw e

end Histogram

end WasmSandbox.Guest
