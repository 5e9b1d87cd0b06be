import WasmSandbox.Memory.Access
import WasmSandbox.Memory.Bulk

/-!
# A memory that can grow

* `Scratchpad`: a guest module with a memory of one page that may grow to two, and a few bytes of data
  at address 16. It exports loads, stores, growth and bulk operations.
-/

namespace WasmSandbox.Guest

structure Scratchpad where
  memory : Memory 2 {}

namespace Scratchpad

/-- The active data segment: the letters of "wasm". -/
def data : List Byte := [0x77, 0x61, 0x73, 0x6d]

def instantiate : Outcome Scratchpad := do
  let memory : Memory 2 {} ← (Memory.create 1).mapError SizeError.fault
  match memory.initData 16 data with
  | (.ok (), memory) => return ⟨memory⟩
  | (.error e, _) => throw e

/-- Go on with the memory that an operation leaves. -/
def withMemory {α : Type} : α × Memory 2 {} → α × Scratchpad
  | (a, memory) => (a, ⟨memory⟩)

def getSize (s : Scratchpad) : I32 := s.memory.size

def grow (s : Scratchpad) (delta : I32) : Outcome I32 × Scratchpad := withMemory (s.memory.grow delta)

/-- Store a word and load it back. -/
def storeAndLoad (s : Scratchpad) (addr value : I32) : Outcome I32 × Scratchpad :=
  match s.memory.storeWord .w32 addr.address value with
  | (.ok (), memory) =>
    let r := memory.loadWord .w32 addr.address
    (r, ⟨memory⟩)
  | (.error e, memory) => (.error e, ⟨memory⟩)

/-- Load a byte and extend its sign. -/
def loadByteSigned (s : Scratchpad) (addr : I32) : Outcome I32 := do
  return Extension.signed.apply 32 (← s.memory.loadWord .w8 addr.address)

/-- Load a 16-bit word without a sign. -/
def loadHalfUnsigned (s : Scratchpad) (addr : I32) : Outcome I32 := do
  return Extension.unsigned.apply 32 (← s.memory.loadWord .w16 addr.address)

/-- Load a 32-bit word and extend its sign to 64 bits. -/
def loadWide (s : Scratchpad) (addr : I32) : Outcome I64 := do
  return Extension.signed.apply 64 (← s.memory.loadWord .w32 addr.address)

def storeByte (s : Scratchpad) (addr value : I32) : Outcome Unit × Scratchpad :=
  withMemory (s.memory.store (.i32As8 value) addr.address)

def fill (s : Scratchpad) (dst value len : I32) : Outcome Unit × Scratchpad :=
  withMemory (s.memory.fill dst (value.setWidth 8) len)

def copy (s : Scratchpad) (dst src len : I32) : Outcome Unit × Scratchpad :=
  withMemory (s.memory.copy dst src len)

end Scratchpad

end WasmSandbox.Guest
