import WasmSandbox.Memory.Access
import WasmSandbox.Memory.Bulk

/-!
# A module for a big-endian host

* `ReversedPad`: a guest module whose memory has the reversed layout: one page that may grow to four,
  eight bytes of data at address 0, and a passive segment. Guest code sees no difference; the host
  sees the region reversed.
-/

namespace WasmSandbox.Guest

abbrev ReversedPad.maxPages : Nat := 4

structure ReversedPad where
  memory : Memory ReversedPad.maxPages { layout := .reversed }

namespace ReversedPad

def data : List Byte := [1, 2, 3, 4, 5, 6, 7, 8]

/-- The passive data segment: the letters of "hello". -/
def passive : List Byte := [0x68, 0x65, 0x6c, 0x6c, 0x6f]

def instantiate : Outcome ReversedPad := do
  let memory : Memory maxPages { layout := .reversed } ← (Memory.create 1).mapError SizeError.fault
  match memory.initData 0 data with
  | (.ok (), memory) => return ⟨memory⟩
  | (.error e, _) => throw e

/-- Go on with the memory that an operation leaves. -/
def withMemory {α : Type} : α × Memory maxPages { layout := .reversed } → α × ReversedPad
  | (a, memory) => (a, ⟨memory⟩)

def loadI32 (s : ReversedPad) (addr : I32) : Outcome I32 := s.memory.loadWord .w32 addr.address

def loadI64 (s : ReversedPad) (addr : I32) : Outcome I64 := s.memory.loadWord .w64 addr.address

def loadU8 (s : ReversedPad) (addr : I32) : Outcome I32 := do
  return Extension.unsigned.apply 32 (← s.memory.loadWord .w8 addr.address)

def loadF64 (s : ReversedPad) (addr : I32) : Outcome F64 := do
  return F64.ofWord (← s.memory.loadWord .w64 addr.address)

def storeI32 (s : ReversedPad) (addr value : I32) : Outcome Unit × ReversedPad :=
  withMemory (s.memory.storeWord .w32 addr.address value)

def storeF64 (s : ReversedPad) (addr : I32) (value : F64) : Outcome Unit × ReversedPad :=
  withMemory (s.memory.storeWord .w64 addr.address value.toWord)

def initPassive (s : ReversedPad) (dst src len : I32) : Outcome Unit × ReversedPad :=
  withMemory (s.memory.init passive dst src len)

def copy (s : ReversedPad) (dst src len : I32) : Outcome Unit × ReversedPad :=
  withMemory (s.memory.copy dst src len)

def grow (s : ReversedPad) (delta : I32) : Outcome I32 × ReversedPad := withMemory (s.memory.grow delta)

end ReversedPad

end WasmSandbox.Guest
