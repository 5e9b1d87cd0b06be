import WasmSandbox.Memory.Access
import WasmSandbox.Memory.Bulk

/-!
# The interface of a linear memory

* `LinearMemory M`: what a compiled function needs of a memory, whatever way it is reached: unsigned
  words of each width, size and growth, and the bulk operations.
* `LinearMemory.load`, `LinearMemory.store`: the typed accesses, derived from the unsigned words.
* `Running M`: computations on a memory, with what was written before a failure kept.
-/

namespace WasmSandbox

/-- Memories that compiled functions can run on. -/
class LinearMemory (M : Type) where
  size : M → I32
  grow : M → I32 → Outcome I32 × M
  loadWord : M → (w : Width) → Address → Outcome (BitVec w.bits)
  storeWord : M → (w : Width) → Address → BitVec w.bits → Outcome Unit × M
  fill : M → (dst : I32) → Byte → (len : I32) → Outcome Unit × M
  copy : M → (dst src len : I32) → Outcome Unit × M
  init : M → List Byte → (dst src len : I32) → Outcome Unit × M

namespace LinearMemory

variable {M : Type} [LinearMemory M]

/-- A typed load, from the unsigned word of its width. -/
def load (m : M) : Load → Address → Outcome Scalar
  | .u8, a => return .u8 (← loadWord m .w8 a)
  | .u16, a => return .u16 (← loadWord m .w16 a)
  | .u32, a => return .u32 (← loadWord m .w32 a)
  | .u64, a => return .u64 (← loadWord m .w64 a)
  | .i32, a => return .i32 (← loadWord m .w32 a)
  | .i64, a => return .i64 (← loadWord m .w64 a)
  | .f32, a => return .f32 (F32.ofWord (← loadWord m .w32 a))
  | .f64, a => return .f64 (F64.ofWord (← loadWord m .w64 a))
  | .i32From8 e, a => return .i32 (e.apply 32 (← loadWord m .w8 a))
  | .i32From16 e, a => return .i32 (e.apply 32 (← loadWord m .w16 a))
  | .i64From8 e, a => return .i64 (e.apply 64 (← loadWord m .w8 a))
  | .i64From16 e, a => return .i64 (e.apply 64 (← loadWord m .w16 a))
  | .i64From32 e, a => return .i64 (e.apply 64 (← loadWord m .w32 a))

/-- A typed store, as an unsigned word of its width. -/
def store (m : M) : Store → Address → Outcome Unit × M
  | .u8 v, a => storeWord m .w8 a v
  | .u16 v, a => storeWord m .w16 a v
  | .u32 v, a => storeWord m .w32 a v
  | .u64 v, a => storeWord m .w64 a v
  | .i32 v, a => storeWord m .w32 a v
  | .i64 v, a => storeWord m .w64 a v
  | .f32 v, a => storeWord m .w32 a v.toWord
  | .f64 v, a => storeWord m .w64 a v.toWord
  | .i32As8 v, a => storeWord m .w8 a (v.setWidth 8)
  | .i32As16 v, a => storeWord m .w16 a (v.setWidth 16)
  | .i64As8 v, a => storeWord m .w8 a (v.setWidth 8)
  | .i64As16 v, a => storeWord m .w16 a (v.setWidth 16)
  | .i64As32 v, a => storeWord m .w32 a (v.setWidth 32)

end LinearMemory

instance {maxPages : Nat} {config : Config} : LinearMemory (Memory maxPages config) where
  size := Memory.size
  grow := Memory.grow
  loadWord := Memory.loadWord
  storeWord := Memory.storeWord
  fill := Memory.fill
  copy := Memory.copy
  init := Memory.init

abbrev Running (M : Type) := ExceptT Fault (StateM M)

namespace Running

variable {M : Type} [LinearMemory M]

def loadWord (w : Width) (addr : Address) : Running M (BitVec w.bits) := fun m =>
  (LinearMemory.loadWord m w addr, m)

def storeWord (w : Width) (addr : Address) (v : BitVec w.bits) : Running M Unit := fun m =>
  LinearMemory.storeWord m w addr v

def fill (dst : I32) (value : Byte) (len : I32) : Running M Unit := fun m =>
  LinearMemory.fill m dst value len

end Running

end WasmSandbox
