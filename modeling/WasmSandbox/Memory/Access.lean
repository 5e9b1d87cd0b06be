import WasmSandbox.Ieee.Basic
import WasmSandbox.Memory.Basic

/-!
# Loads and stores

* `Load`, `Store`: the typed accesses. The plain ones move a whole value or an unsigned word; `extend`
  loads a narrow word and widens it, `narrow` stores the low part of a word.
* `Scalar`: what a load returns.
* `Memory.loadWord`, `Memory.storeWord`: an access of some width at a guest address.
* `Memory.load`, `Memory.store`: a typed access.
-/

namespace WasmSandbox

/-- A value of one of the types that memory is accessed with. -/
inductive Scalar where
  | i32 (v : I32)
  | i64 (v : I64)
  | f32 (v : F32)
  | f64 (v : F64)
  | u8 (v : BitVec 8)
  | u16 (v : BitVec 16)
  | u32 (v : BitVec 32)
  | u64 (v : BitVec 64)
deriving DecidableEq, Repr

inductive Extension where
  | signed
  | unsigned
deriving DecidableEq, Repr

/-- Widen a word. -/
def Extension.apply {v : Nat} (e : Extension) (w : Nat) (x : BitVec v) : BitVec w :=
  match e with
  | signed => x.signExtend w
  | unsigned => x.setWidth w

inductive Load where
  | i32
  | i64
  | f32
  | f64
  | u8
  | u16
  | u32
  | u64
  | i32From8 (e : Extension)
  | i32From16 (e : Extension)
  | i64From8 (e : Extension)
  | i64From16 (e : Extension)
  | i64From32 (e : Extension)
deriving DecidableEq, Repr

/-- Typed stores, with the value to be stored. -/
inductive Store where
  | i32 (v : I32)
  | i64 (v : I64)
  | f32 (v : F32)
  | f64 (v : F64)
  | u8 (v : BitVec 8)
  | u16 (v : BitVec 16)
  | u32 (v : BitVec 32)
  | u64 (v : BitVec 64)
  | i32As8 (v : I32)
  | i32As16 (v : I32)
  | i64As8 (v : I64)
  | i64As16 (v : I64)
  | i64As32 (v : I64)
deriving DecidableEq, Repr

/-- The width of the word that a load reads. -/
abbrev Load.width : Load → Width
  | u8 | i32From8 _ | i64From8 _ => .w8
  | u16 | i32From16 _ | i64From16 _ => .w16
  | i32 | f32 | u32 | i64From32 _ => .w32
  | i64 | f64 | u64 => .w64

/-- The value of a load that has read a word. -/
def Load.decode : (k : Load) → BitVec k.width.bits → Scalar
  | i32, v => .i32 v
  | i64, v => .i64 v
  | f32, v => .f32 (F32.ofWord v)
  | f64, v => .f64 (F64.ofWord v)
  | u8, v => .u8 v
  | u16, v => .u16 v
  | u32, v => .u32 v
  | u64, v => .u64 v
  | i32From8 e, v => .i32 (e.apply 32 v)
  | i32From16 e, v => .i32 (e.apply 32 v)
  | i64From8 e, v => .i64 (e.apply 64 v)
  | i64From16 e, v => .i64 (e.apply 64 v)
  | i64From32 e, v => .i64 (e.apply 64 v)

/-- The width of the word that a store writes. -/
abbrev Store.width : Store → Width
  | u8 _ | i32As8 _ | i64As8 _ => .w8
  | u16 _ | i32As16 _ | i64As16 _ => .w16
  | i32 _ | f32 _ | u32 _ | i64As32 _ => .w32
  | i64 _ | f64 _ | u64 _ => .w64

/-- The word that a store writes. -/
def Store.word : (k : Store) → BitVec k.width.bits
  | i32 v => v
  | i64 v => v
  | f32 v => v.toWord
  | f64 v => v.toWord
  | u8 v => v
  | u16 v => v
  | u32 v => v
  | u64 v => v
  | i32As8 v => v.setWidth 8
  | i32As16 v => v.setWidth 16
  | i64As8 v => v.setWidth 8
  | i64As16 v => v.setWidth 16
  | i64As32 v => v.setWidth 32

namespace Memory

variable {maxPages : Nat} {config : Config}

/-- The host index of an access of `n` bytes at a guest address. -/
def locate (m : Memory maxPages config) (addr : Address) (n : Nat) : Outcome Nat := do
  let _ ← m.extent
  config.locate addr (BitVec.ofNat 64 n) m.sliceSize

/-- Read the word at a guest address. -/
def loadWord (m : Memory maxPages config) (w : Width) (addr : Address) :
    Outcome (BitVec w.bits) := do
  let start ← m.locate addr w.bytes
  return w.ofBytes (config.layout.orient (m.storage.extract start (start + w.bytes)).toList)

/-- Write a word at a guest address. -/
def storeWord (m : Memory maxPages config) (w : Width) (addr : Address) (v : BitVec w.bits) :
    Outcome Unit × Memory maxPages config :=
  m.patch <| do
    let start ← m.locate addr w.bytes
    return ⟨start, config.layout.orient (w.toBytes v)⟩

def load (m : Memory maxPages config) (k : Load) (addr : Address) : Outcome Scalar := do
  return k.decode (← m.loadWord k.width addr)

def store (m : Memory maxPages config) (k : Store) (addr : Address) :
    Outcome Unit × Memory maxPages config :=
  m.storeWord k.width addr k.word

end Memory

end WasmSandbox
