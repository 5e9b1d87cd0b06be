import WasmSandbox.Function.FuncType
import WasmSandbox.Ieee.Basic

/-!
# Values and slots

* `NumType.Value`: the values of a number type.
* `Values`: a value for each type of a list, as a nested pair.
* `NumType.toSlot`, `NumType.ofSlot`: a value in a 64-bit slot. A narrow value is widened by zeros, and
  reading it back drops the upper half, so both directions keep the bits.
-/

namespace WasmSandbox

abbrev NumType.Value : NumType → Type
  | .i32 => I32
  | .i64 => I64
  | .f32 => F32
  | .f64 => F64

/-- One value of each type of a list. -/
abbrev Values : List NumType → Type
  | [] => Unit
  | t :: ts => t.Value × Values ts

namespace NumType

/-- Widen a value to a slot. -/
def toSlot : (t : NumType) → t.Value → BitVec 64
  | i32, v => v.setWidth 64
  | i64, v => v
  | f32, v => v.toWord.setWidth 64
  | f64, v => v.toWord

/-- The value of the type that a slot holds. -/
def ofSlot : (t : NumType) → BitVec 64 → t.Value
  | i32, s => s.setWidth 32
  | i64, s => s
  | f32, s => F32.ofWord (s.setWidth 32)
  | f64, s => F64.ofWord s

@[simp] theorem ofSlot_toSlot (t : NumType) (v : t.Value) : t.ofSlot (t.toSlot v) = v := by
  cases t <;> simp [ofSlot, toSlot, F32.ofWord, F32.toWord, F64.ofWord, F64.toWord]

end NumType

end WasmSandbox
