import WasmSandbox.Ieee.Sign

/-!
# Minimum and maximum

* `min`, `max`: the canonical NaN if either operand is a NaN; of two zeros the one that the sign
  decides; otherwise the smaller, respectively larger operand.
-/

namespace WasmSandbox.Ieee

variable {fmt : Format}

/-- The smaller operand, where `-0` is below `+0`. -/
def min (x y : Ieee fmt) : Ieee fmt :=
  if x.isNaN || y.isNaN then canonicalNaN fmt
  else if x.isZero && y.isZero then if x.sign then x else y
  else if x.lt y then x else y

/-- The larger operand, where `+0` is above `-0`. -/
def max (x y : Ieee fmt) : Ieee fmt :=
  if x.isNaN || y.isNaN then canonicalNaN fmt
  else if x.isZero && y.isZero then if x.sign then y else x
  else if y.lt x then x else y

end WasmSandbox.Ieee
