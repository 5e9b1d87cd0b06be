import WasmSandbox.Ieee.Basic

/-!
# Sign-bit operations and quieting

* `abs`, `neg`, `copysign`: touch the sign bit only, so a NaN keeps its payload.
* `quiet`: sets the quiet bit and keeps all others.
* `quieting`: an operation on numbers that is given NaNs as well, which come back quieted.
-/

namespace WasmSandbox.Ieee

variable {fmt : Format}

def signMask (fmt : Format) : BitVec fmt.width := BitVec.intMin fmt.width

/-- The mask of the bit that tells quiet NaNs from signalling ones. -/
def quietMask (fmt : Format) : BitVec fmt.width := BitVec.ofNat fmt.width (twoPow (fmt.fractionBits - 1))

def abs (x : Ieee fmt) : Ieee fmt := ⟨x.bits &&& ~~~signMask fmt⟩

def neg (x : Ieee fmt) : Ieee fmt := ⟨x.bits ^^^ signMask fmt⟩

/-- The magnitude of `x` under the sign of `y`. -/
def copysign (x y : Ieee fmt) : Ieee fmt := ⟨(x.bits &&& ~~~signMask fmt) ||| (y.bits &&& signMask fmt)⟩

def quiet (x : Ieee fmt) : Ieee fmt := ⟨x.bits ||| quietMask fmt⟩

/-- Quiet a NaN, and apply an operation to all other patterns. -/
def quieting (f : Ieee fmt → Ieee fmt) (x : Ieee fmt) : Ieee fmt := if x.isNaN then x.quiet else f x

section Quieting

variable {f : Ieee fmt → Ieee fmt} {x : Ieee fmt}

theorem quieting_of_isNaN (hx : x.isNaN = true) : quieting f x = x.quiet := if_pos hx

theorem quieting_of_number (hx : x.isNaN = false) : quieting f x = f x := by
  rw [quieting, hx, if_neg Bool.false_ne_true]

end Quieting

end WasmSandbox.Ieee
