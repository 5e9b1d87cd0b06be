import WasmSandbox.Ieee.Sign

/-!
# Square root

* `Ieee.sqrt`: the square root rounded to nearest.

The root is taken of an integer that is long enough for two digits more than the format keeps; those
two, and whether anything was cut off below them, decide the rounding.
-/

namespace WasmSandbox.Ieee

variable {fmt : Format}

/-- Drop the last `k` binary digits of `n`, `k ≥ 1`, rounding to nearest and ties to even; `rest`
says that something nonzero followed the digits of `n`. -/
def dropDigits (n k : Nat) (rest : Bool) : Nat :=
  let high := n / twoPow k
  let low := n % twoPow k
  let half := twoPow (k - 1)
  if half < low ∨ (low = half ∧ (rest ∨ high % 2 = 1)) then high + 1 else high

/-- The square root of a positive finite number. -/
def sqrtPositive (x : Ieee fmt) : Ieee fmt :=
  let f := fmt.fractionBits
  -- the value is `significand * 2 ^ exponent`
  let exponent : Int := (x.place : Int) - fmt.oneExponent
  let shift := if exponent % 2 = 0 then 2 * f + 4 else 2 * f + 5
  let radicand := x.significand * twoPow shift
  let root := radicand.sqrt
  let drop := root.log2 - f
  let significand := dropDigits root drop (decide (root * root < radicand))
  let place : Int := (exponent - shift) / 2 + drop + fmt.oneExponent
  assemble fmt false (place.toNat * twoPow f + significand)

/-- The square root. A NaN comes back quieted, a zero as it is. For a negative number the result is a NaN
whose bits are left open. -/
def sqrt (x : Ieee fmt) : Option (Ieee fmt) :=
  if x.isNaN then some x.quiet
  else if x.isZero then some x
  else if x.sign then none
  else if x.magnitude = fmt.infinity then some x
  else some x.sqrtPositive

end WasmSandbox.Ieee
