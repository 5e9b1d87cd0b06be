import WasmSandbox.Ieee.Sign

/-!
# Rounding to an integer

* `Rounding`: down, up, toward zero, and to nearest with ties to even.
* `Rounding.quotient`: a quotient of integers rounded in that way.
* `Ieee.integral`: a number rounded to an integer. One that has no fractional digits stays as it is, and a
  zero result has the sign of the operand.
* `Ieee.round`: the same for all patterns. A NaN comes back quieted.
-/

namespace WasmSandbox

inductive Rounding where
  | floor
  | ceil
  | trunc
  | nearest
deriving DecidableEq, Repr

namespace Rounding

/-- The quotient `n / d`, for a positive `d`, rounded to an integer. -/
def quotient (r : Rounding) (n : Int) (d : Nat) : Int :=
  match r with
  | floor => n / d
  | ceil => -(-n / d)
  | trunc => n.tdiv d
  | nearest =>
    let q := n / d
    let rest := n % d
    if 2 * rest < d then q
    else if (d : Int) < 2 * rest then q + 1
    else if q % 2 = 0 then q else q + 1

end Rounding

namespace Ieee

variable {fmt : Format}

/-- From this exponent field on, a number has no fractional digits. -/
def integralExponent (fmt : Format) : Nat := fmt.bias + fmt.fractionBits

/-- Round a pattern that is no NaN to an integer. -/
def integral (r : Rounding) (x : Ieee fmt) : Ieee fmt :=
  if integralExponent fmt ≤ x.exponent then x
  else ofNat fmt x.sign (r.quotient x.units (twoPow fmt.oneExponent)).natAbs

def round (r : Rounding) (x : Ieee fmt) : Ieee fmt := quieting (integral r) x

def floor (x : Ieee fmt) : Ieee fmt := x.round .floor

def ceil (x : Ieee fmt) : Ieee fmt := x.round .ceil

def trunc (x : Ieee fmt) : Ieee fmt := x.round .trunc

/-- Round to the nearest integer, and to the even one of two that are equally near. -/
def nearest (x : Ieee fmt) : Ieee fmt := x.round .nearest

end Ieee

end WasmSandbox
