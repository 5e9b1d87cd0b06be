import WasmSandbox.Ieee.Basic
import WasmSandbox.Trap

/-!
# Conversion to integers

* `Limits`: the open or half-open interval of the operands that a trapping conversion accepts.
* `Ieee.truncate`: trapping conversion toward zero.
* `Ieee.saturate`: conversion toward zero that clamps to the target range and takes a NaN to 0.
-/

namespace WasmSandbox

/-- An interval of reals between two integers; the upper end is never in it. -/
structure Limits where
  lower : Int
  /-- The lower end belongs to the interval. -/
  closed : Bool
  upper : Int
deriving DecidableEq, Repr

/-- The operands that each conversion accepts. Doubles also lie between `-2 ^ 31 - 1` and `-2 ^ 31`, and
truncate to the smallest number; single-precision numbers do not. -/
def Limits.of : Format → IntType → Limits
  | .single, .s32 => ⟨-2147483648, true, 2147483648⟩
  | .double, .s32 => ⟨-2147483649, false, 2147483648⟩
  | _, .u32 => ⟨-1, false, 4294967296⟩
  | _, .s64 => ⟨-9223372036854775808, true, 9223372036854775808⟩
  | _, .u64 => ⟨-1, false, 18446744073709551616⟩

namespace Ieee

variable {fmt : Format}

/-- An integer in the units of the format. -/
def unitsOf (fmt : Format) (n : Int) : Int := n * twoPow fmt.oneExponent

def within (x : Ieee fmt) (l : Limits) : Bool :=
  (if l.closed then decide (unitsOf fmt l.lower ≤ x.units) else decide (unitsOf fmt l.lower < x.units)) &&
    decide (x.units < unitsOf fmt l.upper)

/-- The integer part: the value rounded toward zero. -/
def integerPart (x : Ieee fmt) : Int := x.units.tdiv (twoPow fmt.oneExponent)

/-- Convert toward zero, clamping to the range of the type. -/
def saturate (t : IntType) (x : Ieee fmt) : BitVec t.bits :=
  if x.isNaN then 0
  else BitVec.ofInt t.bits (Max.max t.minValue (Min.min t.maxValue x.integerPart))

/-- Convert toward zero. A NaN traps, and so does a number outside the limits of the conversion. -/
def truncate (t : IntType) (x : Ieee fmt) : Except Trap (BitVec t.bits) :=
  if x.isNaN then .error .invalidConversion
  else if x.within (Limits.of fmt t) then .ok (x.saturate t)
  else .error .integerOverflow

end Ieee

end WasmSandbox
