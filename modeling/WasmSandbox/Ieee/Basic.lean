import WasmSandbox.Word.Basic

/-!
# Binary floating-point numbers as bit patterns

* `Format`: single and double precision, with the widths of their fields.
* `Ieee fmt`: a bit pattern of the format. Patterns are never identified: the zeros differ by their
  sign, and NaNs by sign and payload.
* `Ieee.units`: the value of a pattern that is no NaN, as an integer number of the format's smallest
  positive number. An infinity counts as the number that would follow the largest finite one, so
  `units` orders all patterns that are no NaN as their values.
* `Ieee.eq`, `Ieee.lt`: the comparisons of values.
* `Ieee.ofNat`: the pattern of a small natural number under a sign.
-/

namespace WasmSandbox

inductive Format where
  | single
  | double
deriving DecidableEq, Repr

namespace Format

/-- Bits of the exponent field. -/
abbrev exponentBits : Format → Nat
  | single => 8
  | double => 11

/-- Bits of the fraction field. -/
abbrev fractionBits : Format → Nat
  | single => 23
  | double => 52

/-- Bits of a pattern: sign, exponent and fraction. -/
abbrev width : Format → Nat
  | single => 32
  | double => 64

/-- The exponent field of the number 1. -/
abbrev bias : Format → Nat
  | single => 127
  | double => 1023

/-- The number 1 is `2 ^ oneExponent` units: the exponent of the smallest positive number, negated. -/
abbrev oneExponent : Format → Nat
  | single => 149
  | double => 1074

/-- The pattern of `+∞`, which is also the largest pattern without a sign that is no NaN. -/
def infinity (fmt : Format) : Nat := (twoPow fmt.exponentBits - 1) * twoPow fmt.fractionBits

end Format

/-- A bit pattern of the format. -/
@[ext] structure Ieee (fmt : Format) where
  bits : BitVec fmt.width
deriving DecidableEq, Repr

abbrev F32 := Ieee .single
abbrev F64 := Ieee .double

/-- The single-precision number with the bits of a word. -/
def F32.ofWord (v : I32) : F32 := ⟨v⟩

def F32.toWord (x : F32) : I32 := x.bits

/-- The double-precision number with the bits of a word. -/
def F64.ofWord (v : I64) : F64 := ⟨v⟩

def F64.toWord (x : F64) : I64 := x.bits

namespace Ieee

variable {fmt : Format}

/-! ## Fields -/

def sign (x : Ieee fmt) : Bool := x.bits.msb

/-- The bits below the sign. -/
def magnitude (x : Ieee fmt) : Nat := x.bits.toNat % twoPow (fmt.width - 1)

def exponent (x : Ieee fmt) : Nat := x.magnitude / twoPow fmt.fractionBits

def fraction (x : Ieee fmt) : Nat := x.magnitude % twoPow fmt.fractionBits

/-- All exponent bits are set and the fraction is not zero. -/
def isNaN (x : Ieee fmt) : Bool := fmt.infinity < x.magnitude

def isZero (x : Ieee fmt) : Bool := x.magnitude == 0

/-! ## Values and their order -/

/-- The significand: the fraction, with the leading one that a normal number leaves out. -/
def significand (x : Ieee fmt) : Nat :=
  if x.exponent = 0 then x.fraction else twoPow fmt.fractionBits + x.fraction

/-- The exponent of the significand's last place, counted from that of the smallest number. -/
def place (x : Ieee fmt) : Nat := x.exponent - 1

/-- The value without its sign, in units of the smallest positive number. -/
def absUnits (x : Ieee fmt) : Nat := x.significand * twoPow x.place

/-- The value in units of the smallest positive number. -/
def units (x : Ieee fmt) : Int := if x.sign then -(x.absUnits : Int) else x.absUnits

/-- Equality of values: the zeros are equal, a NaN equals nothing. -/
def eq (x y : Ieee fmt) : Bool := !x.isNaN && !y.isNaN && x.units == y.units

/-- Order of values: false if either side is a NaN. -/
def lt (x y : Ieee fmt) : Bool := !x.isNaN && !y.isNaN && decide (x.units < y.units)

/-! ## Building patterns -/

/-- The pattern with the given sign and remaining bits. -/
def assemble (fmt : Format) (sign : Bool) (magnitude : Nat) : Ieee fmt :=
  ⟨BitVec.ofNat fmt.width ((if sign then twoPow (fmt.width - 1) else 0) + magnitude)⟩

/-- A natural number below `2 ^ (fractionBits + 1)`, which every such number fits exactly, under the
given sign. -/
def ofNat (fmt : Format) (sign : Bool) (n : Nat) : Ieee fmt :=
  assemble fmt sign <|
    if n = 0 then 0
    else (fmt.bias + n.log2 - 1) * twoPow fmt.fractionBits + n * twoPow (fmt.fractionBits - n.log2)

/-- The canonical NaN: positive, quiet, no other payload. -/
def canonicalNaN (fmt : Format) : Ieee fmt :=
  assemble fmt false (fmt.infinity + twoPow (fmt.fractionBits - 1))

end Ieee

end WasmSandbox
