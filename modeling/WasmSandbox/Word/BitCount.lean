import WasmSandbox.Trap

/-!
# Counting bits

* `clz`, `ctz`, `popcnt`: leading zeros, trailing zeros and set bits of a word, as a word of the same
  width. A zero word has as many leading and trailing zeros as it has bits.
* `Swar`: the same counts, and the reversal of a word, for 32 and 64 bits from shifts, masks and one
  multiplication only. They are written over an `Swar.Arithmetic`: `Swar.wrapping` takes sums and differences
  modulo the size of the word, `Swar.checked` stops when one of them leaves the word.
-/

namespace WasmSandbox.Word

/-- The number of zero bits above the highest set bit. -/
def clz {w : Nat} (x : BitVec w) : BitVec w := x.clz

/-- The number of zero bits below the lowest set bit. -/
def ctz {w : Nat} (x : BitVec w) : BitVec w := x.ctz

def popcnt {w : Nat} (x : BitVec w) : BitVec w := x.cpop

namespace Swar

/-! ## Arithmetic -/

/-- What becomes of the sum and of the difference of two words. Negation and multiplication always wrap. -/
structure Arithmetic (M : Type → Type) where
  add : {w : Nat} → BitVec w → BitVec w → M (BitVec w)
  sub : {w : Nat} → BitVec w → BitVec w → M (BitVec w)

/-- Modulo the size of the word. -/
def wrapping : Arithmetic Id where
  add x y := x + y
  sub x y := x - y

/-- A result that leaves the word is a breach. -/
def checked : Arithmetic Outcome where
  add x y := if x.uaddOverflow y then .error (.breach .arithmetic) else .ok (x + y)
  sub x y := if x.usubOverflow y then .error (.breach .arithmetic) else .ok (x - y)

/-! ## Masks -/

inductive Size where
  | w32
  | w64
deriving DecidableEq, Repr

namespace Size

abbrev bits : Size → Nat
  | w32 => 32
  | w64 => 64

/-- The low bit of each pair. -/
def pairMask : (s : Size) → BitVec s.bits
  | w32 => 0x55555555
  | w64 => 0x5555555555555555

/-- The low pair of each nibble. -/
def nibbleMask : (s : Size) → BitVec s.bits
  | w32 => 0x33333333
  | w64 => 0x3333333333333333

/-- The low nibble of each byte. -/
def byteMask : (s : Size) → BitVec s.bits
  | w32 => 0x0f0f0f0f
  | w64 => 0x0f0f0f0f0f0f0f0f

/-- The low bit of each byte. -/
def byteOnes : (s : Size) → BitVec s.bits
  | w32 => 0x01010101
  | w64 => 0x0101010101010101

/-- The low halves of the groups that are exchanged, with their widths. -/
def groupMasks : (s : Size) → List (Nat × BitVec s.bits)
  | w32 => [(1, pairMask w32), (2, nibbleMask w32), (4, byteMask w32), (8, 0x00ff00ff)]
  | w64 => [(1, pairMask w64), (2, nibbleMask w64), (4, byteMask w64), (8, 0x00ff00ff00ff00ff),
      (16, 0x0000ffff0000ffff)]

end Size

/-! ## Counts -/

section Counts

variable {M : Type → Type} [Monad M] (arith : Arithmetic M) (s : Size)

/-- Set bits: counts of pairs, then of nibbles, then of bytes, summed by the multiplication into the
top byte. -/
def popcnt (x : BitVec s.bits) : M (BitVec s.bits) := do
  let pairs ← arith.sub x ((x >>> 1) &&& s.pairMask)
  let nibbles ← arith.add (pairs &&& s.nibbleMask) ((pairs >>> 2) &&& s.nibbleMask)
  let bytes ← arith.add nibbles (nibbles >>> 4)
  return ((bytes &&& s.byteMask) * s.byteOnes) >>> (s.bits - 8)

/-- Trailing zeros: the bits below the lowest set bit, counted. -/
def ctz (x : BitVec s.bits) : M (BitVec s.bits) :=
  if x = 0 then return BitVec.ofNat s.bits s.bits
  else do popcnt arith s (← arith.sub (x &&& -x) 1)

/-- Exchange the bits under the mask with those at the distance above them. -/
def exchange {w : Nat} (distance : Nat) (mask x : BitVec w) : BitVec w :=
  ((x >>> distance) &&& mask) ||| ((x &&& mask) <<< distance)

/-- The bits in reverse order, exchanged in ever larger groups. -/
def reverse (x : BitVec s.bits) : BitVec s.bits :=
  let x := s.groupMasks.foldl (fun x (distance, mask) => exchange distance mask x) x
  (x >>> (s.bits / 2)) ||| (x <<< (s.bits / 2))

/-- Leading zeros: the trailing zeros of the reversed word. -/
def clz (x : BitVec s.bits) : M (BitVec s.bits) := ctz arith s (reverse s x)

end Counts

/-! ## Both widths -/

def popcnt32 (x : BitVec 32) : BitVec 32 := (popcnt wrapping .w32 x).run
def ctz32 (x : BitVec 32) : BitVec 32 := (ctz wrapping .w32 x).run
def clz32 (x : BitVec 32) : BitVec 32 := (clz wrapping .w32 x).run
def reverse32 (x : BitVec 32) : BitVec 32 := reverse .w32 x

def popcnt64 (x : BitVec 64) : BitVec 64 := (popcnt wrapping .w64 x).run
def ctz64 (x : BitVec 64) : BitVec 64 := (ctz wrapping .w64 x).run
def clz64 (x : BitVec 64) : BitVec 64 := (clz wrapping .w64 x).run
def reverse64 (x : BitVec 64) : BitVec 64 := reverse .w64 x

end Swar

end WasmSandbox.Word
