/-!
# Words

* `Byte`, `I32`, `I64`, `Address`: bit vectors of the widths that guest values and host addresses
  have. A word has no sign of its own; each operation says how it reads its operands.
* `twoPow`: powers of two.
* `Width`: the widths of a memory access.
* `Width.toBytes`, `Width.ofBytes`: a word as little-endian bytes, and back.
* `IntType`: the four integer types.
-/

namespace WasmSandbox

abbrev Byte := BitVec 8
abbrev I32 := BitVec 32
abbrev I64 := BitVec 64

/-- A 64-bit address, or a length in the same unit. -/
abbrev Address := BitVec 64

def twoPow (n : Nat) : Nat := Nat.pow 2 n

inductive Width where
  | w8
  | w16
  | w32
  | w64
deriving DecidableEq, Repr

namespace Width

abbrev bytes : Width → Nat
  | w8 => 1
  | w16 => 2
  | w32 => 4
  | w64 => 8

abbrev bits : Width → Nat
  | w8 => 8
  | w16 => 16
  | w32 => 32
  | w64 => 64

/-- The bytes of a word, least significant first. -/
def toBytes (w : Width) (v : BitVec w.bits) : List Byte :=
  (List.range w.bytes).map fun k => v.extractLsb' (8 * k) 8

/-- The word whose bytes, least significant first, are `bs`. -/
def ofBytes (w : Width) (bs : List Byte) : BitVec w.bits :=
  BitVec.ofNat w.bits (bs.foldr (fun b acc => b.toNat + 256 * acc) 0)

end Width

/-- Integer types by width and signedness. -/
inductive IntType where
  | s32
  | u32
  | s64
  | u64
deriving DecidableEq, Repr

namespace IntType

abbrev bits : IntType → Nat
  | s32 | u32 => 32
  | s64 | u64 => 64

def minValue : IntType → Int
  | s32 => -(twoPow 31 : Int)
  | s64 => -(twoPow 63 : Int)
  | u32 | u64 => 0

def maxValue : IntType → Int
  | s32 => (twoPow 31 : Int) - 1
  | s64 => (twoPow 63 : Int) - 1
  | u32 => (twoPow 32 : Int) - 1
  | u64 => (twoPow 64 : Int) - 1

end IntType

/-- An unsigned 32-bit operand as an address. -/
def I32.address (a : I32) : Address := a.setWidth 64

theorem I32.toInt_sub_of_nonneg {n k : I32} (hn : 0 ≤ n.toInt) (hk : 0 ≤ k.toInt) :
    BitVec.toInt (n - k) = n.toInt - k.toInt := by
  have hn' := BitVec.toInt_lt (x := n)
  have hk' := BitVec.toInt_lt (x := k)
  rw [BitVec.toInt_sub]
  exact Int.bmod_eq_of_le (by omega) (by omega)

end WasmSandbox
