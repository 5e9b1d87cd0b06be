/-!
# Rotations

* `rotl`, `rotr`: rotate a word left or right; the count is a word of the same width.

The count is read in 32 bits and masked to the width, which for the widths 32 and 64 is the count
modulo the width.
-/

namespace WasmSandbox.Word

variable {w : Nat}

/-- The number of places a count asks for: its low 32 bits, masked with the width less one. -/
def rotationCount (n : BitVec w) : Nat := (n.setWidth 32 &&& BitVec.ofNat 32 (w - 1)).toNat

def rotl (x n : BitVec w) : BitVec w := x.rotateLeft (rotationCount n)

def rotr (x n : BitVec w) : BitVec w := x.rotateRight (rotationCount n)

end WasmSandbox.Word
