import WasmSandbox.Trap
import WasmSandbox.Word.Basic

/-!
# Division and remainder

* `divS`, `divU`, `remS`, `remU`: the four Wasm operations at every width.
* `IntType.div`, `IntType.rem`: division and remainder of words of an integer type.

A zero divisor traps. The smallest signed number divided by -1 does not fit and traps as well; its
remainder exists and is 0. Signed quotients are rounded toward zero, and a signed remainder has the
sign of the dividend.
-/

namespace WasmSandbox

namespace Word

variable {w : Nat}

def divS (x y : BitVec w) : Except Trap (BitVec w) :=
  if y = 0 then .error .divisionByZero
  else if x = BitVec.intMin w ∧ y = BitVec.allOnes w then .error .integerOverflow
  else .ok (x.sdiv y)

def divU (x y : BitVec w) : Except Trap (BitVec w) :=
  if y = 0 then .error .divisionByZero else .ok (x.udiv y)

def remS (x y : BitVec w) : Except Trap (BitVec w) :=
  if y = 0 then .error .divisionByZero else .ok (x.srem y)

def remU (x y : BitVec w) : Except Trap (BitVec w) :=
  if y = 0 then .error .divisionByZero else .ok (x.umod y)

end Word

namespace IntType

/-- Division of words of the type. -/
def div : (t : IntType) → BitVec t.bits → BitVec t.bits → Except Trap (BitVec t.bits)
  | s32, x, y | s64, x, y => Word.divS x y
  | u32, x, y | u64, x, y => Word.divU x y

/-- Remainder of words of the type. -/
def rem : (t : IntType) → BitVec t.bits → BitVec t.bits → Except Trap (BitVec t.bits)
  | s32, x, y | s64, x, y => Word.remS x y
  | u32, x, y | u64, x, y => Word.remU x y

end IntType

end WasmSandbox
