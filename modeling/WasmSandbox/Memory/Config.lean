import WasmSandbox.Trap
import WasmSandbox.Word.Basic

/-!
# How a memory is accessed

* `Policy`: who catches an access that leaves the active region: an explicit range check, the slice
  over the active region (as an unmapped guard region would), or nobody.
* `Layout`: guest bytes in guest order, or the whole region reversed. In a reversed region the guest
  address `a` of `n` bytes is the host index `size - a - n`, so that a big-endian host reads guest
  values natively.
* `Config.locate`: the host index of an access, or how it fails.

Host indices wrap at 64 bits. An access out of range is caught either by the check or, because a
wrapped index gives an inverted or overlong range, by the slice.
-/

namespace WasmSandbox

inductive Policy where
  | bounds
  | guard
  | unchecked
deriving DecidableEq, Repr

inductive Layout where
  | little
  | reversed
deriving DecidableEq, Repr

structure Config where
  policy : Policy := .bounds
  layout : Layout := .little
deriving DecidableEq, Repr

namespace Policy

/-- Check the range of an access of `len` bytes at a guest address against `size` active bytes. -/
def check : Policy → (addr len : Address) → (size : Nat) → Except Trap Unit
  | bounds, addr, len, size =>
    if addr.toNat + len.toNat ≤ size then .ok () else .error .outOfBounds
  | guard, _, _, _ | unchecked, _, _, _ => .ok ()

/-- The first index of the slice of `len` bytes from `start` on, out of `size` bytes. -/
def slice : Policy → (start len : Address) → (size : Nat) → Outcome Nat
  | bounds, start, len, size | guard, start, len, size =>
    let stop := start + len
    if start ≤ stop ∧ stop.toNat ≤ size then .ok start.toNat else .error (.trap .outOfBounds)
  | unchecked, start, len, size =>
    if start.toNat + len.toNat ≤ size then .ok start.toNat else .error (.breach .unchecked)

end Policy

namespace Layout

/-- The host index of `len` bytes at a guest address, with `size` bytes active. -/
def hostIndex : Layout → (size : Nat) → (addr len : Address) → Address
  | little, _, addr, _ => addr
  | reversed, size, addr, len => BitVec.ofNat 64 size - addr - len

/-- Bytes in guest order as they lie in host order, and back. -/
def orient : Layout → List Byte → List Byte
  | little, bs => bs
  | reversed, bs => bs.reverse

end Layout

/-- The host index of an access of `len` bytes at a guest address, with `size` bytes active. -/
def Config.locate (c : Config) (addr len : Address) (size : Nat) : Outcome Nat := do
  c.policy.check addr len size
  c.policy.slice (c.layout.hostIndex size addr len) len size

end WasmSandbox
