import Mathlib.Tactic.Common
import WasmSandbox.Memory.Bulk

/-!
# Where an access lands

An access checks its range, computes a host index and slices the active region, all on words that
wrap at 64 bits.

* `Layout.start`: the host index of a range that lies within the region, over the natural numbers.
* `Policy.miss`: how a policy ends an access that leaves the region.
* `Layout.hostIndex_fits`: a host range lies within the region exactly if its guest range does,
  however the host index has wrapped.
* **`Config.locate_eq`**: an access succeeds exactly if its guest range lies within the region, and it
  lands at `Layout.start`.
-/

namespace WasmSandbox

/-- The policies under which no access leaves the active region. -/
def Policy.Enforcing (p : Policy) : Prop := p ≠ .unchecked

instance : DecidablePred Policy.Enforcing := fun p => inferInstanceAs (Decidable (p ≠ .unchecked))

/-- How an access ends that leaves the active region. -/
def Policy.miss : Policy → Fault
  | .bounds | .guard => .trap .outOfBounds
  | .unchecked => .breach .unchecked

theorem Policy.Enforcing.miss_eq {p : Policy} (hp : p.Enforcing) :
    p.miss = .trap .outOfBounds := by
  cases p with
  | bounds => rfl
  | guard => rfl
  | unchecked => exact absurd rfl hp

/-- The host index of `n` bytes at a guest address within `size` bytes. -/
def Layout.start : Layout → (size x n : Nat) → Nat
  | .little, _, x, _ => x
  | .reversed, size, x, n => size - x - n

@[simp] theorem I32.toNat_address (a : I32) : a.address.toNat = a.toNat := by
  rw [I32.address, BitVec.toNat_setWidth, Nat.mod_eq_of_lt (by omega)]

/-! ## Host indices -/

theorem Layout.hostIndex_fits (l : Layout) (addr len : Address) (size : Nat) :
    (l.hostIndex size addr len).toNat + len.toNat ≤ size ↔ addr.toNat + len.toNat ≤ size := by
  cases l with
  | little => rfl
  | reversed =>
    simp only [Layout.hostIndex, BitVec.toNat_sub, BitVec.toNat_ofNat]
    omega

theorem Layout.toNat_hostIndex (l : Layout) {addr len : Address} {size : Nat} (hsize : size < UInt64.size)
    (h : addr.toNat + len.toNat ≤ size) :
    (l.hostIndex size addr len).toNat = l.start size addr.toNat len.toNat := by
  cases l with
  | little => rfl
  | reversed =>
    rw [UInt64.size] at hsize
    simp only [Layout.hostIndex, Layout.start, BitVec.toNat_sub, BitVec.toNat_ofNat]
    omega

theorem Layout.start_add_le (l : Layout) {size x n : Nat} (h : x + n ≤ size) :
    l.start size x n + n ≤ size := by
  cases l with
  | little => exact h
  | reversed => simp only [Layout.start]; omega

/-! ## Slices -/

/-- A wrapped end makes the range inverted, so the test of the ends decides as the exact sum does. -/
theorem slice_fits (start len : Address) {size : Nat} (hsize : size < UInt64.size) :
    start ≤ start + len ∧ (start + len).toNat ≤ size ↔ start.toNat + len.toNat ≤ size := by
  rw [UInt64.size] at hsize
  rw [BitVec.le_def, BitVec.toNat_add]
  omega

theorem Policy.slice_eq (p : Policy) (start len : Address) {size : Nat} (hsize : size < UInt64.size) :
    p.slice start len size =
      if start.toNat + len.toNat ≤ size then .ok start.toNat else .error p.miss := by
  cases p with
  | bounds | guard => exact if_congr (slice_fits start len hsize) rfl rfl
  | unchecked => rfl

/-! ## Range checks -/

/-- Go on only if `n` bytes from address `x` on lie within `size` bytes. -/
def inRange (x n size : Nat) (miss : Fault := .trap .outOfBounds) : Outcome Unit :=
  if x + n ≤ size then .ok () else .error miss

theorem inRange_of_le {miss : Fault} {x n size : Nat} (h : x + n ≤ size) :
    inRange x n size miss = .ok () := if_pos h

theorem inRange_of_not_le {miss : Fault} {x n size : Nat} (h : ¬ x + n ≤ size) :
    inRange x n size miss = .error miss := if_neg h

theorem le_of_inRange {miss : Fault} {x n size : Nat} {u : Unit} (h : inRange x n size miss = .ok u) :
    x + n ≤ size := by
  by_contra hn
  rw [inRange_of_not_le hn] at h
  cases h

theorem Policy.lift_check (addr len : Address) (size : Nat) :
    (liftM (Policy.bounds.check addr len size) : Outcome Unit) =
      inRange addr.toNat len.toNat size := by
  rw [Policy.check, inRange]
  split_ifs <;> rfl

/-! ## The access path -/

/-- **An access succeeds exactly if its range lies within the region**, computed over the natural
numbers, and it lands where the layout puts that range. -/
theorem Config.locate_eq (c : Config) (addr len : Address) {size : Nat} (hsize : size < UInt64.size) :
    c.locate addr len size =
      if addr.toNat + len.toNat ≤ size then .ok (c.layout.start size addr.toNat len.toNat)
      else .error c.policy.miss := by
  obtain ⟨p, l⟩ := c
  rw [Config.locate, Policy.slice_eq _ _ _ hsize]
  simp only [Layout.hostIndex_fits]
  by_cases h : addr.toNat + len.toNat ≤ size
  · rw [if_pos h, if_pos h, Layout.toNat_hostIndex _ hsize h]
    cases p with
    | bounds => rw [Policy.lift_check, inRange_of_le h, Outcome.ok_bind]
    | guard | unchecked => rfl
  · rw [if_neg h, if_neg h]
    cases p with
    | bounds => rw [Policy.lift_check, inRange_of_not_le h, Outcome.error_bind, Policy.miss]
    | guard | unchecked => rfl

theorem sliceStart_hostIndex (l : Layout) {addr len : Address} {size : Nat} (hsize : size < UInt64.size)
    (h : addr.toNat + len.toNat ≤ size) :
    sliceStart (l.hostIndex size addr len) len size =
      .ok (l.start size addr.toNat len.toNat) := by
  rw [sliceStart, if_pos ((l.hostIndex_fits addr len size).mpr h), l.toNat_hostIndex hsize h]

end WasmSandbox
