import WasmSandbox.Function.Value
import WasmSandbox.Trap

/-!
# The slot stack

* `SlotStack`: sixteen 64-bit slots that carry arguments and results from one tail call to the next.
* `SlotStack.get`, `SlotStack.set`: one slot, read and written as a value of a number type. An index
  past the last slot traps.
* `SlotM`: computations on a slot stack. What was written before a failure stays written.
* `SlotM.load`, `SlotM.store`: consecutive slots from slot 0 on, read and written as a list of values.
-/

namespace WasmSandbox

/-- The number of slots. -/
abbrev slotCount : Nat := 16

/-- Sixteen slots, all zero at first. -/
structure SlotStack where
  slots : Vector (BitVec 64) slotCount := Vector.replicate slotCount 0
deriving DecidableEq

namespace SlotStack

def get (s : SlotStack) (t : NumType) (i : Nat) : Except Trap t.Value :=
  if h : i < slotCount then .ok (t.ofSlot s.slots[i]) else .error .outOfBounds

def set (s : SlotStack) (t : NumType) (i : Nat) (v : t.Value) : Except Trap SlotStack :=
  if h : i < slotCount then .ok ⟨s.slots.set i (t.toSlot v)⟩ else .error .outOfBounds

/-- A slot as a word. -/
abbrev slot (s : SlotStack) (i : Nat) (h : i < slotCount := by decide) : BitVec 64 := s.slots[i]

theorem zero_lt_slotCount : 0 < slotCount := by decide

theorem one_lt_slotCount : 1 < slotCount := by decide

abbrev first (s : SlotStack) : BitVec 64 := s.slot 0 zero_lt_slotCount

theorem get_of_lt (s : SlotStack) (t : NumType) {i : Nat} (h : i < slotCount) :
    s.get t i = .ok (t.ofSlot (s.slot i h)) := by simp [get, h]

theorem set_of_lt (s : SlotStack) (t : NumType) {i : Nat} (h : i < slotCount) (v : t.Value) :
    s.set t i v = .ok ⟨s.slots.set i (t.toSlot v)⟩ := by simp [set, h]

theorem slot_set_self (s : SlotStack) {i : Nat} (h : i < slotCount) (w : BitVec 64) :
    (⟨s.slots.set i w⟩ : SlotStack).slot i h = w := Vector.getElem_set_self h

theorem slot_set_of_ne (s : SlotStack) {i j : Nat} (hi : i < slotCount) (hj : j < slotCount)
    (hij : i ≠ j) (w : BitVec 64) : (⟨s.slots.set i w⟩ : SlotStack).slot j hj = s.slot j hj :=
  Vector.getElem_set_ne hi hj hij

theorem first_set_one (s : SlotStack) (v w : BitVec 64) :
    (⟨(s.slots.set 0 w).set 1 v⟩ : SlotStack).first = w :=
  (slot_set_of_ne ⟨s.slots.set 0 w⟩ one_lt_slotCount zero_lt_slotCount (by decide) v).trans
    (s.slot_set_self zero_lt_slotCount w)

end SlotStack

abbrev SlotM := Effect SlotStack

namespace SlotM

def get (t : NumType) (i : Nat) : SlotM t.Value := fun s => ((s.get t i).mapError Fault.trap, s)

def set (t : NumType) (i : Nat) (v : t.Value) : SlotM Unit := fun s =>
  match s.set t i v with
  | .ok s' => (.ok (), s')
  | .error e => (.error (.trap e), s)

/-- Read consecutive slots from slot `i` on. -/
def loadFrom (i : Nat) : (ts : List NumType) → SlotM (Values ts)
  | [] => pure ()
  | t :: ts => do
    let v ← get t i
    let vs ← loadFrom (i + 1) ts
    return (v, vs)

/-- Write consecutive slots from slot `i` on. -/
def storeFrom (i : Nat) : (ts : List NumType) → Values ts → SlotM Unit
  | [], _ => pure ()
  | t :: ts, (v, vs) => do
    set t i v
    storeFrom (i + 1) ts vs

/-- Read the first slots as values of the given types. -/
def load (ts : List NumType) : SlotM (Values ts) := loadFrom 0 ts

/-- Write values to the first slots. -/
def store (ts : List NumType) (vs : Values ts) : SlotM Unit := storeFrom 0 ts vs

end SlotM

end WasmSandbox
