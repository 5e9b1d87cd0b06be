import WasmSandbox.Memory.Access
import WasmSandbox.Table.Func

/-!
# Two linked counters

* `Counter`: a guest module with a count and a memory that shows it.
* `Counters`, `Side`: two instances of it.
* `App`: a module that is linked with both and calls their functions through its table. The first two
  slots are bound to the two `bump` functions, the third to a global of the left counter, the last is
  null.
* `CounterCall`, `LinkedOp`: a call of a counter, and what can be asked of the counters and the module.

Each slot carries the counter that its function runs for.
-/

namespace WasmSandbox.Guest

/-! ## A counter -/

/-- A counter: a memory of one page whose first word shows the count. -/
structure Counter where
  memory : Memory 1 {}
  count : I32

namespace Counter

/-- Instantiate a counter at zero. -/
def instantiate : Outcome Counter := do
  return ⟨← (Memory.create 1).mapError SizeError.fault, 0⟩

/-- Add to the count and show it. -/
def bump (c : Counter) (amount : I32) : Outcome I32 × Counter :=
  let count := c.count + amount
  match c.memory.storeWord .w32 0 count with
  | (.ok (), memory) => (.ok count, ⟨memory, count⟩)
  | (.error e, memory) => (.error e, ⟨memory, count⟩)

/-- The word at an address. -/
def peek (c : Counter) (addr : I32) : Outcome I32 := c.memory.loadWord .w32 addr.address

end Counter

/-! ## Two counters -/

inductive Side where
  | left
  | right
deriving DecidableEq, Repr

structure Counters where
  left : Counter
  right : Counter

abbrev CountersM := Effect Counters

namespace Counters

def instantiate : Outcome Counters := do return ⟨← Counter.instantiate, ← Counter.instantiate⟩

def get (cs : Counters) : Side → Counter
  | .left => cs.left
  | .right => cs.right

def bump (side : Side) (amount : I32) : CountersM I32 := fun cs =>
  match side, cs with
  | .left, ⟨left, right⟩ =>
    match left.bump amount with
    | (r, left) => (r, ⟨left, right⟩)
  | .right, ⟨left, right⟩ =>
    match right.bump amount with
    | (r, right) => (r, ⟨left, right⟩)

/-- The word at an address of the memory of a side. -/
def peek (side : Side) (addr : I32) : CountersM I32 := fun cs => ((cs.get side).peek addr, cs)

end Counters

/-! ## The linked module -/

namespace App

/-- The type of the functions that the module calls. -/
abbrev wordFunc : Signature := { params := [.i32], results := [.i32] }

/-- `bump` as a function that runs for the counter of a side. -/
def bumpFunc : Func CountersM Side wordFunc := fun side (amount, ()) =>
  do return (← Counters.bump side amount, ())

/-- `peek` as a function that runs for the counter of a side. -/
def peekFunc : Func CountersM Side wordFunc := fun side (addr, ()) =>
  do return (← Counters.peek side addr, ())

/-- The reference that the global of a counter holds. -/
def peekRef (side : Side) : FuncRef CountersM Empty Side := FuncRef.ofFunc peekFunc side

/-- What the module imports: two counters. -/
structure Imports where
  left : Side
  right : Side

def elements : List (ElemExpr CountersM Empty Imports Side) :=
  [.refFunc (FuncDesc.ofFunc bumpFunc Imports.left),
    .refFunc (FuncDesc.ofFunc bumpFunc Imports.right),
    .globalGet fun imports => some (peekRef imports.left),
    .refNull]

end App

structure App where
  table : Table (FuncRef CountersM Empty Side) 4

namespace App

/-- Instantiate the module over the counters that it imports. -/
def instantiate (imports : Imports) : Outcome App := do
  let table ← (Table.create 4).mapError SizeError.fault
  match table.init imports elements 0 0 4 with
  | (.ok (), table) => return ⟨table⟩
  | (.error e, _) => throw e

/-- Call the function in a slot. -/
def bumpVia (app : App) (slot amount : I32) : CountersM I32 := do
  let callee ← liftM (app.table.callIndirect slot wordFunc)
  return (← callee.func callee.owner (amount, ())).1

/-- The counter that a slot is bound to, if any. -/
def slotOwner (app : App) (slot : I32) : Except Trap (Option Side) := do
  return (← app.table.get slot).map FuncRef.owner

end App

/-! ## Steps -/

/-- A call of one of the two counters. -/
inductive CounterCall where
  | bump (side : Side) (amount : I32)
  | peek (side : Side) (addr : I32)
deriving DecidableEq, Repr

namespace CounterCall

def side : CounterCall → Side
  | bump side _ | peek side _ => side

def exec : CounterCall → CountersM I32
  | bump side amount => Counters.bump side amount
  | peek side addr => Counters.peek side addr

end CounterCall

/-- What can be asked of the two counters and of a module that is linked with them. -/
inductive LinkedOp where
  | direct (call : CounterCall)
  /-- Call the function in a slot. -/
  | via (slot amount : I32)
deriving DecidableEq, Repr

def LinkedOp.exec (app : App) : LinkedOp → CountersM I32
  | direct call => call.exec
  | via slot amount => app.bumpVia slot amount

end WasmSandbox.Guest
