import WasmSandbox.Table.Func

/-!
# Arithmetic through a table

* `Calculator`: a guest module with a table of four functions that may grow to eight slots, and a
  passive segment with two more.
* `Calculator.dispatchBinary`, `Calculator.dispatchUnary`: indirect calls through the table.
* `Calculator.copySlots`, `Calculator.loadSpare`, `Calculator.clear`, `Calculator.grow`: changes to it.
-/

namespace WasmSandbox.Guest

/-- The references of the module: its functions need no instance and have no tail steps. -/
abbrev Calculator.Ref := FuncRef Outcome Empty Unit

structure Calculator where
  table : Table Calculator.Ref 8

namespace Calculator

/-- The type of the binary functions. -/
abbrev binary : Signature := { params := [.i32, .i32], results := [.i32] }

/-- The type of the unary functions. -/
abbrev unary : Signature := { params := [.i32], results := [.i32] }

/-! ## Functions and segments -/

def add : Func Outcome Unit binary := fun _ (a, b, ()) => .ok (a + b, ())

def sub : Func Outcome Unit binary := fun _ (a, b, ()) => .ok (a - b, ())

def mul : Func Outcome Unit binary := fun _ (a, b, ()) => .ok (a * b, ())

def negate : Func Outcome Unit unary := fun _ (a, ()) => .ok (0 - a, ())

def element {σ : Signature} (f : Func Outcome Unit σ) : ElemExpr Outcome Empty Unit Unit :=
  .refFunc (FuncDesc.ofFunc f id)

/-- The active segment. -/
def initial : List (ElemExpr Outcome Empty Unit Unit) :=
  [element add, element sub, element mul, element negate]

/-- The passive segment. -/
def spare : List (ElemExpr Outcome Empty Unit Unit) := [element mul, element add]

/-! ## The module -/

/-- Instantiate the module: a table of four slots, filled from the active segment. -/
def instantiate : Outcome Calculator := do
  let table ← (Table.create 4).mapError SizeError.fault
  match table.init () initial 0 0 4 with
  | (.ok (), table) => return ⟨table⟩
  | (.error e, _) => throw e

/-- Call the function in slot `op` as a binary one. -/
def dispatchBinary (c : Calculator) (a b op : I32) : Outcome I32 := do
  let callee ← c.table.callIndirect op binary
  return (← callee.func callee.owner (a, b, ())).1

/-- Call the function in slot `op` as a unary one. -/
def dispatchUnary (c : Calculator) (a op : I32) : Outcome I32 := do
  let callee ← c.table.callIndirect op unary
  return (← callee.func callee.owner (a, ())).1

/-- Go on with the table that an operation leaves. -/
def withTable {α : Type} : α × Table Ref 8 → α × Calculator
  | (a, table) => (a, ⟨table⟩)

def copySlots (c : Calculator) (dst src len : I32) : Outcome Unit × Calculator :=
  withTable (c.table.copyWithin dst src len)

/-- Write elements of the passive segment to the table. -/
def loadSpare (c : Calculator) (dst src len : I32) : Outcome Unit × Calculator :=
  withTable (c.table.init () spare dst src len)

def clear (c : Calculator) (dst len : I32) : Outcome Unit × Calculator :=
  withTable (c.table.fill dst none len)

def grow (c : Calculator) (delta : I32) : Outcome I32 × Calculator := withTable (c.table.grow delta none)

def size (c : Calculator) : I32 := BitVec.ofNat 32 c.table.size

end Calculator

end WasmSandbox.Guest
