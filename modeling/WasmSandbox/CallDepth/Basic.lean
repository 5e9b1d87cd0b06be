import WasmSandbox.Trap

/-!
# Call depth

* `CallDepth`: how many calls are open, and how many may be.
* `CallDepth.enter`, `CallDepth.exit`, `CallDepth.reset`: the operations of the counter.
* `CallDepth.within`: run a body one level deeper, and leave that level however the body ended.
* `GuardedM`, `GuardedM.call`: computations under a call-depth counter, and a guarded call in them.
-/

namespace WasmSandbox

/-- The number of open calls that is allowed unless another is asked for. -/
abbrev defaultMaxDepth : BitVec 32 := 500

/-- A counter of open calls. -/
structure CallDepth where
  max : BitVec 32 := defaultMaxDepth
  depth : BitVec 32 := 0
deriving DecidableEq, Repr

namespace CallDepth

/-- Open a call, unless all that are allowed are open. -/
def enter (d : CallDepth) : Except Trap CallDepth :=
  if d.max ≤ d.depth then .error .callStackExhausted else .ok { d with depth := d.depth + 1 }

/-- Close a call. With none open, nothing happens. -/
def exit (d : CallDepth) : CallDepth :=
  { d with depth := if d.depth = 0 then 0 else d.depth - 1 }

def reset (d : CallDepth) : CallDepth := { d with depth := 0 }

/-- Run a body one level deeper. -/
def within {α : Type} (body : CallDepth → α × CallDepth) (d : CallDepth) :
    Except Trap α × CallDepth :=
  match d.enter with
  | .error e => (.error e, d)
  | .ok d' =>
    let (a, d'') := body d'
    (.ok a, d''.exit)

end CallDepth

abbrev GuardedM := ExceptT Trap (StateM CallDepth)

namespace GuardedM

/-- A guarded call: the body runs one level deeper, and the level is left by value and by trap. -/
def call {α : Type} (body : GuardedM α) : GuardedM α := fun d =>
  match d.within body with
  | (.ok r, d') => (r, d')
  | (.error e, d') => (.error e, d')

/-- Guarded calls nested `n` deep around nothing. -/
def nest : Nat → GuardedM Unit
  | 0 => pure ()
  | n + 1 => call (nest n)

end GuardedM

end WasmSandbox
