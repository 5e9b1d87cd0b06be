import WasmSandbox.CallDepth.Basic

/-!
# Trees of guarded calls

* `CallTree α`: guest code, as far as the call depth is concerned. It looks at the counter, makes guarded
  calls whose bodies are trees again, goes on in view of how they ended, and ends with a value or a trap.
* `CallTree.run`: run a tree. Its calls are `GuardedM.call`.
* `Control α`, `Control.step`: a tree on its way, with the calls that are open, and one step of it.
* `Routine F α`, `Routine.unroll`: functions that call each other, perhaps without end, and the tree of such
  a function down to some depth of calls.
-/

namespace WasmSandbox

/-- Guest code that is made of guarded calls. What follows a call may propagate its trap, or ignore it. -/
inductive CallTree (α : Type) where
  /-- A return or a trap. -/
  | done (r : Except Trap α)
  /-- A look at the counter. -/
  | look (next : CallDepth → CallTree α)
  /-- A guarded call, and what follows it. -/
  | call (body : CallTree α) (next : Except Trap α → CallTree α)

def CallTree.run {α : Type} : CallTree α → GuardedM α
  | done r, d => (r, d)
  | look next, d => (next d).run d
  | call body next, d =>
    match GuardedM.call body.run d with
    | (r, d') => (next r).run d'

/-- A tree on its way: what is left of the innermost open call, what follows each call that is open, and
the counter. -/
structure Control (α : Type) where
  current : CallTree α
  frames : List (Except Trap α → CallTree α)
  counter : CallDepth

/-- One step, unless there is nothing left to do. -/
def Control.step {α : Type} : Control α → Option (Control α)
  | ⟨.done _, [], _⟩ => none
  | ⟨.done r, next :: frames, d⟩ => some ⟨next r, frames, d.exit⟩
  | ⟨.look next, frames, d⟩ => some ⟨next d, frames, d⟩
  | ⟨.call body next, frames, d⟩ =>
    match d.enter with
    | .ok d' => some ⟨body, next :: frames, d'⟩
    | .error e => some ⟨next (.error e), frames, d⟩

/-- The body of a function among functions that call each other. `F` names them, with their arguments. -/
inductive Routine (F α : Type) where
  | done (r : Except Trap α)
  | look (next : CallDepth → Routine F α)
  | call (f : F) (next : Except Trap α → Routine F α)

namespace Routine

variable {F α : Type}

/-- The tree of a body, by the trees of the functions that it calls. -/
def tree (callee : F → CallTree α) : Routine F α → CallTree α
  | done r => .done r
  | look next => .look fun d => (next d).tree callee
  | call f next => .call (callee f) fun r => (next r).tree callee

/-- The tree of a function, with `cut` for the functions that are called `n` deep. -/
def unroll (code : F → Routine F α) (cut : F → CallTree α) : Nat → F → CallTree α
  | 0 => cut
  | n + 1 => fun f => (code f).tree (unroll code cut n)

end Routine

end WasmSandbox
