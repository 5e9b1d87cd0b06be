import WasmSandbox.Function.Signature
import WasmSandbox.SlotStack

/-!
# Compiled functions and their entries

* `Func m C σ`: a function of signature `σ` that runs for an instance of type `C`, with effects `m`.
* `Entry m C`: a function whose signature has been erased from its type.
* `Entry.restore`: the function of an entry under a signature. There is one only under the signature
  that the entry was erased from.
* `Machine W`: a slot stack, and a world that functions may change through the instance they run for.
* `Func.callOnStack`: call a function with its arguments and results in slots.
-/

namespace WasmSandbox

/-- A compiled function. It belongs to no instance; each call names the one it runs for. -/
def Func (m : Type → Type) (C : Type) (σ : Signature) : Type :=
  C → Values σ.params → m (Values σ.results)

/-- A function together with the signature it was erased from. -/
structure Entry (m : Type → Type) (C : Type) where
  signature : Signature
  func : Func m C signature

section Erasure

variable {m : Type → Type} {C : Type}

/-- Forget the signature of a function. -/
def Func.erase {σ : Signature} (f : Func m C σ) : Entry m C := ⟨σ, f⟩

/-- The function of an entry, asked for under a signature. -/
def Entry.restore (e : Entry m C) (σ : Signature) : Option (Func m C σ) :=
  if h : e.signature = σ then some (h ▸ e.func) else none

@[simp] theorem Entry.restore_erase {σ : Signature} (f : Func m C σ) :
    f.erase.restore σ = some f := by simp [Entry.restore, Func.erase]

end Erasure

/-- A slot stack, and the world that the instances share. -/
structure Machine (W : Type) where
  stack : SlotStack
  world : W

namespace Machine

variable {W α : Type}

/-- Work on the slot stack. -/
def onStack (x : SlotM α) : Effect (Machine W) α :=
  .focus stack (fun stack s => { s with stack }) x

/-- Work on the world. -/
def onWorld (x : Effect W α) : Effect (Machine W) α :=
  .focus world (fun world s => { s with world }) x

variable {r : Outcome α} {s : Machine W}

theorem onStack_apply {x : SlotM α} {stack : SlotStack} (h : x s.stack = (r, stack)) :
    onStack x s = (r, { s with stack }) := Effect.focus_apply h

theorem onWorld_apply {x : Effect W α} {world : W} (h : x s.world = (r, world)) :
    onWorld x s = (r, { s with world }) := Effect.focus_apply h

end Machine

/-- Call a function: read the arguments from the first slots, and write the results over them. A
function that fails has not written to the slots. -/
def Func.callOnStack {m : Type → Type} {C W : Type} {σ : Signature} [MonadLiftT m (Effect W)]
    (f : Func m C σ) (c : C) : Effect (Machine W) Unit := do
  let args ← Machine.onStack (SlotM.load σ.params)
  let results ← Machine.onWorld (liftM (f c args))
  Machine.onStack (SlotM.store σ.results results)

end WasmSandbox
