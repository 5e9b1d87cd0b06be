import WasmSandbox.Function.Basic

/-!
# Tail calls

* `TailStep`: the code that a tail call runs: the default step of a signature, or a step of its own.
* `TailCall`: a step with the entry and the instance that it is run for.
* `Frame`: a machine and the tail call that is scheduled. `Frame.take` takes that call out.
* `StepM`: what a step can do: work on the slot stack and on the world, schedule a tail call, fail.
* `StepFamily`: the meaning of the steps of their own.
* `TailCall.run`: run one tail call.
-/

namespace WasmSandbox

/-- The code that a tail call runs. -/
inductive TailStep (ι : Type) where
  /-- Call the entry as a function of the signature, with its arguments and results in slots. -/
  | default (σ : Signature)
  /-- The step with this label. -/
  | own (label : ι)
deriving DecidableEq

/-- A scheduled call: `owner` is the instance that the entry runs for. -/
structure TailCall (m : Type → Type) (ι C : Type) where
  step : TailStep ι
  entry : Entry m C
  owner : C

/-- A machine, and the tail call that is scheduled. -/
structure Frame (m : Type → Type) (ι C W : Type) extends Machine W where
  next : Option (TailCall m ι C)

section Steps

variable {m : Type → Type} {ι C W α : Type}

/-- The scheduled call, which is scheduled no longer. -/
def Frame.take (frame : Frame m ι C W) : Option (TailCall m ι C) × Frame m ι C W :=
  (frame.next, { frame with next := none })

variable (m ι C W) in
abbrev StepM := Effect (Frame m ι C W)

namespace StepM

def onMachine (x : Effect (Machine W) α) : StepM m ι C W α :=
  .focus Frame.toMachine (fun s frame => { frame with toMachine := s }) x

def onStack (x : SlotM α) : StepM m ι C W α := onMachine (Machine.onStack x)

def onWorld (x : Effect W α) : StepM m ι C W α := onMachine (Machine.onWorld x)

/-- Schedule a tail call, in place of any scheduled before. -/
def schedule (t : TailCall m ι C) : StepM m ι C W Unit := fun frame =>
  (.ok (), { frame with next := some t })

/-! ## Running a step -/

variable {frame : Frame m ι C W}

theorem onStack_get (t : NumType) {i : Nat} (h : i < 16) :
    (onStack (SlotM.get t i) : StepM m ι C W t.Value) frame =
      (.ok (t.ofSlot (frame.stack.slot i h)), frame) := by
  rw [onStack, onMachine, Machine.onStack, Effect.focus, Effect.focus, SlotM.get,
    SlotStack.get_of_lt _ _ h]
  rfl

theorem onStack_set (t : NumType) {i : Nat} (h : i < 16) (v : t.Value) :
    (onStack (SlotM.set t i v) : StepM m ι C W Unit) frame =
      (.ok (), { frame with stack := ⟨frame.stack.slots.set i (t.toSlot v)⟩ }) := by
  rw [onStack, onMachine, Machine.onStack, Effect.focus, Effect.focus, SlotM.set,
    SlotStack.set_of_lt _ _ h]

theorem onWorld_lift (x : Outcome α) :
    (onWorld (liftM x) : StepM m ι C W α) frame = (x, frame) := rfl

theorem schedule_apply (t : TailCall m ι C) :
    (schedule t : StepM m ι C W Unit) frame = (.ok (), { frame with next := some t }) := rfl

theorem next_of_onMachine {x : Effect (Machine W) α} {frame' : Frame m ι C W} {r : Outcome α}
    (h : onMachine x frame = (r, frame')) : frame'.next = frame.next :=
  congrArg (fun y => y.2.next) h.symm

end StepM

variable (m ι C W) in
/-- What each step of its own does for an instance and an entry. -/
abbrev StepFamily := ι → C → Entry m C → StepM m ι C W Unit

variable [MonadLiftT m (Effect W)]

/-- Run a step. The default step needs an entry that was erased from its signature. -/
def TailStep.run (family : StepFamily m ι C W) (c : C) (e : Entry m C) :
    TailStep ι → StepM m ι C W Unit
  | default σ =>
    match e.restore σ with
    | some f => StepM.onMachine (f.callOnStack c)
    | none => throw (.breach .entryType)
  | own label => family label c e

namespace TailCall

/-- The call of a function that has no step of its own. -/
def ofFunc {σ : Signature} (f : Func m C σ) (c : C) : TailCall m ι C :=
  ⟨.default σ, f.erase, c⟩

/-- Run a tail call, with its own entry and instance. -/
def run (family : StepFamily m ι C W) (t : TailCall m ι C) : StepM m ι C W Unit :=
  t.step.run family t.owner t.entry

theorem run_ofFunc (family : StepFamily m ι C W) {σ : Signature} (f : Func m C σ) (c : C) :
    (ofFunc f c).run family = StepM.onMachine (f.callOnStack c) := by
  rw [run, ofFunc, TailStep.run, Entry.restore_erase]

theorem next_run_default (family : StepFamily m ι C W) (σ : Signature) (e : Entry m C) (c : C)
    (frame : Frame m ι C W) :
    ((⟨.default σ, e, c⟩ : TailCall m ι C).run family frame).2.next = frame.next := by
  rw [run, TailStep.run]
  cases e.restore σ with
  | none => rfl
  | some f => rfl

end TailCall

end Steps

end WasmSandbox
