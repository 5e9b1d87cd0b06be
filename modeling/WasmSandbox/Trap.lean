/-!
# Traps, breaches and faults

* `Trap`: the ways a guest computation can stop, each visible to the host.
* `Breach`: the steps a sound runtime never takes (a slice outside its storage, arithmetic on sizes
  and indices that leaves their word, an entry run under a foreign signature).
* `Fault`, `Outcome`: a trap or a breach, and the results of computations that either can stop.
* `Effect S`: computations that change a state as well. What they changed before they were stopped stays.
* `Effect.focus`: a computation on a part of the state.
* `SizeError`: why a memory or a table could not be created.
-/

namespace WasmSandbox

/-- The reasons for which guest code stops. -/
inductive Trap where
  | outOfBounds
  | divisionByZero
  | integerOverflow
  | invalidConversion
  | callStackExhausted
  | unreachable
  | indirectCallTypeMismatch
  | tableOutOfBounds
  | undefinedElement
deriving DecidableEq, Repr

namespace Trap

def raise {α : Type} (t : Trap) : Except Trap α := .error t

/-- An access left a memory or a table. -/
def isOutOfBounds : Trap → Bool
  | outOfBounds | tableOutOfBounds => true
  | _ => false

/-- An indirect call found no function of the expected type. -/
def isCallIndirect : Trap → Bool
  | undefinedElement | indirectCallTypeMismatch => true
  | _ => false

end Trap

def unreachable {α : Type} : Except Trap α := Trap.raise .unreachable

/-- Steps that no run of a sound runtime takes. They are kept apart from traps so that their absence
can be stated. -/
inductive Breach where
  /-- A slice does not lie inside its storage. -/
  | sliceRange
  /-- Two slices that are copied onto each other differ in length. -/
  | sliceLength
  /-- A size or an index does not fit in its word. -/
  | arithmetic
  /-- An access that nobody checked leaves the active region. -/
  | unchecked
  /-- An entry is called under a signature it was not erased from. -/
  | entryType
deriving DecidableEq, Repr

inductive Fault where
  | trap (kind : Trap)
  | breach (kind : Breach)
deriving DecidableEq, Repr

/-- The outcome of a computation: a value, or what stopped it. -/
abbrev Outcome := Except Fault

/-- Computations that change a state. -/
abbrev Effect (S : Type) := ExceptT Fault (StateM S)

instance : MonadLift (Except Trap) Outcome := ⟨Except.mapError Fault.trap⟩

namespace Outcome

variable {ε α β : Type}

@[simp] theorem ok_bind (a : α) (f : α → Except ε β) : (Except.ok a >>= f) = f a := rfl

@[simp] theorem error_bind (e : ε) (f : α → Except ε β) :
    ((Except.error e : Except ε α) >>= f) = .error e := rfl

@[simp] theorem pure_eq_ok (a : α) : (pure a : Except ε α) = .ok a := rfl

@[simp] theorem throw_eq_error (e : ε) : (throw e : Except ε α) = .error e := rfl

@[simp] theorem lift_ok (a : α) : (liftM (Except.ok a : Except Trap α) : Outcome α) = .ok a := rfl

@[simp] theorem lift_error (t : Trap) :
    (liftM (Except.error t : Except Trap α) : Outcome α) = .error (.trap t) := rfl

theorem bind_eq_ok {x : Except ε α} {f : α → Except ε β} {b : β} (h : (x >>= f) = .ok b) :
    ∃ a, x = .ok a ∧ f a = .ok b := by
  cases x with
  | error e => cases h
  | ok a => exact ⟨a, rfl, h⟩

/-- What a computation does after another one, which leaves its state also when it fails. -/
theorem bind_apply {S : Type} (x : ExceptT ε (StateM S) α) (f : α → ExceptT ε (StateM S) β) (s : S) :
    (x >>= f) s =
      match x s with
      | (.ok a, s') => f a s'
      | (.error e, s') => (.error e, s') := by
  simp only [bind, ExceptT.bind, ExceptT.mk, StateT.bind]
  rcases x s with ⟨_ | _, _⟩ <;> rfl

section Bind

variable {S : Type} {x : ExceptT ε (StateM S) α} {f : α → ExceptT ε (StateM S) β} {s s' : S}

theorem bind_of_ok {a : α} (h : x s = (.ok a, s')) : (x >>= f) s = f a s' := by
  rw [bind_apply, h]

theorem bind_of_error {e : ε} (h : x s = (.error e, s')) : (x >>= f) s = (.error e, s') := by
  rw [bind_apply, h]

theorem lift_ok_bind (a : α) : ((liftM (Except.ok a : Except ε α) : ExceptT ε (StateM S) α) >>= f) s =
    f a s := rfl

end Bind

end Outcome

namespace Effect

variable {S T α : Type}

/-- Work on a part of the state. -/
def focus (part : S → T) (put : T → S → S) (x : Effect T α) : Effect S α := fun s =>
  match x (part s) with
  | (r, t) => (r, put t s)

theorem focus_apply {part : S → T} {put : T → S → S} {x : Effect T α} {s : S} {r : Outcome α} {t : T}
    (h : x (part s) = (r, t)) : focus part put x s = (r, put t s) := by
  rw [focus, h]

@[simp] theorem lift_apply (x : Outcome α) (s : S) : (liftM x : Effect S α) s = (x, s) := rfl

theorem throw_apply (e : Fault) (s : S) : (throw e : Effect S α) s = (.error e, s) := rfl

end Effect

/-- A memory or a table was asked to start larger than its maximum. -/
inductive SizeError where
  | memoryPages (initial max : Nat)
  | tableSlots (initial max : Nat)
deriving DecidableEq, Repr

namespace SizeError

/-- Instantiation that meets a size error traps. -/
def trap : SizeError → Trap
  | memoryPages .. | tableSlots .. => .outOfBounds

/-- The size error as a fault of the instantiation. -/
def fault (e : SizeError) : Fault := .trap e.trap

end SizeError

end WasmSandbox
