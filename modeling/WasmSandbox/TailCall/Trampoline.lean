import WasmSandbox.Iteration
import WasmSandbox.TailCall.Basic

/-!
# The trampoline

* `TailCall.advance`: one turn of the loop that runs tail calls. It takes the scheduled call and runs it;
  it ends when nothing is scheduled or when a call fails.
* `TailCall.trampoline`: run a tail call and all that it leads to. It is defined for the calls whose chain
  ends.
* `TailCall.halts_of_rank`: every chain ends if each call lowers the rank of the one that it schedules.
-/

namespace WasmSandbox.TailCall

variable {m : Type → Type} {ι C W : Type} [MonadLiftT m (Effect W)]

/-- One turn of the loop. -/
def advance (family : StepFamily m ι C W) (frame : Frame m ι C W) :
    Frame m ι C W ⊕ (Outcome Unit × Machine W) :=
  match frame.take with
  | (none, frame) => .inr (.ok (), frame.toMachine)
  | (some t, frame) =>
    match t.run family frame with
    | (.ok (), frame) => .inl frame
    | (.error e, frame) => .inr (.error e, frame.toMachine)

/-- Run a tail call and all that it leads to. -/
def trampoline (family : StepFamily m ι C W) (t : TailCall m ι C) (s : Machine W)
    (h : Halts (advance family) ⟨s, some t⟩) : Outcome Unit × Machine W :=
  repeatUntil (advance family) ⟨s, some t⟩ h

section Turns

variable {family : StepFamily m ι C W} {t : TailCall m ι C} {s : Machine W}

theorem advance_none : advance family ⟨s, none⟩ = .inr (.ok (), s) := rfl

theorem advance_of_ok {frame : Frame m ι C W} (h : t.run family ⟨s, none⟩ = (.ok (), frame)) :
    advance family ⟨s, some t⟩ = .inl frame := by
  simp only [advance, Frame.take, h]

theorem advance_of_error {e : Fault} {frame : Frame m ι C W}
    (h : t.run family ⟨s, none⟩ = (.error e, frame)) :
    advance family ⟨s, some t⟩ = .inr (.error e, frame.toMachine) := by
  simp only [advance, Frame.take, h]

theorem run_of_advance {frame : Frame m ι C W} (h : advance family ⟨s, some t⟩ = .inl frame) :
    t.run family ⟨s, none⟩ = (.ok (), frame) := by
  rcases hrun : t.run family ⟨s, none⟩ with ⟨_ | _, _⟩
  · cases (advance_of_error hrun).symm.trans h
  · cases (advance_of_ok hrun).symm.trans h
    rfl

/-- Chains end if each call has a greater rank than the call that it schedules. -/
theorem halts_of_rank (rank : TailCall m ι C → Machine W → Nat)
    (h : ∀ t t' s s', t.run family ⟨s, none⟩ = (.ok (), ⟨s', some t'⟩) → rank t' s' < rank t s)
    (frame : Frame m ι C W) : Halts (advance family) frame := by
  refine Halts.of_rank
    (fun frame => frame.next.elim 0 fun t => rank t frame.toMachine + 1) ?_ frame
  rintro ⟨s, next⟩ ⟨s', next'⟩ hturn
  cases next with
  | none => cases hturn
  | some t =>
    cases next' with
    | none => exact Nat.succ_pos _
    | some t' => exact Nat.succ_lt_succ (h t t' s s' (run_of_advance hturn))

end Turns

end WasmSandbox.TailCall
