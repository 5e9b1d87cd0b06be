import WasmSandbox.Table.Func
import WasmSandbox.TailCall.Trampoline

/-!
# Counting down by tail calls

* `Countdown.isEven`, `Countdown.isOdd`: parity by two functions that tail-call each other.
* `Countdown.sumTo`: the sum of the numbers up to `n`, by a function that tail-calls itself.
* `Countdown.dispatch`: a tail call through a table that holds the two, and a test for zero that makes
  no tail calls.
* `Countdown.dispatchMistyped`: the same under a type that no slot has.
* `Countdown.run_own`: what one tail call does. `Countdown.halts`: every chain of them ends, since each
  lowers slot 0.
-/

namespace WasmSandbox.Guest.Countdown

inductive Label where
  | even
  | odd
  | sumTo
deriving DecidableEq, Repr

abbrev predicate : Signature := { params := [.i64], results := [.i32] }

abbrev accumulate : Signature := { params := [.i64, .i64], results := [.i64] }

/-! ## Tail steps -/

/-- Computations of the steps. The functions of the module work on no world. -/
abbrev Step := StepM Outcome Label Unit Unit Unit

/-- A step of the parity functions: end with `answer` at zero, and otherwise hand the number less one
over to the function `other`. -/
def parityStep (answer : I32) (other : Label) (e : Entry Outcome Unit) : Step := do
  let n : I64 ← StepM.onStack (SlotM.get .i64 0)
  if n = 0 then
    StepM.onStack (SlotM.set .i32 0 answer)
  else
    StepM.onStack (SlotM.set .i64 0 (n - 1))
    StepM.schedule ⟨.own other, e, ()⟩

/-- A step of the summation: add the number to the total and go on with the number less one; at zero,
end with the total. -/
def sumStep (e : Entry Outcome Unit) : Step := do
  let n : I64 ← StepM.onStack (SlotM.get .i64 0)
  let acc : I64 ← StepM.onStack (SlotM.get .i64 1)
  if n = 0 then
    StepM.onStack (SlotM.set .i64 0 acc)
  else
    StepM.onStack (SlotM.set .i64 0 (n - 1))
    StepM.onStack (SlotM.set .i64 1 (acc + n))
    StepM.schedule ⟨.own .sumTo, e, ()⟩

/-- The steps of the module. The parity steps pass their entry on; none of them runs it. -/
def family : StepFamily Outcome Label Unit Unit
  | .even, _, e => parityStep 1 .odd e
  | .odd, _, e => parityStep 0 .even e
  | .sumTo, _, e => sumStep e

/-! ## One tail call -/

namespace Label

/-- The function that is tail-called. -/
def next : Label → Label
  | even => odd
  | odd => even
  | sumTo => sumTo

/-- The stack on which it is called, away from zero. -/
def handOver (s : SlotStack) : Label → SlotStack
  | even | odd => ⟨s.slots.set 0 (s.first - 1)⟩
  | sumTo => ⟨(s.slots.set 0 (s.first - 1)).set 1 (s.slot 1 + s.first)⟩

/-- The stack with the result, at zero. -/
def finish (s : SlotStack) : Label → SlotStack
  | even => ⟨s.slots.set 0 1⟩
  | odd => ⟨s.slots.set 0 0⟩
  | sumTo => ⟨s.slots.set 0 (s.slot 1)⟩

theorem first_handOver (label : Label) (s : SlotStack) : (label.handOver s).first = s.first - 1 := by
  cases label with
  | even | odd => exact s.slot_set_self SlotStack.zero_lt_slotCount _
  | sumTo => exact s.first_set_one _ _

end Label

section Turn

variable (e : Entry Outcome Unit) (s : SlotStack)

theorem parityStep_apply (answer : I32) (other : Label) :
    parityStep answer other e ⟨⟨s, ()⟩, none⟩ =
      if s.first = 0 then (.ok (), ⟨⟨⟨s.slots.set 0 (answer.setWidth 64)⟩, ()⟩, none⟩)
      else (.ok (), ⟨⟨⟨s.slots.set 0 (s.first - 1)⟩, ()⟩, some ⟨.own other, e, ()⟩⟩) := by
  rw [parityStep, Outcome.bind_of_ok (StepM.onStack_get .i64 (by decide))]
  by_cases h : s.first = 0
  · rw [if_pos h]
    refine (congrFun (if_pos h) _).trans ?_
    exact StepM.onStack_set .i32 (by decide) answer
  · rw [if_neg h]
    refine (congrFun (if_neg h) _).trans ?_
    rw [Outcome.bind_of_ok (StepM.onStack_set .i64 (by decide) _)]
    rfl

theorem sumStep_apply :
    sumStep e ⟨⟨s, ()⟩, none⟩ =
      if s.first = 0 then (.ok (), ⟨⟨⟨s.slots.set 0 (s.slot 1)⟩, ()⟩, none⟩)
      else (.ok (), ⟨⟨⟨(s.slots.set 0 (s.first - 1)).set 1 (s.slot 1 + s.first)⟩, ()⟩,
        some ⟨.own .sumTo, e, ()⟩⟩) := by
  rw [sumStep, Outcome.bind_of_ok (StepM.onStack_get .i64 (by decide)),
    Outcome.bind_of_ok (StepM.onStack_get .i64 (by decide))]
  by_cases h : s.first = 0
  · rw [if_pos h]
    refine (congrFun (if_pos h) _).trans ?_
    exact StepM.onStack_set .i64 (by decide) _
  · rw [if_neg h]
    refine (congrFun (if_neg h) _).trans ?_
    rw [Outcome.bind_of_ok (StepM.onStack_set .i64 (by decide) _),
      Outcome.bind_of_ok (StepM.onStack_set .i64 (by decide) _)]
    rfl

/-- **What one tail call of the module does.** -/
theorem run_own (label : Label) :
    (⟨.own label, e, ()⟩ : TailCall Outcome Label Unit).run family ⟨⟨s, ()⟩, none⟩ =
      if s.first = 0 then (.ok (), ⟨⟨label.finish s, ()⟩, none⟩)
      else (.ok (), ⟨⟨label.handOver s, ()⟩, some ⟨.own label.next, e, ()⟩⟩) := by
  cases label with
  | even => exact parityStep_apply e s 1 .odd
  | odd => exact parityStep_apply e s 0 .even
  | sumTo => exact sumStep_apply e s

end Turn

/-! ## Termination -/

/-- A bound on the calls that a tail call leads to. -/
def rank : TailCall Outcome Label Unit → Machine Unit → Nat
  | ⟨.own _, _, _⟩, s => s.stack.first.toNat + 1
  | ⟨.default _, _, _⟩, _ => 0

theorem rank_lt_of_run (t t' : TailCall Outcome Label Unit) (s s' : Machine Unit)
    (h : t.run family ⟨s, none⟩ = (.ok (), ⟨s', some t'⟩)) : rank t' s' < rank t s := by
  obtain ⟨step, e, c⟩ := t
  cases step with
  | default σ =>
    have hnext := TailCall.next_run_default family σ e c ⟨s, none⟩
    rw [h] at hnext
    cases hnext
  | own label =>
    rw [run_own] at h
    split at h
    · cases h
    · cases h
      rw [rank, rank, Label.first_handOver]
      bv_omega

/-- Every chain of tail calls of the module ends. -/
theorem halts (frame : Frame Outcome Label Unit Unit) : Halts (TailCall.advance family) frame :=
  TailCall.halts_of_rank rank rank_lt_of_run frame

/-- Run a tail call and all that it leads to, on a slot stack. -/
def run (t : TailCall Outcome Label Unit) (s : SlotStack) : Outcome Unit × SlotStack :=
  match t.trampoline family ⟨s, ()⟩ (halts _) with
  | (r, s) => (r, s.stack)

/-! ## The module -/

/-- Run the tail call that was scheduled, if any, on arguments in the first slots, and read the result
from them. -/
def tailCall (params : List NumType) (args : Values params) (result : NumType)
    (scheduled : Option (TailCall Outcome Label Unit)) : Outcome result.Value :=
  match SlotM.store params args {} with
  | (.error e, _) => .error e
  | (.ok (), s) =>
    match scheduled.elim (.ok (), s) (run · s) with
    | (.error e, _) => .error e
    | (.ok (), s) => (s.get result 0).mapError Fault.trap

/-- The entry of a chain that is not started from the table. The steps of the module pass their entry
on and never run it. -/
def directEntry (σ : Signature) : Entry Outcome Unit :=
  Func.erase (σ := σ) fun _ _ => .error (.trap .unreachable)

def isEven (n : I64) : Outcome I32 :=
  tailCall [.i64] (n, ()) .i32 (some ⟨.own .even, directEntry predicate, ()⟩)

def isOdd (n : I64) : Outcome I32 :=
  tailCall [.i64] (n, ()) .i32 (some ⟨.own .odd, directEntry predicate, ()⟩)

/-- `acc` plus the numbers up to `n`, read as unsigned. -/
def sumTo (n acc : I64) : Outcome I64 :=
  tailCall [.i64, .i64] (n, acc, ()) .i64 (some ⟨.own .sumTo, directEntry accumulate, ()⟩)

/-- The function in slot 0: parity, with a tail step. -/
def evenFunc : Func Outcome Unit predicate := fun _ (n, ()) => do return (← isEven n, ())

/-- The function in slot 1: parity, with a tail step. -/
def oddFunc : Func Outcome Unit predicate := fun _ (n, ()) => do return (← isOdd n, ())

/-- The function in slot 2: a test for zero, without a tail step. -/
def zeroFunc : Func Outcome Unit predicate := fun _ (n, ()) => .ok (if n = 0 then 1 else 0, ())

def elements : List (Option (FuncRef Outcome Label Unit)) :=
  [some ((FuncRef.ofFunc evenFunc ()).withTailStep .even),
    some ((FuncRef.ofFunc oddFunc ()).withTailStep .odd),
    some (FuncRef.ofFunc zeroFunc ())]

end WasmSandbox.Guest.Countdown

namespace WasmSandbox.Guest

structure Countdown where
  table : Table (FuncRef Outcome Countdown.Label Unit) 3

namespace Countdown

def instantiate : Outcome Countdown := do
  let table ← (Table.create 3).mapError SizeError.fault
  match table.initElements 0 elements with
  | (.ok (), table) => return ⟨table⟩
  | (.error e, _) => throw e

/-- Call the function in slot `op` on `n` by a tail call. -/
def dispatch (c : Countdown) (n : I64) (op : I32) : Outcome I32 :=
  match c.table.returnCallIndirect op predicate none with
  | (.ok (), scheduled) => tailCall [.i64] (n, ()) .i32 scheduled
  | (.error e, _) => .error (.trap e)

/-- Look up the function in slot `op` under the type of the summation, which no slot has. -/
def dispatchMistyped (c : Countdown) (op : I32) : Outcome Unit :=
  (c.table.returnCallIndirect op accumulate none).1.mapError Fault.trap

end Countdown

end WasmSandbox.Guest
