import WasmSandbox.Ieee.Rounding
import WasmSandbox.Ieee.Truncation
import WasmSandbox.Table.Func
import WasmSandbox.TailCall.Trampoline
import WasmSandbox.Word.BitCount
import WasmSandbox.Word.Division
import WasmSandbox.Word.Rotation

/-!
# A catalogue of compiled functions

* `FuncName`: functions of all arities and of many signatures. Their instances are 32-bit words.
* `StepName`: tail steps that loop, hand over, count down and fail; `StepName.sumStep_apply` and the lemmas
  after it say what each does.
* `StepName.halts`: every chain of these steps ends, so `StepName.run` runs all of it.
* `ref`, `funcElement`, `globalElement`: references to the functions, and elements of segments.
-/

namespace WasmSandbox.Guest.Catalogue

/-! ## Functions -/

inductive FuncName where
  | nop
  | boom
  | inst
  | eat
  | add
  | neg
  | clz64
  | rotl64
  | widen
  | trunc
  | fneg
  | floor
  | sub
  | div
  | sum
  | swap
  | divrem
  | three
  | four
  | five
  | six
deriving DecidableEq, Repr

namespace FuncName

def signature : FuncName → Signature
  | nop | boom => { params := [], results := [] }
  | inst => { params := [], results := [.i32] }
  | eat => { params := [.i32], results := [] }
  | add | neg => { params := [.i32], results := [.i32] }
  | clz64 => { params := [.i64], results := [.i32] }
  | rotl64 => { params := [.i64], results := [.i64] }
  | widen => { params := [.i32], results := [.i64] }
  | trunc => { params := [.f32], results := [.i32] }
  | fneg => { params := [.f32], results := [.f32] }
  | floor => { params := [.f64], results := [.f64] }
  | sub | div => { params := [.i32, .i32], results := [.i32] }
  | sum => { params := [.i64, .i64], results := [.i64] }
  | swap => { params := [.i64, .f64], results := [.f64, .i64] }
  | divrem => { params := [.i32, .i32], results := [.i32, .i32] }
  | three => { params := [.i32, .i64, .f32], results := [.f64] }
  | four => { params := [.i32, .i64, .f32, .f64], results := [.i32] }
  | five => { params := [.i32, .i32, .i32, .i32, .i32], results := [.i32] }
  | six => { params := [.i32, .i64, .f32, .f64, .i32, .i64], results := [.i64] }

/-- Fold words into an accumulator: multiply by 31, add the next. -/
def mix {w : Nat} (acc : BitVec w) (vs : List (BitVec w)) : BitVec w :=
  vs.foldl (fun acc v => acc * 31 + v) acc

/-- What a function computes for the instance `c`. -/
def func : (f : FuncName) → Func Outcome I32 f.signature
  | nop => fun _ _ => .ok ()
  | boom => fun _ _ => liftM (unreachable : Except Trap Unit)
  | inst => fun c _ => .ok (c, ())
  | eat => fun _ (x, ()) => if x = 0 then .error (.trap .invalidConversion) else .ok ()
  | add => fun c (x, ()) => .ok (c + x, ())
  | neg => fun _ (x, ()) => .ok (-x, ())
  | clz64 => fun _ (x, ()) => .ok ((Word.clz x).setWidth 32, ())
  | rotl64 => fun c (x, ()) => .ok (Word.rotl x (c.signExtend 64), ())
  | widen => fun _ (x, ()) => .ok (x.signExtend 64, ())
  | trunc => fun _ (x, ()) => do return (← x.truncate .s32, ())
  | fneg => fun _ (x, ()) => .ok (x.neg, ())
  | floor => fun _ (x, ()) => .ok (x.floor, ())
  | sub => fun _ (x, y, ()) => .ok (x - y, ())
  | div => fun _ (x, y, ()) => do return (← Word.divS x y, ())
  | sum => fun _ (x, y, ()) => .ok (y - x, ())
  | swap => fun _ (x, y, ()) => .ok (y, x, ())
  | divrem => fun _ (x, y, ()) => do return (← Word.divU x y, ← Word.remU x y, ())
  | three => fun c (x, y, z, ()) =>
    .ok (F64.ofWord (y ^^^ z.toWord.signExtend 64 ^^^ (x + c).signExtend 64), ())
  | four => fun c (x, y, z, w, ()) => do
    let whole ← w.truncate .s32
    return ((c ^^^ x ^^^ y.setWidth 32) + z.saturate .s32 + whole, ())
  | five => fun c (x, y, z, v, w, ()) => .ok (mix c [x, y, z, v, w], ())
  | six => fun c (x, y, z, v, w, u, ()) =>
    .ok (mix (c.signExtend 64)
      [x.signExtend 64, y, z.toWord.signExtend 64, v.toWord, w.signExtend 64, u], ())

end FuncName

/-! ## Tail steps -/

inductive StepName where
  | sum
  | relay
  | ping
  | boom
deriving DecidableEq, Repr

namespace StepName

abbrev Step := StepM Outcome StepName I32 Unit Unit

/-- Count slot 0 down to zero and add the counts to slot 1, then move the total to slot 0. -/
def sumStep (c : I32) (e : Entry Outcome I32) : Step := do
  let n : I64 ← StepM.onStack (SlotM.get .i64 0)
  let acc : I64 ← StepM.onStack (SlotM.get .i64 1)
  if n = 0 then
    StepM.onStack (SlotM.set .i64 0 acc)
  else
    StepM.onStack (SlotM.set .i64 0 (n - 1))
    StepM.onStack (SlotM.set .i64 1 (acc + n))
    StepM.schedule ⟨.own sum, e, c⟩

/-- Add the instance to slot 0 and hand over to the function `neg`. -/
def relayStep (c : I32) : Step := do
  let x : I32 ← StepM.onStack (SlotM.get .i32 0)
  StepM.onStack (SlotM.set .i32 0 (x + c))
  StepM.schedule (TailCall.ofFunc FuncName.neg.func c)

abbrev unary : Signature := { params := [.i32], results := [.i32] }

/-- Apply a function of one word to slot 0, as often as the instance counts and once more. -/
def pingStep (c : I32) (e : Entry Outcome I32) : Step := do
  match e.restore unary with
  | none => throw (Fault.breach .entryType)
  | some f =>
    let x : I32 ← StepM.onStack (SlotM.get .i32 0)
    let y ← StepM.onWorld (liftM (f c (x, ())))
    StepM.onStack (SlotM.set .i32 0 y.1)
    if 0 < c.toInt then StepM.schedule ⟨.own ping, e, c - 1⟩

/-- Count slot 15 up, schedule the step again, and trap before that can happen. -/
def boomStep (c : I32) (e : Entry Outcome I32) : Step := do
  let x : I32 ← StepM.onStack (SlotM.get .i32 15)
  StepM.onStack (SlotM.set .i32 15 (x + 1))
  StepM.schedule ⟨.own boom, e, c⟩
  throw (Fault.trap .unreachable)

/-- The steps of the catalogue as a family. -/
def family : StepFamily Outcome StepName I32 Unit
  | sum, c, e => sumStep c e
  | relay, c, _ => relayStep c
  | ping, c, e => pingStep c e
  | boom, c, e => boomStep c e

/-! ## What the steps do -/

section Apply

variable (c : I32) (e : Entry Outcome I32) (s : Machine Unit)

theorem sumStep_apply :
    sumStep c e ⟨s, none⟩ =
      if s.stack.first = 0 then
        (.ok (), ⟨{ s with stack := ⟨s.stack.slots.set 0 (s.stack.slot 1)⟩ }, none⟩)
      else
        (.ok (), ⟨{ s with stack :=
          ⟨(s.stack.slots.set 0 (s.stack.first - 1)).set 1 (s.stack.slot 1 + s.stack.first)⟩ },
          some ⟨.own sum, e, c⟩⟩) := by
  rw [sumStep, Outcome.bind_of_ok (StepM.onStack_get .i64 (by decide)),
    Outcome.bind_of_ok (StepM.onStack_get .i64 (by decide))]
  by_cases h : s.stack.first = 0
  · rw [if_pos h]
    refine (congrFun (if_pos h) _).trans ?_
    exact StepM.onStack_set .i64 (by decide) _
  · rw [if_neg h]
    refine (congrFun (if_neg h) _).trans ?_
    rw [Outcome.bind_of_ok (StepM.onStack_set .i64 (by decide) _),
      Outcome.bind_of_ok (StepM.onStack_set .i64 (by decide) _)]
    rfl

theorem relayStep_apply :
    relayStep c ⟨s, none⟩ =
      (.ok (), ⟨{ s with stack :=
        ⟨s.stack.slots.set 0 (NumType.i32.toSlot (NumType.i32.ofSlot s.stack.first + c))⟩ },
        some (.ofFunc FuncName.neg.func c)⟩) := by
  rw [relayStep, Outcome.bind_of_ok (StepM.onStack_get .i32 (by decide)),
    Outcome.bind_of_ok (StepM.onStack_set .i32 (by decide) _)]
  rfl

theorem pingStep_apply_of_none (h : e.restore unary = none) :
    pingStep c e ⟨s, none⟩ = (.error (.breach .entryType), ⟨s, none⟩) := by
  rw [pingStep, h]
  rfl

theorem pingStep_apply {f : Func Outcome I32 unary} (h : e.restore unary = some f) :
    pingStep c e ⟨s, none⟩ =
      match f c (NumType.i32.ofSlot s.stack.first, ()) with
      | .error e' => (.error e', ⟨s, none⟩)
      | .ok y =>
        (.ok (), ⟨{ s with stack := ⟨s.stack.slots.set 0 (NumType.i32.toSlot y.1)⟩ },
          if 0 < c.toInt then some ⟨.own ping, e, c - 1⟩ else none⟩) := by
  rw [pingStep, h]
  refine (Outcome.bind_of_ok (StepM.onStack_get .i32 (by decide))).trans ?_
  cases f c (NumType.i32.ofSlot s.stack.first, ()) with
  | error e' => rfl
  | ok y =>
    refine (Outcome.bind_of_ok (StepM.onWorld_lift (.ok y))).trans ?_
    rw [Outcome.bind_of_ok (StepM.onStack_set .i32 (by decide) _)]
    split <;> rfl

theorem boomStep_apply :
    boomStep c e ⟨s, none⟩ =
      (.error (.trap .unreachable), ⟨{ s with stack :=
        ⟨s.stack.slots.set 15 (NumType.i32.toSlot (NumType.i32.ofSlot (s.stack.slot 15) + 1))⟩ },
        some ⟨.own boom, e, c⟩⟩) := by
  rw [boomStep, Outcome.bind_of_ok (StepM.onStack_get .i32 (by decide)),
    Outcome.bind_of_ok (StepM.onStack_set .i32 (by decide) _)]
  rfl

end Apply

/-! ## Termination -/

/-- A bound on the calls that a tail call of the catalogue leads to. -/
def rank : TailCall Outcome StepName I32 → Machine Unit → Nat
  | ⟨.own sum, _, _⟩, s => s.stack.first.toNat + 1
  | ⟨.own ping, _, c⟩, _ => c.toInt.toNat + 1
  | ⟨.own relay, _, _⟩, _ => 1
  | _, _ => 0

theorem toInt_sub_one {c : I32} (h : 0 < c.toInt) : (c - 1).toInt = c.toInt - 1 := by
  have hlt := BitVec.toInt_lt (x := c)
  rw [BitVec.toInt_sub, show (1 : I32).toInt = 1 from rfl, Int.bmod_eq_of_le]
  · omega
  · omega

theorem rank_lt_of_run (t t' : TailCall Outcome StepName I32) (s s' : Machine Unit)
    (h : t.run family ⟨s, none⟩ = (.ok (), ⟨s', some t'⟩)) : rank t' s' < rank t s := by
  obtain ⟨step, e, c⟩ := t
  cases step with
  | default σ =>
    have hnext := TailCall.next_run_default family σ e c ⟨s, none⟩
    rw [h] at hnext
    cases hnext
  | own label =>
    cases label with
    | sum =>
      have hstep := (sumStep_apply c e s).symm.trans h
      split at hstep
      · cases hstep
      · cases hstep
        rw [rank, rank, SlotStack.first_set_one]
        bv_omega
    | relay =>
      cases (relayStep_apply c s).symm.trans h
      exact Nat.one_pos
    | ping =>
      cases he : e.restore unary with
      | none => cases (pingStep_apply_of_none c e s he).symm.trans h
      | some f =>
        have hstep := (pingStep_apply c e s he).symm.trans h
        cases hf : f c (NumType.i32.ofSlot s.stack.first, ()) with
        | error e' =>
          rw [hf] at hstep
          cases hstep
        | ok y =>
          rw [hf] at hstep
          by_cases hpos : 0 < c.toInt
          · rw [if_pos hpos] at hstep
            cases hstep
            rw [rank, rank, toInt_sub_one hpos]
            omega
          · rw [if_neg hpos] at hstep
            cases hstep
    | boom => cases (boomStep_apply c e s).symm.trans h

/-- Every chain of tail calls of the catalogue ends. -/
theorem halts (frame : Frame Outcome StepName I32 Unit) : Halts (TailCall.advance family) frame :=
  TailCall.halts_of_rank rank rank_lt_of_run frame

/-- Run a tail call and all that it leads to, on a slot stack. -/
def run (t : TailCall Outcome StepName I32) (s : SlotStack) : Outcome Unit × SlotStack :=
  match t.trampoline family ⟨s, ()⟩ (halts _) with
  | (r, s) => (r, s.stack)

end StepName

/-! ## References and elements -/

abbrev Ref := FuncRef Outcome StepName I32

/-- The reference to a function for an instance, with a tail step if one is given. -/
def ref (f : FuncName) (c : I32) (step : Option StepName) : Ref :=
  match step with
  | none => FuncRef.ofFunc f.func c
  | some step => (FuncRef.ofFunc f.func c).withTailStep step

/-- An instance base: an identity, and globals that hold references. -/
structure Base where
  id : I32
  globals : List (Option Ref)

/-- How the instance of an element follows from the base. -/
inductive Projection where
  | id
  | negId
  | zero
deriving DecidableEq, Repr

def Projection.owner : Projection → Base → I32
  | id, base => base.id
  | negId, base => -base.id
  | zero, _ => 0

abbrev Element := ElemExpr Outcome StepName Base I32

/-- The element for a function, with a tail step if one is given. -/
def funcElement (f : FuncName) (p : Projection) (step : Option StepName) : Element :=
  match step with
  | none => .refFunc (FuncDesc.ofFunc f.func p.owner)
  | some step => .refFunc ((FuncDesc.ofFunc f.func p.owner).withTailStep step)

/-- The element for a global of the base. -/
def globalElement (i : Nat) : Element := .globalGet fun base => (base.globals[i]?).join

end WasmSandbox.Guest.Catalogue
