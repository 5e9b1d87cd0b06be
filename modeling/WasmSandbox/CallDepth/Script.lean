import WasmSandbox.CallDepth.Basic

/-!
# Scripts of calls

* `CallStep`: an operation of the counter, or a call whose body is itself a script.
* `CallStep.exec`, `CallStep.execAll`: run a step, or a script, and report on every step.

A trap of an inner step is recorded and does not end the body around it; how a body ends is part of
the script.
-/

namespace WasmSandbox

inductive CallStep where
  | enter
  | exit
  | reset
  | max
  /-- A guarded call that runs a script, and then returns or traps. -/
  | call (body : List CallStep) (fate : Option Trap)
  /-- Guarded calls nested this deep. -/
  | nest (n : Nat)

inductive CallReport where
  | done (r : Except Trap Unit)
  | limit (max : BitVec 32)
  /-- How a call ended, and what each step of its body reported, with the depth after it. -/
  | called (r : Except Trap Unit) (body : List (CallReport × BitVec 32))
  | nested (r : Except Trap Nat)

namespace CallStep

/-- The end of a body: a return, or a trap. -/
def ending : Option Trap → Except Trap Unit
  | none => .ok ()
  | some t => t.raise

mutual

def exec : CallStep → CallDepth → CallReport × CallDepth
  | enter, d =>
    match d.enter with
    | .ok d' => (.done (.ok ()), d')
    | .error e => (.done (.error e), d)
  | exit, d => (.done (.ok ()), d.exit)
  | reset, d => (.done (.ok ()), d.reset)
  | max, d => (.limit d.max, d)
  | call body fate, d =>
    match d.within (execAll body) with
    | (.ok reports, d') => (.called (ending fate) reports, d')
    | (.error e, d') => (.called (.error e) [], d')
  | nest n, d =>
    match GuardedM.nest n d with
    | (.ok (), d') => (.nested (.ok n), d')
    | (.error e, d') => (.nested (.error e), d')

def execAll : List CallStep → CallDepth → List (CallReport × BitVec 32) × CallDepth
  | [], d => ([], d)
  | s :: rest, d =>
    let (report, d') := exec s d
    let (reports, d'') := execAll rest d'
    ((report, d'.depth) :: reports, d'')

end

end CallStep

end WasmSandbox
