import WasmSandbox.CallDepth.Basic
import WasmSandbox.Word.Basic

/-!
# Fibonacci numbers and deep recursion

* `Fibonacci.plain`: the Fibonacci numbers in 32 bits; an index up to 1 is its own number.
* `Fibonacci.fib`, `Fibonacci.depth`, `Fibonacci.fibo`: a guest module that computes them by double
  recursion, counts its argument down by recursion, and computes them by a loop.
* `Fibonacci.Export`, `Fibonacci.Export.exec`: the exports as data, and a call of one.

Every call of the module is guarded by the call depth, so a body is a computation that runs only if the
call is let in.
-/

namespace WasmSandbox.Guest.Fibonacci

/-! ## The plain computation -/

/-- Advance a pair of neighbouring Fibonacci numbers by `k` places, and take the second. -/
def advance : (k : Nat) → (a b : Int32) → Int32
  | 0, _, b => b
  | k + 1, a, b => advance k b (a + b)

/-- The Fibonacci number of a signed index, in 32 bits. -/
def plain (n : I32) : I32 :=
  if n.toInt ≤ 1 then n else (advance (n.toInt.toNat - 1) 0 1).toBitVec

/-! ## The guest module -/

theorem toInt_sub_one {n : I32} (h : 0 ≤ n.toInt) : (n - 1).toInt = n.toInt - 1 :=
  I32.toInt_sub_of_nonneg h (by decide)

theorem toInt_sub_two {n : I32} (h : 0 ≤ n.toInt) : (n - 2).toInt = n.toInt - 2 :=
  I32.toInt_sub_of_nonneg h (by decide)

/-- Double recursion: the number is `n` below 2, and the sum of the two before it otherwise. -/
def fib (n : I32) : GuardedM I32 :=
  GuardedM.call <|
    if n.toInt < 2 then return n
    else do
      let a ← fib (n - 1)
      let b ← fib (n - 2)
      return a + b
termination_by n.toInt.toNat
decreasing_by
  · rw [toInt_sub_one (by omega)]
    omega
  · rw [toInt_sub_two (by omega)]
    omega

/-- Recursion down to 0, which counts the calls on the way back. A negative argument is counted down
through all the words below it. -/
def depth (n : I32) : GuardedM I32 :=
  GuardedM.call <|
    if n = 0 then return 0
    else return (← depth (n - 1)) + 1
termination_by n.toNat
decreasing_by bv_omega

/-- The counter of the loop, and the pair of numbers that it advances. -/
structure Locals where
  i : Int32
  a : Int32
  b : Int32
deriving DecidableEq, Repr

namespace Locals

def next (s : Locals) : Locals := ⟨s.i + 1, s.b, s.a + s.b⟩

/-- The loop up to `n`: it ends once the counter exceeds that. A loop that goes on for ever has no
result. -/
def loop (n : Int32) (s : Locals) : Option Int32 :=
  if n < s.next.i then some s.next.b else s.next |>.loop n
partial_fixpoint

end Locals

/-- The same numbers by a loop. The counter wraps before it is compared. -/
def iterate (n : I32) : Option I32 :=
  if n.toInt ≤ 1 then some n
  else (Locals.loop (Int32.ofBitVec n) ⟨2, 0, 1⟩).map Int32.toBitVec

/-- The guarded call of the loop, which does not run if the call is refused. -/
def fibo (n : I32) : GuardedM (Option I32) := GuardedM.call fun d => (.ok (iterate n), d)

/-- The exports of the module, each with its argument. -/
inductive Export where
  | fib (n : I32)
  | depth (n : I32)
  | fibo (n : I32)
deriving DecidableEq, Repr

/-- Call an export. A loop that never ends has no result. -/
def Export.exec : Export → CallDepth → Except Trap (Option I32) × CallDepth
  | .fib n => (some <$> Fibonacci.fib n : GuardedM (Option I32))
  | .depth n => (some <$> Fibonacci.depth n : GuardedM (Option I32))
  | .fibo n => Fibonacci.fibo n

end WasmSandbox.Guest.Fibonacci
