import Mathlib.Data.Nat.Fib.Basic
import Mathlib.Tactic.Common
import WasmSandbox.Guest.Fibonacci
import WasmSandbox.Iteration
import WasmSandbox.Proofs.CallDepth.Balance

/-!
# How deep the recursions go, and when the loop ends

* `Fibonacci.plain_eq_fib`: the plain computation wraps the Fibonacci numbers, hence
  `Fibonacci.plain_eq_add`, the equation by which the guest recurses.
* `Fibonacci.fib_eq`, `Fibonacci.depth_eq`: the room that the two recursions need. Without it they end
  in a trap, wherever that is raised; either way the counter is what it was.
* `Fibonacci.Locals.pass`: one pass of the loop. `Fibonacci.Locals.loop_eq_some_iff`: the loop has a result
  exactly if repeating the pass comes to an end.
* `Fibonacci.Locals.loop_eq_advance`: up to any index but the largest the loop advances as the plain
  computation does.
* **`Fibonacci.Export.run_thresholds`**: what the exports of a module that has been called any number of times
  return, by its maximal depth.
* **`Fibonacci.fibo_eq_plain`**: the export gives the plain computation's number at every index but the
  largest, at which it never ends.
-/

namespace WasmSandbox.Guest.Fibonacci

/-! ## The plain computation -/

theorem advance_fib (k m : Nat) :
    advance k (Int32.ofBitVec (.ofNat 32 (Nat.fib m))) (Int32.ofBitVec (.ofNat 32 (Nat.fib (m + 1)))) =
      Int32.ofBitVec (.ofNat 32 (Nat.fib (m + 1 + k))) := by
  induction k generalizing m with
  | zero => rfl
  | succ k ih =>
    rw [advance, ← Int32.ofBitVec_add, ← BitVec.ofNat_add, ← Nat.fib_add_two, ih (m + 1),
      Nat.add_assoc (m + 1) 1 k, Nat.add_comm 1 k]

/-- **The plain computation wraps the Fibonacci numbers.** -/
theorem plain_eq_fib {n : I32} {k : Nat} (h : n.toInt = k) : plain n = BitVec.ofNat 32 (Nat.fib k) := by
  rw [plain]
  split_ifs with hle
  · have hfib : Nat.fib k = k := by
      obtain rfl | rfl : k = 0 ∨ k = 1 := by omega
      · rfl
      · rfl
    rw [hfib, ← BitVec.ofInt_natCast, ← h, BitVec.ofInt_toInt]
  · have hadvance := advance_fib (k - 1) 0
    rw [show 0 + 1 + (k - 1) = k by omega] at hadvance
    rw [h, Int.toNat_natCast]
    exact congrArg Int32.toBitVec hadvance

theorem plain_of_lt {n : I32} (h : n.toInt < 2) : plain n = n := if_pos (by omega)

theorem plain_eq_add {n : I32} (h : 2 ≤ n.toInt) : plain n = plain (n - 1) + plain (n - 2) := by
  obtain ⟨k, hk⟩ := Int.eq_ofNat_of_zero_le (show 0 ≤ n.toInt - 2 by omega)
  have hone : (n - 1).toInt = (k + 1 : Nat) := by
    rw [toInt_sub_one (by omega)]
    omega
  have htwo : (n - 2).toInt = k := (toInt_sub_two (by omega)).trans hk
  rw [plain_eq_fib (k := k + 2) (by omega), plain_eq_fib hone, plain_eq_fib htwo, Nat.fib_add_two,
    Nat.add_comm, BitVec.ofNat_add]

/-! ## The recursions -/

section Recursion

variable {d : CallDepth}

/-- **`fib` needs room for one call at each number from `n` down to 1.** The second branch of a call goes
less deep than the first. -/
theorem fib_eq (n : I32) (hd : d.Within) :
    fib n d = (d.afford ((n.toInt - 1).toNat + 1) (plain n), d) := by
  -- The induction is on the calls that `fib` makes; they start from other counters.
  induction n using fib.induct generalizing d with
  | case1 n ihone ihtwo =>
    rw [fib]
    refine GuardedM.call_eq_afford hd fun d' hd' => ?_
    by_cases hn : n.toInt < 2
    · rw [if_pos hn, CallDepth.afford, if_pos (by omega), plain_of_lt hn]
      rfl
    · have hone := ihone hn hd'
      have htwo := ihtwo hn hd'
      rw [CallDepth.afford, toInt_sub_one (by omega)] at hone
      rw [CallDepth.afford, toInt_sub_two (by omega)] at htwo
      rw [if_neg hn, CallDepth.afford]
      by_cases hroom : (n.toInt - 1).toNat ≤ d'.room
      · rw [if_pos (by omega)] at hone htwo
        rw [if_pos hroom, Outcome.bind_of_ok hone, Outcome.bind_of_ok htwo,
          plain_eq_add (n := n) (by omega)]
        rfl
      · rw [if_neg (by omega)] at hone
        rw [if_neg hroom, Outcome.bind_of_error hone]

/-- **`depth` needs room for one call at each number from `n`, read as unsigned, down to 0.** -/
theorem depth_eq (n : I32) (hd : d.Within) : depth n d = (d.afford (n.toNat + 1) n, d) := by
  -- The number decreases as an unsigned one, so a negative one needs no case of its own.
  induction n using depth.induct generalizing d with
  | case1 n ih =>
    rw [depth]
    refine GuardedM.call_eq_afford hd fun d' hd' => ?_
    by_cases hn : n = 0
    · subst hn
      rfl
    · have hrest := ih hn hd'
      have hprevious : (n - 1).toNat + 1 = n.toNat := by bv_omega
      rw [hprevious, CallDepth.afford] at hrest
      rw [if_neg hn, CallDepth.afford]
      split_ifs at hrest ⊢ with hroom
      · rw [Outcome.bind_of_ok hrest, BitVec.sub_add_cancel]
        rfl
      · rw [Outcome.bind_of_error hrest]

theorem fibo_eq (n : I32) (hd : d.Within) : fibo n d = (d.afford 1 (iterate n), d) :=
  GuardedM.call_eq_afford hd fun _ _ => rfl

end Recursion

/-! ## The loop -/

namespace Locals

/-- One pass of the loop: the variables with which it goes on, or the number that it ends with. -/
def pass (n : Int32) (s : Locals) : Locals ⊕ Int32 :=
  if n < s.next.i then .inr s.next.b else .inl s.next

/-- **The loop has a result exactly if repeating its pass comes to an end.** -/
theorem loop_eq_some_iff {n r : Int32} {s : Locals} :
    s.loop n = some r ↔ ∃ h : Halts (pass n) s, repeatUntil (pass n) s h = r := by
  constructor
  · refine loop.partial_correctness n (fun s r => ∃ h : Halts (pass n) s, repeatUntil (pass n) s h = r)
      ?_ s r
    intro rest hrest s r hr
    split_ifs at hr with hlt
    · have hpass : pass n s = .inr s.next.b := if_pos hlt
      refine ⟨.of_inr hpass, ?_⟩
      rw [repeatUntil_inr hpass]
      exact Option.some.inj hr
    · have hpass : pass n s = .inl s.next := if_neg hlt
      obtain ⟨hhalts, hrepeat⟩ := hrest _ _ hr
      refine ⟨.of_inl hpass hhalts, ?_⟩
      rw [repeatUntil_inl hpass, hrepeat]
  · rintro ⟨hhalts, hrepeat⟩
    induction hhalts with
    | intro s hacc ih =>
      rw [loop]
      by_cases hlt : n < s.next.i
      · have hpass : pass n s = .inr s.next.b := if_pos hlt
        rw [repeatUntil_inr hpass] at hrepeat
        rw [if_pos hlt, hrepeat]
      · have hpass : pass n s = .inl s.next := if_neg hlt
        rw [repeatUntil_inl hpass] at hrepeat
        rw [if_neg hlt]
        exact ih _ hpass hrepeat

theorem halts_iff {n : Int32} {s : Locals} : Halts (pass n) s ↔ ∃ r, s.loop n = some r := by
  simp only [loop_eq_some_iff]
  constructor
  · intro hhalts
    exact ⟨_, hhalts, rfl⟩
  · rintro ⟨r, hhalts, hrepeat⟩
    exact hhalts

theorem loop_maxValue (s : Locals) : s.loop Int32.maxValue = none := by
  have hpass : ∀ s, ∃ s', pass Int32.maxValue s = .inl s' := fun s =>
    ⟨_, if_neg (Int32.not_lt.mpr (Int32.le_maxValue _))⟩
  by_contra hsome
  obtain ⟨r, hr⟩ := Option.ne_none_iff_exists'.mp hsome
  exact not_halts hpass _ (halts_iff.mpr ⟨r, hr⟩)

theorem toInt_next {s : Locals} (h : s.i.toInt < 2 ^ 31 - 1) : s.next.i.toInt = s.i.toInt + 1 := by
  have hge := s.i.le_toInt
  have hone : Int32.toInt 1 = 1 := rfl
  rw [next, Int32.toInt_add, hone]
  exact Int.bmod_eq_of_le (by omega) (by omega)

/-- **Up to any other number the loop advances as the plain computation does**, once more than the counter
has left to go. -/
theorem loop_eq_advance {n : Int32} {s : Locals} {k : Nat} (hn : n.toInt < 2 ^ 31 - 1)
    (hk : s.i.toInt + k = n.toInt) : s.loop n = some (advance (k + 1) s.a s.b) := by
  have hnext := s.toInt_next (by omega)
  induction k generalizing s with
  | zero =>
    have hlast : n < s.next.i := Int32.lt_iff_toInt_lt.mpr (by omega)
    rw [loop, if_pos hlast]
    rfl
  | succ k ih =>
    have hleft : ¬ n < s.next.i := mt Int32.lt_iff_toInt_lt.mp (by omega)
    rw [loop, if_neg hleft, ih (by omega) (toInt_next (by omega))]
    rfl

end Locals

theorem iterate_intMax : iterate (BitVec.intMax 32) = none := by
  rw [iterate, if_neg (by decide), Int32.ofBitVec_intMax, Locals.loop_maxValue]
  rfl

theorem iterate_of_ne {n : I32} (hn : n ≠ BitVec.intMax 32) : iterate n = some (plain n) := by
  have hlt : n.toInt < 2 ^ 31 - 1 := by
    have hle := BitVec.toInt_lt (x := n)
    have hne : n.toInt ≠ (BitVec.intMax 32).toInt := fun h => hn (BitVec.toInt_inj.mp h)
    have hmax : (BitVec.intMax 32).toInt = 2 ^ 31 - 1 := by decide
    omega
  rw [iterate, plain]
  split_ifs with hle
  · rfl
  · have htwo : (2 : Int32).toInt = 2 := rfl
    have hread : (Int32.ofBitVec n).toInt = n.toInt := rfl
    have hk : (2 : Int32).toInt + (n.toInt.toNat - 2 : Nat) = (Int32.ofBitVec n).toInt := by omega
    rw [Locals.loop_eq_advance (hread ▸ hlt) hk, show n.toInt.toNat - 2 + 1 = n.toInt.toNat - 1 by omega]
    rfl

theorem iterate_eq (n : I32) : iterate n = if n = BitVec.intMax 32 then none else some (plain n) := by
  split_ifs with hmax
  · rw [hmax, iterate_intMax]
  · exact iterate_of_ne hmax

/-! ## The exports -/

namespace Export

/-- How many calls are open where the export goes deepest. -/
def calls : Export → Nat
  | fib n => (n.toInt - 1).toNat + 1
  | depth n => n.toNat + 1
  | fibo _ => 1

/-- What the export answers if it has room for these calls. -/
def answer : Export → Option I32
  | fib n => some (plain n)
  | depth n => some n
  | fibo n => iterate n

/-- **No export leaves a call open**, and each needs the same room whenever it is called. -/
theorem exec_eq (e : Export) {d : CallDepth} (hd : d.Within) :
    e.exec d = (d.afford e.calls e.answer, d) := by
  cases e with
  | fib n => exact GuardedM.map_eq_afford (fib_eq n hd) some
  | depth n => exact GuardedM.map_eq_afford (depth_eq n hd) some
  | fibo n => exact fibo_eq n hd

theorem runAll_exec (calls : List Export) {d : CallDepth} (hd : d.Within) :
    (runAll exec calls d).2 = d := by
  induction calls with
  | nil => rfl
  | cons e calls ih =>
    rw [runAll_cons, e.exec_eq hd]
    exact ih

/-- **The exact depth of the recursions**, after any calls and for every maximal depth. No export leaves
a call open. -/
theorem run_thresholds (limit : BitVec 32) (calls : List Export) :
    let d := (runAll exec calls ⟨limit, 0⟩).2
    d = ⟨limit, 0⟩ ∧
    (∀ e : Export, (e.exec d).2.depth = 0) ∧
    (∀ n, (Fibonacci.fib n d).1 =
      if max 1 n.toInt ≤ limit.toNat then .ok (plain n) else .error .callStackExhausted) ∧
    (∀ n, (Fibonacci.depth n d).1 = if n < limit then .ok n else .error .callStackExhausted) ∧
    (∀ n, (exec (.fib n) d).1 =
      if max 1 n.toInt ≤ limit.toNat then .ok (some (plain n)) else .error .callStackExhausted) ∧
    (∀ n, (exec (.depth n) d).1 = if n < limit then .ok (some n) else .error .callStackExhausted) ∧
    ∀ n, (exec (.fibo n) d).1 =
      if limit = 0 then .error .callStackExhausted
      else .ok (if n = BitVec.intMax 32 then none else some (plain n)) := by
  intro d
  have hstart : CallDepth.Within ⟨limit, 0⟩ := Nat.zero_le _
  have hd : d = ⟨limit, 0⟩ := runAll_exec calls hstart
  have hfib (n : I32) : (n.toInt - 1).toNat + 1 ≤ CallDepth.room ⟨limit, 0⟩ ↔
      max 1 n.toInt ≤ limit.toNat := by
    change _ ≤ limit.toNat ↔ _
    omega
  rw [hd]
  refine ⟨rfl, fun e => ?_, fun n => ?_, fun n => ?_, fun n => ?_, fun n => ?_, fun n => ?_⟩
  · rw [e.exec_eq hstart]
  · rw [fib_eq n hstart]
    exact if_congr (hfib n) rfl rfl
  · rw [depth_eq n hstart]
    rfl
  · rw [exec_eq _ hstart]
    exact if_congr (hfib n) rfl rfl
  · rw [exec_eq _ hstart]
    rfl
  · rw [exec_eq _ hstart, answer, iterate_eq]
    by_cases hlimit : limit = 0
    · subst hlimit
      rfl
    · have hroom : 1 ≤ limit.toNat := by bv_omega
      rw [if_neg hlimit]
      exact if_pos hroom

end Export

/-! ## The loop that the export enters -/

theorem halts_iff_iterate {n : I32} (hn : 1 < n.toInt) :
    Halts (Locals.pass (Int32.ofBitVec n)) ⟨2, 0, 1⟩ ↔ iterate n ≠ none := by
  rw [Locals.halts_iff, iterate, if_neg (by omega), ne_eq, Option.map_eq_none_iff, ← ne_eq,
    Option.ne_none_iff_exists']

/-- **The loop agrees with the plain computation at every index but the largest.** There no counter
exceeds the index, and the loop never ends. -/
theorem fibo_eq_plain (limit : BitVec 32) (n : I32) :
    Fibonacci.fibo n ⟨limit, 0⟩ =
      (if limit = 0 then .error .callStackExhausted
        else .ok (if n = BitVec.intMax 32 then none else some (plain n)), ⟨limit, 0⟩) ∧
    plain n = (if n.toInt ≤ 1 then n else BitVec.ofNat 32 (Nat.fib n.toInt.toNat)) ∧
    (1 < n.toInt → (Halts (Locals.pass (Int32.ofBitVec n)) ⟨2, 0, 1⟩ ↔ n ≠ BitVec.intMax 32)) := by
  refine ⟨?_, ?_, fun hn => ?_⟩
  · rw [fibo_eq n (Nat.zero_le _), iterate_eq]
    by_cases hlimit : limit = 0
    · subst hlimit
      rfl
    · have hroom : 1 ≤ CallDepth.room ⟨limit, 0⟩ := by
        change 1 ≤ limit.toNat
        bv_omega
      rw [CallDepth.afford, if_pos hroom, if_neg hlimit]
  · split_ifs with hle
    · exact plain_of_lt (by omega)
    · exact plain_eq_fib (Int.toNat_of_nonneg (by omega)).symm
  · rw [halts_iff_iterate hn, iterate_eq]
    split_ifs with hmax <;> simp [hmax]

/-- At the largest index the loop does not end, while the plain computation has a result. -/
theorem fibo_intMax :
    Fibonacci.fibo (BitVec.intMax 32) ⟨1, 0⟩ = (.ok none, ⟨1, 0⟩) ∧
      ¬ Halts (Locals.pass (Int32.ofBitVec (BitVec.intMax 32))) ⟨2, 0, 1⟩ ∧
      ¬ ∀ n, (Fibonacci.fibo n ⟨1, 0⟩).1 = .ok (some (plain n)) := by
  have hfibo : Fibonacci.fibo (BitVec.intMax 32) ⟨1, 0⟩ = (.ok none, ⟨1, 0⟩) := by
    rw [fibo_eq _ (Nat.zero_le _), iterate_intMax]
    rfl
  refine ⟨hfibo, ?_, fun hall => ?_⟩
  · rw [halts_iff_iterate (by decide), iterate_intMax]
    exact fun h => h rfl
  · have hsome := hall (BitVec.intMax 32)
    rw [hfibo] at hsome
    cases hsome

end WasmSandbox.Guest.Fibonacci
