/-!
# Repeating a step until it ends

* `Halts step a`: repeating `step` from `a` comes to an end.
* `repeatUntil step a h`: the result with which it ends.
* `Halts.of_rank`: a rank that every continuing step lowers.
* `not_halts`: a step that always continues.
* `repeatUntil_of_invariant`: what every step keeps holds when the run ends.
* `logged step`: the step, with the states from which it was taken.
* `runAll exec ops s`: one step for each operation of a list, with the answer of each.
* `RunsWithin exec P ops s`: each operation of the list holds of the state in which it is run.
* `runAll_related`: simulation of one run by another.

Only runs that end have a result, so no bound on their length appears anywhere.
-/

namespace WasmSandbox

section Repeat

variable {α β : Type}

/-- One step leads from `a` on to `b`. -/
def Continues (step : α → α ⊕ β) (b a : α) : Prop := step a = .inl b

/-- Repeating `step` from `a` comes to an end. -/
abbrev Halts (step : α → α ⊕ β) (a : α) : Prop := Acc (Continues step) a

/-- Repeat `step` from `a` until it ends, and return what it ends with. -/
def repeatUntil (step : α → α ⊕ β) (a : α) (h : Halts step a) : β :=
  match hs : step a with
  | .inl b => repeatUntil step b (h.inv hs)
  | .inr r => r
termination_by (⟨a, h⟩ : { a // Halts step a })
decreasing_by exact hs

theorem repeatUntil_inl {step : α → α ⊕ β} {a b : α} (hs : step a = .inl b) (h : Halts step a) :
    repeatUntil step a h = repeatUntil step b (h.inv hs) := by
  rw [repeatUntil]
  split
  · rename_i hs'
    cases hs.symm.trans hs'
    rfl
  · rename_i hs'
    cases hs.symm.trans hs'

theorem repeatUntil_inr {step : α → α ⊕ β} {a : α} {r : β} (hs : step a = .inr r)
    (h : Halts step a) : repeatUntil step a h = r := by
  rw [repeatUntil]
  split
  · rename_i hs'
    cases hs.symm.trans hs'
  · rename_i hs'
    cases hs.symm.trans hs'
    rfl

/-- **What continuing steps keep holds at the end.** -/
theorem repeatUntil_of_invariant {step : α → α ⊕ β} {I : α → Prop} {Q : β → Prop}
    (hkeep : ∀ a b, I a → step a = .inl b → I b) (hend : ∀ a r, I a → step a = .inr r → Q r)
    {a : α} (h : Halts step a) (ha : I a) : Q (repeatUntil step a h) := by
  induction h with
  | intro a h ih =>
    cases hs : step a with
    | inl b =>
      rw [repeatUntil_inl hs]
      exact ih b hs (hkeep a b ha hs)
    | inr r =>
      rw [repeatUntil_inr hs]
      exact hend a r ha hs

theorem Halts.of_inr {step : α → α ⊕ β} {a : α} {r : β} (hs : step a = .inr r) : Halts step a :=
  ⟨a, fun b hb => by cases hs.symm.trans hb⟩

theorem Halts.of_inl {step : α → α ⊕ β} {a b : α} (hs : step a = .inl b) (h : Halts step b) :
    Halts step a :=
  ⟨a, fun c hc => by
    cases hs.symm.trans hc
    exact h⟩

/-- A rank that every continuing step lowers makes every run end. -/
theorem Halts.of_rank {step : α → α ⊕ β} (rank : α → Nat)
    (h : ∀ a b, step a = .inl b → rank b < rank a) (a : α) : Halts step a :=
  Subrelation.accessible (fun {b a} hb => h a b hb) (InvImage.accessible rank (Nat.lt_wfRel.wf.apply _))

theorem not_halts {step : α → α ⊕ β} (h : ∀ a, ∃ b, step a = .inl b) (a : α) : ¬ Halts step a := by
  intro ha
  induction ha with
  | intro a _ ih =>
    obtain ⟨b, hb⟩ := h a
    exact ih b hb

/-- The step, which also keeps the states from which it was taken. -/
def logged (step : α → α ⊕ β) : α × List α → (α × List α) ⊕ (β × List α)
  | (a, log) =>
    match step a with
    | .inl b => .inl (b, log ++ [a])
    | .inr r => .inr (r, log ++ [a])

theorem logged_inl {step : α → α ⊕ β} {a b : α} (hs : step a = .inl b) (log : List α) :
    logged step (a, log) = .inl (b, log ++ [a]) := by rw [logged, hs]

theorem logged_inr {step : α → α ⊕ β} {a : α} {r : β} (hs : step a = .inr r) (log : List α) :
    logged step (a, log) = .inr (r, log ++ [a]) := by rw [logged, hs]

theorem Halts.logged {step : α → α ⊕ β} {a : α} (h : Halts step a) (log : List α) :
    Halts (logged step) (a, log) := by
  induction h generalizing log with
  | intro a _ ih =>
    cases hs : step a with
    | inl b => exact .of_inl (logged_inl hs log) (ih b hs _)
    | inr r => exact .of_inr (logged_inr hs log)

end Repeat

section RunAll

variable {O S S' A A' : Type}

/-- Run operations in order, with the answer of each. -/
def runAll (exec : O → S → A × S) : List O → S → List A × S
  | [], s => ([], s)
  | op :: ops, s =>
    match exec op s with
    | (a, s) =>
      match runAll exec ops s with
      | (as, s) => (a :: as, s)

theorem runAll_cons (exec : O → S → A × S) (op : O) (ops : List O) (s : S) :
    runAll exec (op :: ops) s =
      ((exec op s).1 :: (runAll exec ops (exec op s).2).1, (runAll exec ops (exec op s).2).2) := rfl

/-- Each operation of a list holds of the state in which it is run. -/
def RunsWithin (exec : O → S → A × S) (P : O → S → Prop) : List O → S → Prop
  | [], _ => True
  | op :: ops, s => P op s ∧ RunsWithin exec P ops (exec op s).2

namespace RunsWithin

variable {exec : O → S → A × S} {P : O → S → Prop} {ops : List O} {s : S}

theorem take (h : RunsWithin exec P ops s) (n : Nat) : RunsWithin exec P (ops.take n) s := by
  induction ops generalizing s n with
  | nil => rwa [List.take_nil]
  | cons op ops ih =>
    cases n with
    | zero => exact trivial
    | succ n => exact ⟨h.1, ih h.2 n⟩

theorem of_forall_mem (h : ∀ op ∈ ops, ∀ s, P op s) : RunsWithin exec P ops s := by
  induction ops generalizing s with
  | nil => exact trivial
  | cons op ops ih => exact ⟨h op List.mem_cons_self s, ih fun o ho => h o (List.mem_cons_of_mem _ ho)⟩

theorem of_or {Q : Prop} (h : Q ∨ RunsWithin exec P ops s) :
    RunsWithin exec (fun op s => Q ∨ P op s) ops s := by
  induction ops generalizing s with
  | nil => exact trivial
  | cons op ops ih => exact ⟨h.imp_right And.left, ih (h.imp_right And.right)⟩

end RunsWithin

/-- **Simulation.** Steps that answer alike and keep two states related make whole runs do so. -/
theorem runAll_related {D : Type} {exec : O → S → A × S} {exec' : O → S' → A' × S'} (f : A → D)
    (f' : A' → D) (R : S → S' → Prop) {P : O → S → Prop}
    (hstep : ∀ op s s', P op s → R s s' →
      f (exec op s).1 = f' (exec' op s').1 ∧ R (exec op s).2 (exec' op s').2)
    {ops : List O} {s : S} {s' : S'} (hops : RunsWithin exec P ops s) (h : R s s') :
    (runAll exec ops s).1.map f = (runAll exec' ops s').1.map f' ∧
      R (runAll exec ops s).2 (runAll exec' ops s').2 := by
  induction ops generalizing s s' with
  | nil => exact ⟨rfl, h⟩
  | cons op ops ih =>
    obtain ⟨hanswer, hstate⟩ := hstep op s s' hops.1 h
    obtain ⟨hanswers, hend⟩ := ih hops.2 hstate
    exact ⟨List.cons_eq_cons.mpr ⟨hanswer, hanswers⟩, hend⟩

end RunAll

end WasmSandbox
