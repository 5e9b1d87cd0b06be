import Mathlib.Logic.Relation
import Mathlib.Tactic.Common
import WasmSandbox.CallDepth.Script
import WasmSandbox.CallDepth.Tree

/-!
# The counter counts the open calls

* `CallDepth.Within`: no more calls are open than may be.
* `CallDepth.room`, `CallDepth.afford`: how many more calls may be open, and a result that needs room for
  some. `GuardedM.call_eq_afford`: a guarded call needs room for one call more than its body.
* `Control.Reaches`, `Control.Balanced`: what a tree on its way comes to, and that the counter has moved by
  the number of open calls. `CallTree.run_reaches`: such a tree ends as `CallTree.run` says.
* `Routine.run_unroll_eq`: functions that call each other are trees, as the counter cuts them off.
* `CallStep.execAll_within`: operations of the counter, in any order, keep it within its limit.
* **`CallTree.run_guarded`**: at every point of every tree the counter is the number of open calls.
-/

namespace WasmSandbox

/-! ## Operations of the counter -/

namespace CallDepth

/-- No more calls are open than may be. -/
def Within (d : CallDepth) : Prop := d.depth ≤ d.max

/-- How many more calls may be open. -/
def room (d : CallDepth) : Nat := d.max.toNat - d.depth.toNat

/-- A result that is reached if there is room for this many calls, and else a trap. -/
def afford {α : Type} (d : CallDepth) (calls : Nat) (a : α) : Except Trap α :=
  if calls ≤ d.room then .ok a else .error .callStackExhausted

variable {d d' : CallDepth}

theorem toNat_exit (d : CallDepth) : d.exit.depth.toNat = d.depth.toNat - 1 := by
  unfold exit
  dsimp only
  split_ifs with h
  · rw [h]
    rfl
  · bv_omega

/-- **Entering is refused exactly at the limit**, and the increment below it does not wrap. -/
theorem Within.enter (h : d.Within) :
    (d.depth = d.max ∧ d.enter = .error .callStackExhausted) ∨
      (d.depth < d.max ∧ ∃ d', d.enter = .ok d' ∧ d'.max = d.max ∧
        d'.depth.toNat = d.depth.toNat + 1 ∧ d'.Within) := by
  rcases Nat.lt_or_eq_of_le h with hlt | heq
  · have hlt : d.depth < d.max := hlt
    have hsucc : (d.depth + 1).toNat = d.depth.toNat + 1 := by bv_omega
    refine .inr ⟨hlt, { d with depth := d.depth + 1 }, if_neg (BitVec.not_le.mpr hlt), rfl, hsucc, ?_⟩
    rw [Within, BitVec.le_def]
    dsimp only
    rw [hsucc]
    exact hlt
  · have heq : d.depth = d.max := BitVec.eq_of_toNat_eq heq
    exact .inl ⟨heq, if_pos (heq ▸ BitVec.le_refl _)⟩

theorem Within.enter_eq_error_iff (h : d.Within) {t : Trap} :
    d.enter = .error t ↔ t = .callStackExhausted ∧ d.depth = d.max := by
  rcases h.enter with ⟨heq, he⟩ | ⟨hlt, d', he, -⟩
  · rw [he, Except.error.injEq, eq_comm]
    exact ⟨fun ht => ⟨ht, heq⟩, And.left⟩
  · rw [he]
    exact ⟨nofun, fun ht => absurd hlt (ht.2 ▸ BitVec.lt_irrefl _)⟩

theorem Within.of_enter (h : d.Within) (he : d.enter = .ok d') :
    d'.max = d.max ∧ d'.depth.toNat = d.depth.toNat + 1 ∧ d'.Within := by
  rcases h.enter with ⟨-, herror⟩ | ⟨-, d₁, hok, hd₁⟩
  · cases herror.symm.trans he
  · cases hok.symm.trans he
    exact hd₁

theorem Within.exit (h : d.Within) : d.exit.Within := by
  rw [Within, BitVec.le_def, toNat_exit]
  exact Nat.le_trans (Nat.sub_le ..) h

theorem Within.exit_of_enter (h : d.Within) (he : d.enter = .ok d') : d'.exit = d := by
  obtain ⟨hmax, hdepth, -⟩ := h.of_enter he
  have hback : d'.exit.depth = d.depth := by
    apply BitVec.eq_of_toNat_eq
    rw [toNat_exit, hdepth, Nat.add_sub_cancel]
  cases d
  exact congrArg₂ CallDepth.mk hmax hback

end CallDepth

/-! ## Guarded calls -/

namespace GuardedM

variable {α β : Type} {d d' : CallDepth}

theorem call_of_enter_error {e : Trap} (h : d.enter = .error e) (body : GuardedM α) :
    call body d = (.error e, d) := by
  rw [call, CallDepth.within, h]

theorem call_of_enter_ok (h : d.enter = .ok d') (body : GuardedM α) :
    call body d = ((body d').1, (body d').2.exit) := by
  rw [call, CallDepth.within, h]
  rfl

/-- **A guarded call needs room for one call more than its body**, which keeps the counter. -/
theorem call_eq_afford (hd : d.Within) {body : GuardedM α} {calls : Nat} {a : α}
    (hbody : ∀ d' : CallDepth, d'.Within → body d' = (d'.afford calls a, d')) :
    call body d = (d.afford (calls + 1) a, d) := by
  rcases hd.enter with ⟨heq, he⟩ | ⟨hlt, d', he, hmax, hdepth, hd'⟩
  · have hroom : d.room = 0 := by rw [CallDepth.room, heq, Nat.sub_self]
    rw [call_of_enter_error he, CallDepth.afford, if_neg (by omega)]
  · have hlt : d.depth.toNat < d.max.toNat := hlt
    have hroom : d.room = d'.room + 1 := by
      rw [CallDepth.room, CallDepth.room, hmax, hdepth]
      omega
    rw [call_of_enter_ok he, hbody d' hd', hd.exit_of_enter he, CallDepth.afford, CallDepth.afford, hroom]
    exact congrArg₂ Prod.mk (if_congr Nat.add_le_add_iff_right.symm rfl rfl) rfl

theorem map_eq_afford {x : GuardedM α} {calls : Nat} {a : α} (hx : x d = (d.afford calls a, d))
    (f : α → β) : (f <$> x) d = (d.afford calls (f a), d) := by
  rw [← bind_pure_comp, Outcome.bind_apply, hx, CallDepth.afford, CallDepth.afford]
  split_ifs <;> rfl

end GuardedM

/-! ## Trees on their way -/

section Control

variable {α : Type} {c c' : Control α} {d d' : CallDepth}

/-- A tree on its way comes to a point. -/
abbrev Control.Reaches : Control α → Control α → Prop :=
  Relation.ReflTransGen fun c c' => c.step = some c'

theorem Control.step_of_enter_error {e : Trap} (h : d.enter = .error e) (body : CallTree α)
    (next : Except Trap α → CallTree α) (frames : List (Except Trap α → CallTree α)) :
    step ⟨.call body next, frames, d⟩ = some ⟨next (.error e), frames, d⟩ := by
  rw [step, h]

theorem Control.step_of_enter_ok (h : d.enter = .ok d') (body : CallTree α)
    (next : Except Trap α → CallTree α) (frames : List (Except Trap α → CallTree α)) :
    step ⟨.call body next, frames, d⟩ = some ⟨body, next :: frames, d'⟩ := by
  rw [step, h]

/-- **A tree on its way ends as its run does**, with the calls open that were open before. -/
theorem CallTree.run_reaches (p : CallTree α) (frames : List (Except Trap α → CallTree α))
    (d : CallDepth) :
    Control.Reaches ⟨p, frames, d⟩ ⟨.done (p.run d).1, frames, (p.run d).2⟩ := by
  induction p generalizing frames d with
  | done r => exact .refl
  | look next ih => exact .head rfl (ih d frames d)
  | call body next ihbody ihnext =>
    cases he : d.enter with
    | error e =>
      have hrun : (call body next).run d = (next (.error e)).run d := by
        rw [run, GuardedM.call_of_enter_error he]
      rw [hrun]
      exact .head (Control.step_of_enter_error he ..) (ihnext _ frames d)
    | ok d' =>
      have hrun : (call body next).run d = (next (body.run d').1).run (body.run d').2.exit := by
        rw [run, GuardedM.call_of_enter_ok he]
      rw [hrun]
      have hbody := ihbody (next :: frames) d'
      have hnext := ihnext (body.run d').1 frames (body.run d').2.exit
      exact .head (Control.step_of_enter_ok he ..) (hbody.trans (.head rfl hnext))

/-- The counter has moved up from `d` by the number of open calls, and it is within its limit. -/
structure Control.Balanced (d : CallDepth) (c : Control α) : Prop where
  max_eq : c.counter.max = d.max
  depth_eq : c.counter.depth.toNat = d.depth.toNat + c.frames.length
  within : c.counter.Within

theorem Control.Balanced.step (h : c.Balanced d) (hs : c.step = some c') : c'.Balanced d := by
  obtain ⟨current, frames, counter⟩ := c
  obtain ⟨hmax, hdepth, hwithin⟩ := h
  dsimp only at hmax hdepth hwithin
  cases current with
  | done r =>
    cases frames with
    | nil => cases hs
    | cons next frames =>
      cases hs
      refine ⟨hmax, ?_, hwithin.exit⟩
      rw [List.length_cons] at hdepth
      dsimp only
      rw [CallDepth.toNat_exit, hdepth]
      omega
  | look next =>
    cases hs
    exact ⟨hmax, hdepth, hwithin⟩
  | call body next =>
    rcases hwithin.enter with ⟨-, he⟩ | ⟨-, counter', he, hmax', hdepth', hwithin'⟩
    · rw [step_of_enter_error he] at hs
      cases hs
      exact ⟨hmax, hdepth, hwithin⟩
    · rw [step_of_enter_ok he] at hs
      cases hs
      refine ⟨hmax'.trans hmax, ?_, hwithin'⟩
      dsimp only
      rw [hdepth', hdepth, List.length_cons, Nat.add_assoc]

theorem Control.Balanced.reaches (h : c.Balanced d) (hc : c.Reaches c') : c'.Balanced d := by
  induction hc with
  | refl => exact h
  | tail _ hs ih => exact ih.step hs

theorem Control.balanced_start (p : CallTree α) (hd : d.Within) :
    Control.Balanced d ⟨p, [], d⟩ := ⟨rfl, rfl, hd⟩

/-- **A run leaves the counter as it was.** -/
theorem CallTree.run_restores (p : CallTree α) (hd : d.Within) : (p.run d).2 = d := by
  obtain ⟨hmax, hdepth, -⟩ := (Control.balanced_start p hd).reaches (p.run_reaches [] d)
  cases d
  exact congrArg₂ CallDepth.mk hmax (BitVec.eq_of_toNat_eq hdepth)

theorem Control.call_of_lt (hd : d.Within) (hlt : d.depth < d.max) (body : CallTree α)
    (next : Except Trap α → CallTree α) (frames : List (Except Trap α → CallTree α)) :
    ∃ d' r, step ⟨.call body next, frames, d⟩ = some ⟨body, next :: frames, d'⟩ ∧
      body.run d' = (r, d') ∧ Reaches ⟨body, next :: frames, d'⟩ ⟨next r, frames, d⟩ ∧
      GuardedM.call body.run d = (r, d) := by
  rcases hd.enter with ⟨heq, -⟩ | ⟨-, d', he, -, -, hd'⟩
  · exact absurd hlt (heq ▸ BitVec.lt_irrefl _)
  · have hback := hd.exit_of_enter he
    have hbody : body.run d' = ((body.run d').1, d') := Prod.ext rfl (body.run_restores hd')
    have hreach := body.run_reaches (next :: frames) d'
    rw [hbody] at hreach
    refine ⟨d', (body.run d').1, step_of_enter_ok he .., hbody, ?_, ?_⟩
    · rw [← hback]
      exact hreach.tail rfl
    · rw [GuardedM.call_of_enter_ok he, body.run_restores hd', hback]

end Control

/-! ## Recursion -/

namespace Routine

variable {F α : Type} {d : CallDepth}

theorem run_tree_congr {callee callee' : F → CallTree α} (hd : d.Within)
    (h : ∀ f d', d.enter = .ok d' → (callee f).run d' = (callee' f).run d') (r : Routine F α) :
    (r.tree callee).run d = (r.tree callee').run d := by
  induction r with
  | done r => rfl
  | look next ih => exact ih d
  | call f next ih =>
    rw [tree, tree, CallTree.run, CallTree.run]
    cases he : d.enter with
    | error e =>
      rw [GuardedM.call_of_enter_error he, GuardedM.call_of_enter_error he]
      exact ih _
    | ok d' =>
      obtain ⟨-, -, hd'⟩ := hd.of_enter he
      have hback : ((callee' f).run d').2.exit = d := by
        rw [(callee' f).run_restores hd', hd.exit_of_enter he]
      rw [GuardedM.call_of_enter_ok he, GuardedM.call_of_enter_ok he, h f d' he, hback]
      exact ih _

/-- **Recursion is cut off by the counter**: below the limit of open calls, it does not matter what
stands for the functions that are called. -/
theorem run_unroll_eq (code : F → Routine F α) (cut cut' : F → CallTree α) {n n' : Nat}
    (hd : d.Within) (hn : d.max.toNat < d.depth.toNat + n) (hn' : d.max.toNat < d.depth.toNat + n')
    (f : F) : (unroll code cut n f).run d = (unroll code cut' n' f).run d := by
  have hle : d.depth.toNat ≤ d.max.toNat := hd
  induction n generalizing n' d f with
  | zero => omega
  | succ n ih =>
    obtain _ | n' := n'
    · omega
    · refine run_tree_congr hd (fun g d' he => ?_) (code f)
      obtain ⟨hmax, hdepth, hd'⟩ := hd.of_enter he
      exact ih hd' (by rw [hmax]; omega) (by rw [hmax]; omega) g hd'

end Routine

/-- A function that calls itself without end. -/
example : (Routine.unroll (fun n : Nat => .call (n + 1) .done) (fun _ => .done (.ok 7)) 3 0).run ⟨2, 0⟩ =
    (.error .callStackExhausted, ⟨2, 0⟩) := rfl

/-! ## Operations in any order -/

namespace CallStep

/-- The step is an operation of the counter, and no call. -/
def OnCounter : CallStep → Prop
  | enter | exit | reset => True
  | max | call .. | nest _ => False

variable {d : CallDepth}

theorem exec_within (hd : d.Within) {op : CallStep} (hop : op.OnCounter) :
    (exec op d).2.Within ∧ (exec op d).2.max = d.max := by
  cases op with
  | enter =>
    rw [exec]
    rcases hd.enter with ⟨-, he⟩ | ⟨-, d', he, hmax, -, hd'⟩
    · rw [he]
      exact ⟨hd, rfl⟩
    · rw [he]
      exact ⟨hd', hmax⟩
  | exit =>
    rw [exec]
    exact ⟨hd.exit, rfl⟩
  | reset =>
    rw [exec]
    exact ⟨Nat.zero_le _, rfl⟩
  | max | call body fate | nest n => exact hop.elim

/-- **Operations of the counter, in any order, keep it within its limit.** -/
theorem execAll_within (hd : d.Within) {ops : List CallStep} (hops : ∀ op ∈ ops, op.OnCounter) :
    (execAll ops d).2.Within ∧ (execAll ops d).2.max = d.max := by
  induction ops generalizing d with
  | nil =>
    rw [execAll]
    exact ⟨hd, rfl⟩
  | cons op ops ih =>
    obtain ⟨hd', hmax⟩ := exec_within hd (hops op List.mem_cons_self)
    obtain ⟨hend, hmax'⟩ := ih hd' fun o ho => hops o (List.mem_cons_of_mem _ ho)
    rw [execAll]
    exact ⟨hend, hmax'.trans hmax⟩

end CallStep

/-! ## All trees -/

/-- **The counter counts the open calls** at every point of a tree of calls. At the limit a call is
refused, and the tree restores the counter. -/
theorem CallTree.run_guarded {α : Type} (p : CallTree α) {d : CallDepth} (hd : d.depth ≤ d.max) :
    (∃ r, p.run d = (r, d) ∧ Control.Reaches ⟨p, [], d⟩ ⟨.done r, [], d⟩) ∧
    (∀ c, Control.Reaches ⟨p, [], d⟩ c →
      c.counter.max = d.max ∧ c.counter.depth.toNat = d.depth.toNat + c.frames.length ∧
      c.counter.depth ≤ d.max ∧
      ∀ body next, c.current = .call body next →
        (c.counter.depth = d.max →
          c.step = some ⟨next (.error .callStackExhausted), c.frames, c.counter⟩ ∧
          ∀ body' : GuardedM α,
            GuardedM.call body' c.counter = (.error .callStackExhausted, c.counter)) ∧
        (c.counter.depth < d.max → ∃ d' r,
          c.step = some ⟨body, next :: c.frames, d'⟩ ∧ body.run d' = (r, d') ∧
          Control.Reaches ⟨body, next :: c.frames, d'⟩ ⟨next r, c.frames, c.counter⟩ ∧
          GuardedM.call body.run c.counter = (r, c.counter))) ∧
    (∀ (F : Type) (code : F → Routine F α) (f : F) (cut cut' : F → CallTree α) (n n' : Nat),
      d.max.toNat < d.depth.toNat + n → d.max.toNat < d.depth.toNat + n' →
      (Routine.unroll code cut n f).run d = (Routine.unroll code cut' n' f).run d) ∧
    ∀ (max : BitVec 32) (ops : List CallStep), (∀ op ∈ ops, op.OnCounter) →
      let e := (CallStep.execAll ops ⟨max, 0⟩).2
      e.max = max ∧ e.depth ≤ max ∧
      (∀ t, e.enter = .error t ↔ t = .callStackExhausted ∧ e.depth = max) ∧
      (∀ e', e.enter = .ok e' → e'.depth.toNat = e.depth.toNat + 1) ∧
      e.exit.depth.toNat = e.depth.toNat - 1 := by
  refine ⟨?_, fun c hc => ?_, fun F code f cut cut' n n' hn hn' => ?_, fun max ops hops => ?_⟩
  · have hend := p.run_reaches [] d
    rw [p.run_restores hd] at hend
    exact ⟨(p.run d).1, Prod.ext rfl (p.run_restores hd), hend⟩
  · obtain ⟨hmax, hdepth, hwithin⟩ := (Control.balanced_start p hd).reaches hc
    obtain ⟨current, frames, counter⟩ := c
    rw [← hmax]
    refine ⟨rfl, hdepth, hwithin, ?_⟩
    rintro body next rfl
    refine ⟨fun heq => ?_, fun hlt => Control.call_of_lt hwithin hlt body next frames⟩
    have he := hwithin.enter_eq_error_iff.mpr ⟨rfl, heq⟩
    exact ⟨Control.step_of_enter_error he .., GuardedM.call_of_enter_error he⟩
  · exact Routine.run_unroll_eq code cut cut' hd hn hn' f
  · obtain ⟨he, hmax⟩ := CallStep.execAll_within (d := ⟨max, 0⟩) (Nat.zero_le _) hops
    generalize (CallStep.execAll ops ⟨max, 0⟩).2 = e at he hmax
    obtain rfl : e.max = max := hmax
    exact ⟨rfl, he, fun _ => he.enter_eq_error_iff, fun _ he' => (he.of_enter he').2.1, e.toNat_exit⟩

/-- A call is made with room for one more. Its body ignores a refused call and traps of its own. -/
theorem CallTree.run_guarded_after_refusal :
    let inner : CallTree Nat := .call (.done (.ok 0)) fun _ => .done (.error .unreachable)
    let rest : Except Trap Nat → CallTree Nat := fun _ => .call (.done (.ok 5)) .done
    (1#32) ≤ 2#32 ∧ (CallTree.call inner rest).run ⟨2, 1⟩ = (.ok 5, ⟨2, 1⟩) ∧
      Control.Reaches ⟨.call inner rest, [], ⟨2, 1⟩⟩ ⟨inner, [rest], ⟨2, 2⟩⟩ ∧
      Control.step ⟨inner, [rest], ⟨2, 2⟩⟩ =
        some ⟨.done (.error .unreachable), [rest], ⟨2, 2⟩⟩ ∧
      ∀ c, Control.Reaches ⟨.call inner rest, [], ⟨2, 1⟩⟩ c →
        c.counter.depth.toNat = 1 + c.frames.length ∧ c.counter.depth ≤ 2 := by
  intro inner rest
  have hd : (1#32) ≤ 2#32 := by decide
  obtain ⟨⟨r, hrun, -⟩, hpoints, -⟩ := run_guarded (.call inner rest) (d := ⟨2, 1⟩) hd
  have hreach : Control.Reaches ⟨.call inner rest, [], ⟨2, 1⟩⟩ ⟨inner, [rest], ⟨2, 2⟩⟩ := .single rfl
  obtain ⟨-, -, -, hcalls⟩ := hpoints _ hreach
  obtain ⟨hrefused, -⟩ := (hcalls _ _ rfl).1 rfl
  have hvalue : (CallTree.call inner rest).run ⟨2, 1⟩ = (.ok 5, ⟨2, 1⟩) := rfl
  obtain rfl : r = .ok 5 := congrArg Prod.fst (hrun.symm.trans hvalue)
  refine ⟨hd, hrun, hreach, hrefused, fun c hc => ?_⟩
  obtain ⟨-, hdepth, hle, -⟩ := hpoints c hc
  exact ⟨hdepth, hle⟩

end WasmSandbox
