import Mathlib.Tactic.Common
import WasmSandbox.TailCall.Trampoline

/-!
# The trampoline runs the chain of its calls

* `TailCall.Turn`, `TailCall.Turn.run`: a tail call and the machine that it finds; running it once, with
  nothing scheduled.
* `TailCall.Turn.HandsOver`: a turn that succeeds and leaves another one to be taken.
* `TailCall.Turn.Leads`: finitely many turns, each of which hands over to the next.
* `TailCall.recorded`: the trampoline, with the turns that its loop takes.
* `TailCall.trampoline_iff_leads`: the loop ends as a list of turns does, and only so.
* **`TailCall.trampoline_chain`**: how a trampoline ends, by the chain of its turns.
-/

namespace WasmSandbox.TailCall

variable {m : Type → Type} {ι C W : Type}

variable (m ι C W) in
/-- A tail call and the machine that it finds. -/
abbrev Turn := TailCall m ι C × Machine W

/-- The turn that the loop takes from a frame, if it takes one. -/
def turn? (frame : Frame m ι C W) : Option (Turn m ι C W) :=
  frame.next.map fun t => (t, frame.toMachine)

/-! ## Scheduling -/

/-- Work on the machine keeps what was scheduled last, and that replaces all that was scheduled before. -/
theorem next_of_schedule (before : StepM m ι C W Unit) (u : TailCall m ι C) (after : Effect (Machine W) Unit)
    {frame frame' : Frame m ι C W}
    (h : (do before; StepM.schedule u; StepM.onMachine after) frame = (.ok (), frame')) :
    frame'.next = some u := by
  rcases hbefore : before frame with ⟨e | _, middle⟩
  · cases (Outcome.bind_of_error hbefore).symm.trans h
  · have hafter : StepM.onMachine after { middle with next := some u } = (.ok (), frame') :=
      (Outcome.bind_of_ok hbefore).symm.trans h
    exact StepM.next_of_onMachine hafter

/-! ## Turns -/

variable [MonadLiftT m (Effect W)]

namespace Turn

/-- The frame from which the loop takes the turn. -/
def frame (a : Turn m ι C W) : Frame m ι C W := ⟨a.2, some a.1⟩

/-- Run the call once, with its own entry and owner and with nothing scheduled. -/
def run (family : StepFamily m ι C W) (a : Turn m ι C W) : Outcome Unit × Frame m ι C W :=
  a.1.run family ⟨a.2, none⟩

/-- The call succeeds, and leaves the other call scheduled and the machine of the other turn. -/
def HandsOver (family : StepFamily m ι C W) (a b : Turn m ι C W) : Prop :=
  a.run family = (.ok (), ⟨b.2, some b.1⟩)

/-- The list of turns begins with the first turn, each hands over to the next, and it ends with the
last. -/
inductive Leads (family : StepFamily m ι C W) :
    Turn m ι C W → List (Turn m ι C W) → Turn m ι C W → Prop where
  | refl (a : Turn m ι C W) : Leads family a [a] a
  | cons {a b last : Turn m ι C W} {turns : List (Turn m ι C W)} (h : a.HandsOver family b)
    (rest : Leads family b turns last) : Leads family a (a :: turns) last

/-- The outcome of a last turn and the machine that it leaves: it schedules nothing or fails. -/
def Ends (family : StepFamily m ι C W) (a : Turn m ι C W) (x : Outcome Unit × Machine W) : Prop :=
  ∃ next, a.run family = (x.1, ⟨x.2, next⟩) ∧ (x.1 = .ok () → next = none)

end Turn

section Chain

variable {family : StepFamily m ι C W} {a b : Turn m ι C W} {x : Outcome Unit × Machine W}

/-- A turn hands over to another one, ends the run by failing, or leaves nothing to be taken. -/
theorem turn_cases (family : StepFamily m ι C W) (a : Turn m ι C W) :
    (∃ b, a.HandsOver family b ∧ advance family a.frame = .inl b.frame) ∨
    (∃ s, a.Ends family (.ok (), s) ∧ advance family a.frame = .inl ⟨s, none⟩) ∨
    ∃ e s, a.Ends family (.error e, s) ∧ advance family a.frame = .inr (.error e, s) := by
  rcases hrun : a.run family with ⟨e | _, s, next⟩
  · exact .inr (.inr ⟨e, s, ⟨next, hrun, nofun⟩, advance_of_error hrun⟩)
  · cases next with
    | none => exact .inr (.inl ⟨s, ⟨none, hrun, fun _ => rfl⟩, advance_of_ok hrun⟩)
    | some t => exact .inl ⟨(t, s), hrun, advance_of_ok hrun⟩

theorem Turn.HandsOver.advance_eq (h : a.HandsOver family b) :
    advance family a.frame = .inl b.frame := advance_of_ok h

/-! ## The turns of a run -/

/-- The trampoline, with the turns that it takes, in order. -/
def recorded (family : StepFamily m ι C W) (t : TailCall m ι C) (s : Machine W)
    (h : Halts (advance family) ⟨s, some t⟩) : (Outcome Unit × Machine W) × List (Turn m ι C W) :=
  match repeatUntil (logged (advance family)) (⟨s, some t⟩, []) (Halts.logged h []) with
  | (x, frames) => (x, frames.filterMap turn?)

/-- The loop that records its frames ends as the loop does. Its turns are linked, and the last of them ends
the run. -/
theorem repeatUntil_logged {frame : Frame m ι C W} (h : Halts (advance family) frame)
    (ha : frame = a.frame) (log : List (Frame m ι C W)) :
    ∃ frames turns last,
      repeatUntil (logged (advance family)) (frame, log) (Halts.logged h log) =
        (repeatUntil (advance family) frame h, log ++ frames) ∧
      frames.filterMap turn? = turns ∧ Turn.Leads family a turns last ∧
      last.Ends family (repeatUntil (advance family) frame h) := by
  induction h generalizing a log with
  | intro frame h ih =>
    subst ha
    obtain ⟨b, hover, hs⟩ | ⟨s, hends, hs⟩ | ⟨e, s, hends, hs⟩ := turn_cases family a
    · obtain ⟨frames, turns, last, hrun, hturns, hleads, hends⟩ := ih b.frame hs rfl (log ++ [a.frame])
      refine ⟨a.frame :: frames, a :: turns, last, ?_, ?_, .cons hover hleads, ?_⟩
      · rw [repeatUntil_inl (logged_inl hs log), hrun, repeatUntil_inl hs, List.append_assoc,
          List.singleton_append]
      · exact congrArg (a :: ·) hturns
      · rwa [repeatUntil_inl hs]
    -- The loop goes round once more, and finds nothing to take.
    · refine ⟨[a.frame, ⟨s, none⟩], [a], a, ?_, rfl, .refl a, ?_⟩
      · rw [repeatUntil_inl (logged_inl hs log), repeatUntil_inl hs,
          repeatUntil_inr (logged_inr advance_none _), repeatUntil_inr advance_none, List.append_assoc,
          List.singleton_append]
      · rwa [repeatUntil_inl hs, repeatUntil_inr advance_none]
    · refine ⟨[a.frame], [a], a, ?_, rfl, .refl a, ?_⟩
      · rw [repeatUntil_inr (logged_inr hs log), repeatUntil_inr hs]
      · rwa [repeatUntil_inr hs]

/-! ## Runs -/

theorem Turn.Ends.repeatUntil_eq (h : a.Ends family x) :
    ∃ h, repeatUntil (advance family) a.frame h = x := by
  obtain ⟨r, s⟩ := x
  obtain ⟨next, hrun, hnext⟩ := h
  cases r with
  | ok u =>
    obtain rfl : next = none := hnext rfl
    have hs : advance family a.frame = .inl ⟨s, none⟩ := advance_of_ok hrun
    exact ⟨.of_inl hs (.of_inr advance_none), (repeatUntil_inl hs _).trans (repeatUntil_inr advance_none _)⟩
  | error e =>
    have hs : advance family a.frame = .inr (.error e, s) := advance_of_error hrun
    exact ⟨.of_inr hs, repeatUntil_inr hs _⟩

theorem Turn.Leads.repeatUntil_eq {turns : List (Turn m ι C W)} {last : Turn m ι C W}
    (hleads : Turn.Leads family a turns last) (hends : last.Ends family x) :
    ∃ h, repeatUntil (advance family) a.frame h = x := by
  induction hleads with
  | refl a => exact hends.repeatUntil_eq
  | cons hover _ ih =>
    obtain ⟨h, hrun⟩ := ih hends
    exact ⟨.of_inl hover.advance_eq h, (repeatUntil_inl hover.advance_eq _).trans hrun⟩

/-- **The loop ends as a chain of turns does.** -/
theorem trampoline_iff_leads {t : TailCall m ι C} {s : Machine W} :
    (∃ h, t.trampoline family s h = x) ↔
      ∃ turns last, Turn.Leads family (t, s) turns last ∧ last.Ends family x := by
  constructor
  · rintro ⟨h, rfl⟩
    obtain ⟨-, turns, last, -, -, hleads, hends⟩ := repeatUntil_logged h (a := (t, s)) rfl []
    exact ⟨turns, last, hleads, hends⟩
  · rintro ⟨turns, last, hleads, hends⟩
    exact hleads.repeatUntil_eq hends

theorem Turn.HandsOver.trampoline_iff (h : a.HandsOver family b) :
    (∃ h, a.1.trampoline family a.2 h = x) ↔ ∃ h, b.1.trampoline family b.2 h = x := by
  have hs := h.advance_eq
  constructor
  · rintro ⟨h, rfl⟩
    exact ⟨h.inv hs, (repeatUntil_inl hs h).symm⟩
  · rintro ⟨h, rfl⟩
    exact ⟨.of_inl hs h, repeatUntil_inl hs _⟩

end Chain

/-- **A trampoline runs the chain of its calls**, to the first that fails or schedules nothing. Of the calls
that one schedules, only the last is run. -/
theorem trampoline_chain (family : StepFamily m ι C W) (t : TailCall m ι C) (s : Machine W) :
    (∀ s', (∃ h, t.trampoline family s h = (.ok (), s')) ↔
      ∃ turns last, Turn.Leads family (t, s) turns last ∧
        last.run family = (.ok (), ⟨s', none⟩)) ∧
    (∀ e s', (∃ h, t.trampoline family s h = (.error e, s')) ↔
      ∃ turns last next, Turn.Leads family (t, s) turns last ∧
        last.run family = (.error e, ⟨s', next⟩)) ∧
    (∀ h, ∃ turns last next, t.recorded family s h = (t.trampoline family s h, turns) ∧
      Turn.Leads family (t, s) turns last ∧
        last.run family = ((t.trampoline family s h).1, ⟨(t.trampoline family s h).2, next⟩)) ∧
    ∀ (before : StepM m ι C W Unit) (u : TailCall m ι C) (after : Effect (Machine W) Unit)
      (frame : Frame m ι C W),
      t.run family = (do before; StepM.schedule u; StepM.onMachine after) →
      Turn.run family (t, s) = (.ok (), frame) →
        ∀ x, (∃ h, t.trampoline family s h = x) ↔
          ∃ h, u.trampoline family frame.toMachine h = x := by
  refine ⟨fun s' => ?_, fun e s' => ?_, fun h => ?_, fun before u after frame hstep hrun x => ?_⟩
  · rw [trampoline_iff_leads]
    simp [Turn.Ends]
  · rw [trampoline_iff_leads]
    simp [Turn.Ends]
  · obtain ⟨frames, turns, last, hrecorded, hturns, hleads, next, hlast, -⟩ :=
      repeatUntil_logged h (a := (t, s)) rfl []
    refine ⟨turns, last, next, ?_, hleads, hlast⟩
    rw [recorded, hrecorded]
    exact congrArg (Prod.mk _) hturns
  · have hnext : frame.next = some u := by
      rw [Turn.run, hstep] at hrun
      exact next_of_schedule before u after hrun
    have hover : Turn.HandsOver family (t, s) (u, frame.toMachine) := by
      rw [Turn.HandsOver, hrun, ← hnext]
    exact hover.trampoline_iff

end WasmSandbox.TailCall
